import Clearvoiance.JsonStrings

/-! The bytes of a text.  A code point is coded by one to four bytes, a text by the bytes of its code points, and
what an escape stands for takes the bytes of its code point.  A string literal that stands for the bytes of a text
is read as the text. -/
namespace Clearvoiance
namespace Utf8Text

open Json JsonStrings

/-- The bytes of a code point, lone surrogates included. -/
def encodePoint (n : ℕ) : List ℕ :=
  if n < 0x80 then [n]
  else if n < 0x800 then [0xC0+n/0x40,0x80+n % 0x40]
  else if n < 0x10000 then [0xE0+n/0x1000,0x80+n/0x40 % 0x40,0x80+n % 0x40]
  else [0xF0+n/0x40000,0x80+n/0x1000 % 0x40,0x80+n/0x40 % 0x40,0x80+n % 0x40]

def encodeChar (c : Char) : List ℕ := encodePoint c.toNat

def encode (s : List Char) : List ℕ := s.flatMap encodeChar

@[simp] theorem encode_nil : encode [] = [] := rfl

@[simp] theorem encode_cons (c : Char) (s : List Char) : encode (c :: s) = encodeChar c ++ encode s := List.flatMap_cons

@[simp] theorem encode_append (s t : List Char) : encode (s ++ t) = encode s ++ encode t := List.flatMap_append

theorem encodePoint_plain {n : ℕ} (h : n < 0x80) : encodePoint n = [n] := if_pos h

theorem encodePoint_ne_nil (n : ℕ) : encodePoint n ≠ [] := by
  unfold encodePoint
  split_ifs <;> simp

/-- A code point can be told from its bytes whatever follows. -/
theorem encodePoint_cancel {m n : ℕ} {r t : List ℕ} (h : encodePoint m ++ r = encodePoint n ++ t) : m = n ∧ r = t := by
  unfold encodePoint at h
  split_ifs at h <;> simp only [List.cons_append,List.nil_append,List.cons.injEq] at h
  all_goals try exact absurd h.1 (by omega)
  · exact h
  · exact ⟨by omega,h.2.2⟩
  · exact ⟨by omega,h.2.2.2⟩
  · exact ⟨by omega,h.2.2.2.2⟩

theorem encode_injective : Function.Injective encode := by
  intro s t h
  induction s generalizing t with
  | nil =>
    cases t with
    | nil => rfl
    | cons c t =>
      rw [encode_cons,encode_nil] at h
      exact absurd (List.append_eq_nil_iff.mp h.symm).1 (encodePoint_ne_nil _)
  | cons c s ih =>
    cases t with
    | nil =>
      rw [encode_cons,encode_nil] at h
      exact absurd (List.append_eq_nil_iff.mp h).1 (encodePoint_ne_nil _)
    | cons d t =>
      rw [encode_cons,encode_cons] at h
      obtain ⟨hc,ht⟩ := encodePoint_cancel h
      rw [Char.toNat_inj.mp hc,ih ht]

theorem toNat_lt (c : Char) : c.toNat < 0x110000 := by
  rcases c.valid with h | h
  · exact lt_of_lt_of_le h (by decide)
  · exact h.2

theorem utf8EncodeChar_toNat (c : Char) : (String.utf8EncodeChar c).map UInt8.toNat = encodeChar c := by
  have hbyte : ∀ n < 256, (UInt8.ofNat n).toNat = n := by
    intro n hn
    rw [UInt8.toNat_ofNat']
    exact Nat.mod_eq_of_lt hn
  have hlt := toNat_lt c
  have hval : c.val.toNat = c.toNat := rfl
  simp only [String.utf8EncodeChar,encodeChar,encodePoint,hval]
  generalize c.toNat = n at hlt
  by_cases h₁ : n < 0x80
  · rw [if_pos h₁,if_pos (by omega),List.map_singleton,hbyte _ (by omega)]
  rw [if_neg h₁,if_neg (by omega)]
  by_cases h₂ : n < 0x800
  · rw [if_pos h₂,if_pos (by omega)]
    simp only [List.map_cons,List.map_nil]
    rw [hbyte _ (by omega),hbyte _ (by omega)]
    congr 1
    · omega
    · congr 1
      omega
  rw [if_neg h₂,if_neg (by omega)]
  by_cases h₃ : n < 0x10000
  · rw [if_pos h₃,if_pos (by omega)]
    simp only [List.map_cons,List.map_nil]
    rw [hbyte _ (by omega),hbyte _ (by omega),hbyte _ (by omega)]
    simp only [List.cons.injEq,and_true]
    omega
  · rw [if_neg h₃,if_neg (by omega)]
    simp only [List.map_cons,List.map_nil]
    rw [hbyte _ (by omega),hbyte _ (by omega),hbyte _ (by omega),hbyte _ (by omega)]
    simp only [List.cons.injEq,and_true]
    omega

theorem utf8_ofList (t : List Char) : (Hex.utf8 (String.ofList t)).map UInt8.toNat = encode t := by
  have hbytes : Hex.utf8 (String.ofList t) = t.flatMap String.utf8EncodeChar := List.toList_data_toByteArray
  rw [hbytes,List.map_flatMap]
  simp only [utf8EncodeChar_toNat]
  rfl

/-- The bytes that the items of a string literal stand for. -/
def exactString : List Item → List ℕ
  | .esc hi :: .esc lo :: t =>
    if isHigh hi && isLow lo then encodePoint (combine hi lo) ++ exactString t
    else encodePoint hi ++ exactString (.esc lo :: t)
  | .esc n :: t => encodePoint n ++ exactString t
  | .raw b :: t => b :: exactString t
  | [] => []

theorem exactString_escape (n : ℕ) (t : List Item) : ∃ m u, exactString (.esc n :: t) = encodePoint m ++ u := by
  cases t with
  | nil => exact ⟨n,_,by rw [exactString]; simp⟩
  | cons i t =>
    cases i with
    | raw b => exact ⟨n,_,by rw [exactString]; simp⟩
    | esc lo =>
      rw [exactString]
      split_ifs
      · exact ⟨_,_,rfl⟩
      · exact ⟨_,_,rfl⟩

/-- A byte that is not the first of a code point comes from the text itself. -/
theorem exactString_cont {items : List Item} {k : ℕ} {r : List ℕ} (hlow : 0x80 ≤ k) (hhigh : k < 0xC0)
    (h : exactString items = k :: r) : ∃ t, items = .raw k :: t ∧ exactString t = r := by
  cases items with
  | nil => simp [exactString] at h
  | cons i t =>
    cases i with
    | raw b =>
      rw [exactString,List.cons.injEq] at h
      exact ⟨t,by rw [h.1],h.2⟩
    | esc n =>
      obtain ⟨m,u,hm⟩ := exactString_escape n t
      rw [hm] at h
      unfold encodePoint at h
      split_ifs at h <;> simp only [List.cons_append,List.nil_append,List.cons.injEq] at h <;> omega

/-- The bytes of a code point that begin with a byte of the text are all bytes of the text. -/
theorem exactString_bytes {b : ℕ} {t : List Item} {n : ℕ} {r : List ℕ}
    (h : exactString (.raw b :: t) = encodePoint n ++ r) :
    ∃ t', .raw b :: t = (encodePoint n).map .raw ++ t' ∧ exactString t' = r := by
  rw [exactString] at h
  unfold encodePoint at h ⊢
  split_ifs at h ⊢ <;> simp only [List.cons_append,List.nil_append,List.cons.injEq] at h
  · exact ⟨t,by rw [h.1]; rfl,h.2⟩
  · obtain ⟨rfl,h₁⟩ := h
    obtain ⟨t₁,rfl,h₂⟩ := exactString_cont (by omega) (by omega) h₁
    exact ⟨t₁,rfl,h₂⟩
  · obtain ⟨rfl,h₁⟩ := h
    obtain ⟨t₁,rfl,h₂⟩ := exactString_cont (by omega) (by omega) h₁
    obtain ⟨t₂,rfl,h₃⟩ := exactString_cont (by omega) (by omega) h₂
    exact ⟨t₂,rfl,h₃⟩
  · obtain ⟨rfl,h₁⟩ := h
    obtain ⟨t₁,rfl,h₂⟩ := exactString_cont (by omega) (by omega) h₁
    obtain ⟨t₂,rfl,h₃⟩ := exactString_cont (by omega) (by omega) h₂
    obtain ⟨t₃,rfl,h₄⟩ := exactString_cont (by omega) (by omega) h₃
    exact ⟨t₃,rfl,h₄⟩

theorem startByte_two {b : ℕ} (hlow : 0xC2 ≤ b) (hhigh : b ≤ 0xDF) : startByte b = ([],⟨1,1,b-0xC0,0x80,0xBF⟩) := by
  rw [startByte,if_neg (by omega),if_pos ⟨hlow,hhigh⟩]

theorem startByte_three {b : ℕ} (hlow : 0xE0 ≤ b) (hhigh : b ≤ 0xEF) :
    startByte b = ([],⟨2,1,b-0xE0,if b = 0xE0 then 0xA0 else 0x80,if b = 0xED then 0x9F else 0xBF⟩) := by
  rw [startByte,if_neg (by omega),if_neg (by omega),if_pos ⟨hlow,hhigh⟩]

theorem startByte_four {b : ℕ} (hlow : 0xF0 ≤ b) (hhigh : b ≤ 0xF4) :
    startByte b = ([],⟨3,1,b-0xF0,if b = 0xF0 then 0x90 else 0x80,if b = 0xF4 then 0x8F else 0xBF⟩) := by
  rw [startByte,if_neg (by omega),if_neg (by omega),if_neg (by omega),if_pos ⟨hlow,hhigh⟩]

theorem nextByte_idle (bad : ℕ → ℕ) (b : ℕ) : nextByte bad idle b = startByte b := rfl

theorem nextByte_last {bad : ℕ → ℕ} {seen point lower upper b : ℕ} (hlow : lower ≤ b) (hhigh : b ≤ upper) :
    nextByte bad ⟨1,seen,point,lower,upper⟩ b = ([64*point+(b-0x80)],idle) := by
  simp [nextByte,hlow,hhigh]

theorem nextByte_more {bad : ℕ → ℕ} {needed seen point lower upper b : ℕ} (hlow : lower ≤ b) (hhigh : b ≤ upper) :
    nextByte bad ⟨needed+2,seen,point,lower,upper⟩ b = ([],⟨needed+1,seen+1,64*point+(b-0x80),0x80,0xBF⟩) := by
  simp [nextByte,hlow,hhigh]

theorem unquote_raw (s : Utf8State) (b : ℕ) (t : List Item) :
    unquote s none (.raw b :: t) = (nextByte id s b).1 ++ unquote (nextByte id s b).2 none t := rfl

/-- The bytes of a code point are read as the code point. -/
theorem unquote_bytes (c : Char) (t : List Item) :
    unquote idle none ((encodeChar c).map .raw ++ t) = c.toNat :: unquote idle none t := by
  have hlt := toNat_lt c
  have hvalid : ¬ (0xD800 ≤ c.toNat ∧ c.toNat < 0xE000) := by
    have := c.valid
    intro h
    rcases this with hv | hv
    · exact absurd (show c.toNat < 0xD800 from hv) (by omega)
    · exact absurd (show 0xDFFF < c.toNat from hv.1) (by omega)
  unfold encodeChar encodePoint
  generalize c.toNat = n at hlt hvalid
  by_cases h₁ : n < 0x80
  · rw [if_pos h₁]
    change (startByte n).1 ++ unquote (startByte n).2 none t = _
    rw [startByte,if_pos h₁]
    rfl
  rw [if_neg h₁]
  by_cases h₂ : n < 0x800
  · rw [if_pos h₂]
    simp only [List.map_cons,List.map_nil,List.cons_append,List.nil_append]
    rw [unquote_raw,nextByte_idle,startByte_two (by omega) (by omega),unquote_raw,nextByte_last (by omega) (by omega)]
    simp only [List.nil_append,List.singleton_append,List.cons.injEq,and_true]
    omega
  rw [if_neg h₂]
  by_cases h₃ : n < 0x10000
  · rw [if_pos h₃]
    simp only [List.map_cons,List.map_nil,List.cons_append,List.nil_append]
    rw [unquote_raw,nextByte_idle,startByte_three (by omega) (by omega),unquote_raw,
      nextByte_more (by split_ifs <;> omega) (by split_ifs <;> omega),unquote_raw,nextByte_last (by omega) (by omega)]
    simp only [List.nil_append,List.singleton_append,List.cons.injEq,and_true]
    omega
  · rw [if_neg h₃]
    simp only [List.map_cons,List.map_nil,List.cons_append,List.nil_append]
    rw [unquote_raw,nextByte_idle,startByte_four (by omega) (by omega),unquote_raw,
      nextByte_more (by split_ifs <;> omega) (by split_ifs <;> omega),unquote_raw,nextByte_more (by omega) (by omega),
      unquote_raw,nextByte_last (by omega) (by omega)]
    simp only [List.nil_append,List.singleton_append,List.cons.injEq,and_true]
    omega

theorem unquote_point (c : Char) (t : List Item) :
    unquote idle none (.esc c.toNat :: t) = c.toNat :: unquote idle none t := by
  have hsur := isHigh_of_valid c.valid
  change isHigh c.toNat = false ∧ isLow c.toNat = false at hsur
  rw [unquote]
  simp [hsur.1,hsur.2,flush,lone,idle]

theorem unquote_pair {hi lo : ℕ} (hhi : isHigh hi = true) (hlo : isLow lo = true) (t : List Item) :
    unquote idle none (.esc hi :: .esc lo :: t) = combine hi lo :: unquote idle none t := by
  have hpaired : unquote idle (some hi) (.esc lo :: t) = combine hi lo :: unquote idle none t := by
    rw [unquote]
    simp [hlo]
  rw [unquote,← hpaired]
  simp [hhi,flush,lone,idle]

/-- A literal that stands for the bytes of a text is read as the text. -/
theorem unquote_of_exact {s : List Char} {items : List Item} (h : exactString items = encode s) :
    unquote idle none items = s.map Char.toNat := by
  induction s generalizing items with
  | nil =>
    cases items with
    | nil => rfl
    | cons i t =>
      cases i with
      | raw b => simp [exactString] at h
      | esc n =>
        obtain ⟨m,u,hm⟩ := exactString_escape n t
        rw [hm,encode_nil,List.append_eq_nil_iff] at h
        exact absurd h.1 (encodePoint_ne_nil m)
  | cons c s ih =>
    rw [encode_cons,encodeChar] at h
    match items with
    | [] =>
      rw [exactString] at h
      exact absurd (List.append_eq_nil_iff.mp h.symm).1 (encodePoint_ne_nil _)
    | .raw b :: t =>
      obtain ⟨t',ht,hrest⟩ := exactString_bytes h
      rw [ht]
      exact (unquote_bytes c t').trans (by rw [ih hrest]; rfl)
    | [.esc n] =>
      have hn : encodePoint n ++ [] = encodePoint c.toNat ++ encode s := by simpa [exactString] using h
      obtain ⟨rfl,hrest⟩ := encodePoint_cancel hn
      rw [unquote_point,@ih [] hrest]
      rfl
    | .esc n :: .raw b :: t =>
      have hn : encodePoint n ++ exactString (.raw b :: t) = encodePoint c.toNat ++ encode s := by
        simpa [exactString] using h
      obtain ⟨rfl,hrest⟩ := encodePoint_cancel hn
      rw [unquote_point,ih hrest]
      rfl
    | .esc hi :: .esc lo :: t =>
      rw [exactString] at h
      split_ifs at h with hpair
      · obtain ⟨hc,hrest⟩ := encodePoint_cancel h
        rw [Bool.and_eq_true] at hpair
        rw [unquote_pair hpair.1 hpair.2,ih hrest,hc]
        rfl
      · obtain ⟨rfl,hrest⟩ := encodePoint_cancel h
        rw [unquote_point,ih hrest]
        rfl

theorem goString_of_exact {s : List Char} {items : List Item} (h : exactString items = encode s) :
    goString items = s := by
  rw [goString,unquote_of_exact h,List.map_map]
  conv_rhs => rw [← List.map_id s]
  exact List.map_congr_left fun c _ => Char.ofNat_toNat c

theorem exactString_raws (ns : List ℕ) (t : List Item) : exactString (ns.map .raw ++ t) = ns ++ exactString t := by
  induction ns with
  | nil => rfl
  | cons n ns ih => rw [List.map_cons,List.cons_append,exactString,ih,List.cons_append]

theorem exactString_point (c : Char) (t : List Item) :
    exactString (.esc c.toNat :: t) = encodeChar c ++ exactString t := by
  have hsur : isHigh c.toNat = false := (isHigh_of_valid c.valid).1
  cases t with
  | nil =>
    rw [exactString]
    · rfl
    · simp
  | cons i t =>
    cases i with
    | raw b =>
      rw [exactString]
      · rfl
      · simp
    | esc lo =>
      rw [exactString,hsur,if_neg (by simp)]
      rfl

end Utf8Text
end Clearvoiance
