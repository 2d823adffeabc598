import Clearvoiance.Utf16
import Clearvoiance.Utf8Text

/-! UTF-8 text that arrives in chunks, each of which is decoded on its own.  A character whose bytes are divided
between chunks is lost: a replacement stands for what comes first, and one for each byte that follows. -/
namespace Clearvoiance
namespace ChunkedText

open JsonStrings Utf8Text

/-- The bytes of the chunks, each with whether a chunk begins with it. -/
def marked (chunks : List (List ℕ)) : List (Bool × ℕ) :=
  chunks.flatMap fun
    | [] => []
    | b :: bs => (true,b) :: bs.map (false,·)

def marks (chunks : List (List ℕ)) : List Bool := (marked chunks).map Prod.fst

def decodeMarked (s : Utf8State) : List (Bool × ℕ) → List ℕ
  | [] => flush (fun _ => 1) s
  | (true,b) :: t => flush (fun _ => 1) s ++ (startByte b).1 ++ decodeMarked (startByte b).2 t
  | (false,b) :: t => (nextByte (fun _ => 1) s b).1 ++ decodeMarked (nextByte (fun _ => 1) s b).2 t

/-- How many replacements stand for a character, from the marks behind its first byte; none if it is whole. -/
def replacements : List Bool → ℕ
  | [] => 0
  | true :: t => t.length+2
  | false :: t => replacements t

def width (c : Char) : ℕ := (encodeChar c).length

/-- The marks behind the first byte of a character. -/
def inner (m : List Bool) (c : Char) : List Bool := (m.take (width c)).drop 1

def damageChar (c : Char) (inside : List Bool) : List Char :=
  if replacements inside = 0 then [c] else List.replicate (replacements inside) (Char.ofNat replacement)

def damage (m : List Bool) : List Char → List Char
  | [] => []
  | c :: s => damageChar c (inner m c) ++ damage (m.drop (width c)) s

/-- No chunk begins inside a character of the text. -/
def Whole (m : List Bool) : List Char → Prop
  | [] => True
  | c :: s => (∀ x ∈ inner m c, x = false) ∧ Whole (m.drop (width c)) s

@[simp] theorem flush_idle (bad : ℕ → ℕ) : flush bad idle = [] := rfl

theorem marked_snd (chunks : List (List ℕ)) : (marked chunks).map Prod.snd = chunks.flatten := by
  induction chunks with
  | nil => rfl
  | cons c chunks ih =>
    rw [marked,List.flatMap_cons,List.map_append,List.flatten_cons,← ih]
    congr 1
    cases c with
    | nil => rfl
    | cons b bs => simp [Function.comp_def]

/-- A text in chunks as a decoder that starts afresh sees it. -/
theorem decodeMarked_append (s : Utf8State) (bs : List ℕ) {t : List (Bool × ℕ)} (ht : ∀ x ∈ t.head?, x.1 = true) :
    decodeMarked s (bs.map (false,·) ++ t) = decodeFrom (fun _ => 1) s bs ++ decodeMarked idle t := by
  induction bs generalizing s with
  | nil =>
    cases t with
    | nil => simp [decodeMarked,decodeFrom]
    | cons x t =>
      obtain ⟨m,b⟩ := x
      obtain rfl : m = true := ht _ rfl
      simp [decodeMarked,decodeFrom]
  | cons b bs ih => simp only [List.map_cons,List.cons_append,decodeMarked,decodeFrom,ih,List.append_assoc]

theorem head_marked (chunks : List (List ℕ)) : ∀ x ∈ (marked chunks).head?, x.1 = true := by
  induction chunks with
  | nil => simp [marked]
  | cons c chunks ih =>
    cases c with
    | nil => exact ih
    | cons b bs => simp [marked]

theorem flatMap_bufferToString (chunks : List (List ℕ)) :
    chunks.flatMap bufferToString = decodeMarked idle (marked chunks) := by
  induction chunks with
  | nil => rfl
  | cons c chunks ih =>
    rw [List.flatMap_cons,ih]
    cases c with
    | nil => rfl
    | cons b bs =>
      have hsplit : marked ((b :: bs) :: chunks) = (true,b) :: (bs.map (false,·) ++ marked chunks) := by simp [marked]
      rw [hsplit,decodeMarked,decodeMarked_append _ _ (head_marked chunks),flush_idle,List.nil_append]
      exact List.append_assoc _ _ _

/-- A byte that continues a character, without the bytes before it. -/
theorem startByte_cont {b : ℕ} (hlow : 0x80 ≤ b) (hhigh : b ≤ 0xBF) : startByte b = ([replacement],idle) := by
  rw [startByte,if_neg (by omega),if_neg (by omega),if_neg (by omega),if_neg (by omega)]

/-- The bytes that continue a character stand for a replacement each, however they are divided. -/
theorem decodeMarked_conts {bs : List (Bool × ℕ)} (h : ∀ x ∈ bs, 0x80 ≤ x.2 ∧ x.2 ≤ 0xBF) (t : List (Bool × ℕ)) :
    decodeMarked idle (bs ++ t) = List.replicate bs.length replacement ++ decodeMarked idle t := by
  induction bs with
  | nil => rfl
  | cons x bs ih =>
    obtain ⟨m,b⟩ := x
    obtain ⟨hlow,hhigh⟩ := h (m,b) (by simp)
    have hrest := ih fun y hy => h y (by simp [hy])
    cases m <;>
      simp only [List.cons_append,decodeMarked,nextByte_idle,startByte_cont hlow hhigh,hrest,flush_idle,
        List.nil_append,
        List.length_cons,List.replicate_succ]

theorem decodeMarked_mark (s : Utf8State) (b : ℕ) (t : List (Bool × ℕ)) :
    decodeMarked s ((true,b) :: t) = flush (fun _ => 1) s ++ decodeMarked idle ((true,b) :: t) := by
  rw [decodeMarked,decodeMarked,flush_idle,List.nil_append,List.append_assoc]

theorem decodeMarked_first (m : Bool) (b : ℕ) (t : List (Bool × ℕ)) :
    decodeMarked idle ((m,b) :: t) = (startByte b).1 ++ decodeMarked (startByte b).2 t := by
  cases m <;> rw [decodeMarked] <;> rfl

theorem decodeMarked_next (s : Utf8State) (b : ℕ) (t : List (Bool × ℕ)) :
    decodeMarked s ((false,b) :: t) =
      (nextByte (fun _ => 1) s b).1 ++ decodeMarked (nextByte (fun _ => 1) s b).2 t := rfl

/-- What is broken off stands for one replacement, and so does each byte that follows. -/
theorem decodeMarked_broken {s : Utf8State} (hs : s.needed ≠ 0) {b : ℕ} {r : List (Bool × ℕ)}
    (h : ∀ x ∈ (true,b) :: r, 0x80 ≤ x.2 ∧ x.2 ≤ 0xBF) (t : List (Bool × ℕ)) :
    decodeMarked s ((true,b) :: (r ++ t)) = List.replicate (r.length+2) replacement ++ decodeMarked idle t := by
  have hflush : flush (fun _ => 1) s = [replacement] := if_neg hs
  rw [decodeMarked_mark,← List.cons_append,decodeMarked_conts h,hflush]
  rfl

def decoded (n : ℕ) (inside : List Bool) : List ℕ :=
  if replacements inside = 0 then [n] else List.replicate (replacements inside) replacement

theorem decoded_whole {n : ℕ} {inside : List Bool} (h : replacements inside = 0) : decoded n inside = [n] := if_pos h

theorem decoded_eq (c : Char) (inside : List Bool) :
    decoded c.toNat inside = (damageChar c inside).map Char.toNat := by
  unfold decoded damageChar
  split_ifs
  · rfl
  · rw [List.map_replicate]
    rfl

theorem decodeMarked_char (c : Char) {m : List Bool} (hm : m.length = width c) (t : List (Bool × ℕ)) :
    decodeMarked idle (m.zip (encodeChar c) ++ t) = decoded c.toNat (m.drop 1) ++ decodeMarked idle t := by
  have hlt := toNat_lt c
  have hvalid : ¬ (0xD800 ≤ c.toNat ∧ c.toNat < 0xE000) := by
    have := isHigh_of_valid c.valid
    change isHigh c.toNat = false ∧ isLow c.toNat = false at this
    simp only [isHigh,isLow,Bool.and_eq_false_iff,decide_eq_false_iff_not] at this
    omega
  unfold width at hm
  unfold encodeChar encodePoint at hm ⊢
  generalize c.toNat = n at hlt hvalid hm
  split_ifs at hm ⊢ with h₁ h₂ h₃
  · obtain ⟨x,rfl⟩ := List.length_eq_one_iff.mp hm
    change decodeMarked idle ((x,n) :: t) = _
    rw [decodeMarked_first,startByte,if_pos h₁]
    rfl
  · obtain ⟨x,y,rfl⟩ := List.length_eq_two.mp hm
    change decodeMarked idle ((x,_) :: (y,_) :: t) = _
    rw [decodeMarked_first,startByte_two (by omega) (by omega)]
    cases y with
    | true => exact decodeMarked_broken (r := []) (by simp) (by simp; omega) t
    | false =>
      rw [List.nil_append,decodeMarked_next,nextByte_last (by omega) (by omega)]
      rw [show decoded n (List.drop 1 [x,false]) = [n] from decoded_whole rfl]
      simp only [List.singleton_append,List.cons.injEq,and_true]
      omega
  · obtain ⟨x,y,z,rfl⟩ := List.length_eq_three.mp hm
    change decodeMarked idle ((x,_) :: (y,_) :: (z,_) :: t) = _
    rw [decodeMarked_first,startByte_three (by omega) (by omega)]
    cases y with
    | true => exact decodeMarked_broken (r := [(z,_)]) (by simp) (by simp; omega) t
    | false =>
      rw [List.nil_append,decodeMarked_next,nextByte_more (by split_ifs <;> omega) (by split_ifs <;> omega),
        List.nil_append]
      cases z with
      | true => exact decodeMarked_broken (r := []) (by simp) (by simp; omega) t
      | false =>
        rw [decodeMarked_next,nextByte_last (by omega) (by omega)]
        rw [show decoded n (List.drop 1 [x,false,false]) = [n] from decoded_whole rfl]
        simp only [List.singleton_append,List.cons.injEq,and_true]
        omega
  · obtain ⟨x,m,rfl⟩ := List.exists_cons_of_length_eq_add_one hm
    obtain ⟨y,z,w,rfl⟩ := List.length_eq_three.mp (Nat.succ.inj hm)
    change decodeMarked idle ((x,_) :: (y,_) :: (z,_) :: (w,_) :: t) = _
    rw [decodeMarked_first,startByte_four (by omega) (by omega)]
    cases y with
    | true => exact decodeMarked_broken (r := [(z,_),(w,_)]) (by simp) (by simp; omega) t
    | false =>
      rw [List.nil_append,decodeMarked_next,nextByte_more (by split_ifs <;> omega) (by split_ifs <;> omega),
        List.nil_append]
      cases z with
      | true => exact decodeMarked_broken (r := [(w,_)]) (by simp) (by simp; omega) t
      | false =>
        rw [decodeMarked_next,nextByte_more (by omega) (by omega),List.nil_append]
        cases w with
        | true => exact decodeMarked_broken (r := []) (by simp) (by simp; omega) t
        | false =>
          rw [decodeMarked_next,nextByte_last (by omega) (by omega)]
          rw [show decoded n (List.drop 1 [x,false,false,false]) = [n] from decoded_whole rfl]
          simp only [List.singleton_append,List.cons.injEq,and_true]
          omega

theorem decodeMarked_text (s : List Char) {bytes : List (Bool × ℕ)} (h : bytes.map Prod.snd = encode s) :
    decodeMarked idle bytes = (damage (bytes.map Prod.fst) s).map Char.toNat := by
  induction s generalizing bytes with
  | nil =>
    obtain rfl := List.map_eq_nil_iff.mp h
    rfl
  | cons c s ih =>
    rw [encode_cons] at h
    have hfirst : (bytes.take (width c)).map Prod.snd = encodeChar c := by
      rw [List.map_take,h]
      exact List.take_left
    have hrest : (bytes.drop (width c)).map Prod.snd = encode s := by
      rw [List.map_drop,h]
      exact List.drop_left
    have hzip : bytes.take (width c) = ((bytes.take (width c)).map Prod.fst).zip (encodeChar c) :=
      List.zip_of_prod rfl hfirst
    have hlength : ((bytes.take (width c)).map Prod.fst).length = width c := by
      rw [List.length_map,← List.length_map Prod.snd,hfirst]
      rfl
    conv_lhs => rw [← List.take_append_drop (width c) bytes,hzip]
    rw [decodeMarked_char c hlength,ih hrest,decoded_eq,damage,List.map_append,List.map_take,List.map_drop]
    rfl

/-- The chunks of a text are decoded to what is left of it. -/
theorem decode_chunks {chunks : List (List ℕ)} {s : List Char} (h : chunks.flatten = encode s) :
    chunks.flatMap bufferToString = (damage (marks chunks) s).map Char.toNat := by
  rw [flatMap_bufferToString,decodeMarked_text s (by rw [marked_snd,h])]
  rfl

theorem damage_append (m : List Bool) (s t : List Char) :
    damage m (s ++ t) = damage m s ++ damage (m.drop (encode s).length) t := by
  induction s generalizing m with
  | nil => rfl
  | cons c s ih =>
    have hwidth : (encode (c :: s)).length = width c+(encode s).length := by rw [encode_cons,List.length_append]; rfl
    rw [List.cons_append,damage,damage,ih,List.append_assoc,List.drop_drop,hwidth]

theorem replacements_eq_zero_iff (inside : List Bool) : replacements inside = 0 ↔ ∀ x ∈ inside, x = false := by
  induction inside with
  | nil => simp [replacements]
  | cons x inside ih => cases x <;> simp [replacements,ih]

theorem length_damageChar (c : Char) (inside : List Bool) :
    (damageChar c inside).length = max 1 (replacements inside) := by
  unfold damageChar
  split_ifs with h
  · simp [h]
  · simp
    omega

theorem replacements_ne_one (inside : List Bool) : replacements inside ≠ 1 := by
  induction inside with
  | nil => simp [replacements]
  | cons x inside ih => cases x <;> simp [replacements,ih]

/-- A text does not become shorter, and it stays as long as it was only when every character is whole. -/
theorem length_damage (m : List Bool) (s : List Char) :
    s.length ≤ (damage m s).length ∧ ((damage m s).length = s.length → Whole m s) := by
  induction s generalizing m with
  | nil => simp [damage,Whole]
  | cons c s ih =>
    obtain ⟨hle,hwhole⟩ := ih (m.drop (width c))
    have hone := replacements_ne_one (inner m c)
    rw [damage,List.length_append,length_damageChar,List.length_cons,Whole,← replacements_eq_zero_iff]
    refine ⟨by omega,fun h => ⟨by omega,hwhole (by omega)⟩⟩

theorem damage_of_whole {m : List Bool} {s : List Char} (h : Whole m s) : damage m s = s := by
  induction s generalizing m with
  | nil => rfl
  | cons c s ih => rw [damage,damageChar,if_pos ((replacements_eq_zero_iff _).mpr h.1),ih h.2,List.singleton_append]

/-- A text arrives as it was exactly when no chunk begins inside a character. -/
theorem damage_eq_iff (m : List Bool) (s : List Char) : damage m s = s ↔ Whole m s :=
  ⟨fun h => (length_damage m s).2 (congrArg List.length h),damage_of_whole⟩

theorem whole_ascii (m : List Bool) {s : List Char} (h : Ascii s) : Whole m s := by
  induction s generalizing m with
  | nil => trivial
  | cons c s ih =>
    have hwidth : width c = 1 := by rw [width,encodeChar,encodePoint_plain (h c List.mem_cons_self)]; rfl
    refine ⟨?_,ih _ fun d hd => h d (List.mem_cons_of_mem _ hd)⟩
    unfold inner
    rw [hwidth]
    cases m <;> simp

theorem width_pos (c : Char) : 0 < width c := List.length_pos_iff.mpr (encodePoint_ne_nil c.toNat)

theorem whole_of_one {m : List Bool} (h : ∀ x ∈ m.drop 1, x = false) (s : List Char) : Whole m s := by
  induction s generalizing m with
  | nil => trivial
  | cons c s ih =>
    refine ⟨fun x hx => ?_,ih fun x hx => ?_⟩
    · unfold inner at hx
      rw [List.drop_take] at hx
      exact h x (List.mem_of_mem_take hx)
    · rw [List.drop_drop] at hx
      have hpos := width_pos c
      obtain ⟨k,hk⟩ : ∃ k, width c+1 = 1+k := ⟨width c,by omega⟩
      rw [hk,← List.drop_drop] at hx
      exact h x (List.mem_of_mem_drop hx)

theorem decode_encode (s : List Char) : bufferToString (encode s) = s.map Char.toNat := by
  have hone := @decode_chunks [encode s] s (by simp)
  rw [List.flatMap_singleton] at hone
  rw [hone,damage_of_whole (whole_of_one ?_ s)]
  intro x hx
  cases he : encode s with
  | nil => simp [marks,marked,he] at hx
  | cons b bs =>
    rw [he] at hx
    simp only [marks,marked,List.flatMap_singleton,List.map_cons,List.drop_succ_cons,List.drop_zero,List.map_map,
      List.mem_map] at hx
    obtain ⟨y,-,rfl⟩ := hx
    rfl

end ChunkedText
end Clearvoiance
