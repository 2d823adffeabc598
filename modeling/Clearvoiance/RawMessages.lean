import Clearvoiance.MarshalText

/-! The elements of a JSON array as the bytes they were written with.  The bytes of the array are read with the
nesting before each of them: a comma at the top divides two elements, and space outside strings is dropped when an
element is encoded again.  A printed array is divided into its printed elements. -/
namespace Clearvoiance
namespace RawMessages

open Json JsonStrings Utf8Text

structure Scan where
  depth : ℕ
  quoted : Bool
  escaped : Bool

def Scan.next (s : Scan) (b : ℕ) : Scan :=
  if s.quoted then
    if s.escaped then ⟨s.depth,true,false⟩
    else if b = 0x5C then ⟨s.depth,true,true⟩
    else if b = 0x22 then ⟨s.depth,false,false⟩
    else s
  else if b = 0x22 then ⟨s.depth,true,false⟩
  else if b = 0x5B || b = 0x7B then ⟨s.depth+1,false,false⟩
  else if b = 0x5D || b = 0x7D then ⟨s.depth-1,false,false⟩
  else s

/-- The bytes with what is open before each of them. -/
def annotate (s : Scan) : List ℕ → List (Scan × ℕ)
  | [] => []
  | b :: bs => (s,b) :: annotate (s.next b) bs

def isBlank (p : Scan × ℕ) : Bool := !p.1.quoted && isSpace p.2

def divides (p : Scan × ℕ) : Bool := !p.1.quoted && p.1.depth = 0 && p.2 = 0x2C

def outside (depth : ℕ) : Scan := ⟨depth,false,false⟩

def dropSpaces (bs : List ℕ) : List ℕ := ((annotate (outside 0) bs).filter fun p => !isBlank p).map Prod.snd

def pieces (bs : List ℕ) : List (List ℕ) := ((annotate (outside 0) bs).splitOnP divides).map (·.map Prod.snd)

def trim (bs : List ℕ) : List ℕ := ((bs.dropWhile isSpace).reverse.dropWhile isSpace).reverse

/-- `json.Unmarshal` into a slice of `json.RawMessage`; `null` leaves it empty. -/
def rawElements (bs : List ℕ) : Option (List (List ℕ)) :=
  match parse bs with
  | some (.arr vs) =>
    if 10000 < depth (.arr vs) then none
    else if vs.isEmpty then some []
    else some ((pieces ((trim bs).drop 1).dropLast).map trim)
  | some .null => some []
  | _ => none

/-- The escapes that `json.Marshal` puts into a raw message, after some bytes that an escape stands for. -/
def escapeFrom : ℕ → List ℕ → List ℕ
  | _,[] => []
  | skip+1,_ :: bs => escapeFrom skip bs
  | 0,b :: bs =>
    if b = 0x3C || b = 0x3E || b = 0x26 then (unicodeEscape b).map Char.toNat ++ escapeFrom 0 bs
    else if b = 0xE2 && (bs.take 2 = [0x80,0xA8] || bs.take 2 = [0x80,0xA9]) then
      (unicodeEscape (if bs.take 2 = [0x80,0xA8] then 0x2028 else 0x2029)).map Char.toNat ++ escapeFrom 2 bs
    else b :: escapeFrom 0 bs

/-- A raw message as `json.Marshal` writes it. -/
def compact (bs : List ℕ) : List ℕ := escapeFrom 0 (dropSpaces bs)

/-- The escapes of a raw message, for a character. -/
def markup (c : Char) : List Char := if isMarkup c then unicodeEscape c.toNat else [c]

section Markup

theorem escapeFrom_plain {bs : List ℕ} (h : ∀ b ∈ bs, b ≠ 0x3C ∧ b ≠ 0x3E ∧ b ≠ 0x26 ∧ b ≠ 0xE2) (r : List ℕ) :
    escapeFrom 0 (bs ++ r) = bs ++ escapeFrom 0 r := by
  induction bs with
  | nil => rfl
  | cons b bs ih =>
    obtain ⟨h₁,h₂,h₃,h₄⟩ := h b (by simp)
    rw [List.cons_append,escapeFrom,if_neg (by simp [h₁,h₂,h₃]),if_neg (by simp [h₄]),
      ih fun c hc => h c (by simp [hc]),List.cons_append]

theorem encode_unicodeEscape (n : ℕ) : encode (unicodeEscape n) = (unicodeEscape n).map Char.toNat := by
  have hdigit : ∀ m < 16, encodeChar (Hex.digit m) = [(Hex.digit m).toNat] := by decide
  simp only [unicodeEscape,encode_cons,encode_nil,List.map_cons,List.map_nil,
    hdigit _ (Nat.mod_lt _ (by decide : 16 > 0))]
  rfl

/-- The bytes of a character are escaped as the character is. -/
theorem escapeFrom_char (c : Char) (r : List ℕ) :
    escapeFrom 0 (encodeChar c ++ r) = encode (markup c) ++ escapeFrom 0 r := by
  unfold markup
  by_cases hc : isMarkup c = true
  · rw [if_pos hc,encode_unicodeEscape]
    simp only [isMarkup,isSeparator,Bool.or_eq_true,decide_eq_true_eq] at hc
    rcases hc with ((rfl | rfl) | rfl) | h | h
    · rfl
    · rfl
    · rfl
    · rw [encodeChar,h]
      rfl
    · rw [encodeChar,h]
      rfl
  · have hplain : c.toNat ≠ 0x3C ∧ c.toNat ≠ 0x3E ∧ c.toNat ≠ 0x26 ∧ c.toNat ≠ 0x2028 ∧ c.toNat ≠ 0x2029 := by
      simp only [isMarkup,isSeparator,Bool.or_eq_true,decide_eq_true_eq,not_or] at hc
      exact ⟨fun h => hc.1.1.1 (Char.toNat_inj.mp h),fun h => hc.1.1.2 (Char.toNat_inj.mp h),
        fun h => hc.1.2 (Char.toNat_inj.mp h),hc.2.1,hc.2.2⟩
    rw [if_neg hc,encode_cons,encode_nil,List.append_nil]
    unfold encodeChar
    generalize c.toNat = n at hplain
    by_cases hlead : 0x2000 ≤ n ∧ n < 0x3000
    · have hbytes : encodePoint n = [0xE2,0x80+n/0x40 % 0x40,0x80+n % 0x40] := by
        rw [encodePoint,if_neg (by omega),if_neg (by omega),if_pos (by omega)]
        congr 1
        omega
      rw [hbytes,List.cons_append,escapeFrom,if_neg (by decide),if_neg,escapeFrom_plain]
      · rfl
      · intro b hb
        simp only [List.mem_cons,List.not_mem_nil,or_false] at hb
        omega
      · simp only [List.cons_append,List.nil_append,List.take_succ_cons,List.take_zero,List.cons.injEq,
          Bool.and_eq_true,Bool.or_eq_true,decide_eq_true_eq,and_true]
        omega
    · refine escapeFrom_plain (fun b hb => ?_) r
      unfold encodePoint at hb
      split_ifs at hb <;> simp only [List.mem_cons,List.not_mem_nil,or_false] at hb <;> omega

theorem escapeFrom_encode (t : List Char) : escapeFrom 0 (encode t) = encode (t.flatMap markup) := by
  have happend : ∀ r, escapeFrom 0 (encode t ++ r) = encode (t.flatMap markup) ++ escapeFrom 0 r := by
    induction t with
    | nil => exact fun r => rfl
    | cons c t ih =>
      intro r
      rw [encode_cons,List.append_assoc,escapeFrom_char,ih,List.flatMap_cons,encode_append,List.append_assoc]
  simpa [escapeFrom] using happend []

end Markup

section Closed

theorem annotate_append (s : Scan) (a b : List ℕ) :
    annotate s (a ++ b) = annotate s a ++ annotate (a.foldl Scan.next s) b := by
  induction a generalizing s with
  | nil => rfl
  | cons x a ih => rw [List.cons_append,annotate,annotate,ih,List.foldl_cons,List.cons_append]

@[simp] theorem annotate_snd (s : Scan) (bs : List ℕ) : (annotate s bs).map Prod.snd = bs := by
  induction bs generalizing s with
  | nil => rfl
  | cons b bs ih => rw [annotate,List.map_cons,ih]

/-- Neither dropped nor taken for the end of an element. -/
def Passed (p : Scan × ℕ) : Prop := isBlank p = false ∧ divides p = false

theorem passed_quoted {s : Scan} (h : s.quoted = true) (b : ℕ) : Passed (s,b) := by
  simp [Passed,isBlank,divides,h]

/-- Bytes that leave open what was open, and of which none is dropped or ends an element. -/
structure Closed (depth : ℕ) (bs : List ℕ) : Prop where
  run : bs.foldl Scan.next (outside depth) = outside depth
  passed : ∀ p ∈ annotate (outside depth) bs, Passed p

theorem closed_nil (depth : ℕ) : Closed depth [] := ⟨rfl,nofun⟩

theorem Closed.append {depth : ℕ} {a b : List ℕ} (ha : Closed depth a) (hb : Closed depth b) :
    Closed depth (a ++ b) := by
  refine ⟨by rw [List.foldl_append,ha.run,hb.run],fun p hp => ?_⟩
  rw [annotate_append,ha.run] at hp
  rcases List.mem_append.mp hp with hp | hp
  · exact ha.passed p hp
  · exact hb.passed p hp

/-- A byte that opens and closes nothing and is no space. -/
def isInner (b : ℕ) : Bool :=
  !isSpace b && b ≠ 0x22 && b ≠ 0x5B && b ≠ 0x7B && b ≠ 0x5D && b ≠ 0x7D

theorem closed_inner {depth b : ℕ} (hb : isInner b = true) (hcomma : b ≠ 0x2C ∨ 0 < depth) : Closed depth [b] := by
  simp only [isInner,Bool.and_eq_true,Bool.not_eq_true',decide_eq_true_eq] at hb
  obtain ⟨⟨⟨⟨⟨hspace,h₁⟩,h₂⟩,h₃⟩,h₄⟩,h₅⟩ := hb
  refine ⟨?_,fun p hp => ?_⟩
  · simp [Scan.next,outside,h₁,h₂,h₃,h₄,h₅]
  · rw [List.mem_singleton.mp hp]
    refine ⟨by simp [isBlank,hspace],?_⟩
    rcases hcomma with h | h
    · simp [divides,h]
    · simp [divides,outside,h.ne']

theorem closed_inners {depth : ℕ} {bs : List ℕ} (hbs : ∀ b ∈ bs, isInner b = true ∧ b ≠ 0x2C) : Closed depth bs := by
  induction bs with
  | nil => exact closed_nil depth
  | cons b bs ih =>
    obtain ⟨hb,hcomma⟩ := hbs b (by simp)
    exact (closed_inner hb (.inl hcomma)).append (ih fun c hc => hbs c (by simp [hc]))

theorem closed_bracketed {depth a b : ℕ} {bs : List ℕ} (hfirst : a = 0x5B ∨ a = 0x7B)
    (hlast : b = 0x5D ∨ b = 0x7D) (h : Closed (depth+1) bs) : Closed depth (a :: bs ++ [b]) := by
  have hopen : (outside depth).next a = outside (depth+1) := by rcases hfirst with rfl | rfl <;> rfl
  have hclose : (outside (depth+1)).next b = outside depth := by rcases hlast with rfl | rfl <;> rfl
  refine ⟨?_,fun p hp => ?_⟩
  · rw [List.cons_append,List.foldl_cons,hopen,List.foldl_append,h.run,List.foldl_cons,hclose,List.foldl_nil]
  · rw [List.cons_append,annotate,hopen,annotate_append,h.run,List.mem_cons,List.mem_append] at hp
    rcases hp with rfl | hp | hp
    · rcases hfirst with rfl | rfl <;> exact ⟨rfl,by simp [divides]⟩
    · exact h.passed p hp
    · rw [List.mem_singleton.mp hp]
      rcases hlast with rfl | rfl <;> exact ⟨rfl,by simp [divides]⟩

theorem next_quoted {depth b : ℕ} (hq : b ≠ 0x22) (hb : b ≠ 0x5C) :
    (Scan.mk depth true false).next b = ⟨depth,true,false⟩ := by
  simp [Scan.next,hq,hb]

theorem run_quoted (depth : ℕ) {bs : List ℕ} (hbs : ∀ b ∈ bs, b ≠ 0x22 ∧ b ≠ 0x5C) :
    bs.foldl Scan.next ⟨depth,true,false⟩ = ⟨depth,true,false⟩ ∧
      ∀ p ∈ annotate ⟨depth,true,false⟩ bs, p.1.quoted = true := by
  induction bs with
  | nil => exact ⟨rfl,nofun⟩
  | cons b bs ih =>
    obtain ⟨hq,hb⟩ := hbs b (by simp)
    obtain ⟨hrun,hall⟩ := ih fun c hc => hbs c (by simp [hc])
    rw [List.foldl_cons,annotate,next_quoted hq hb]
    refine ⟨hrun,fun p hp => ?_⟩
    rcases List.mem_cons.mp hp with rfl | hp
    · rfl
    · exact hall p hp

/-- The bytes of a character other than a quote and a backslash. -/
theorem encodeChar_plain {c : Char} (hq : c ≠ '"') (hb : c ≠ '\\') : ∀ b ∈ encodeChar c, b ≠ 0x22 ∧ b ≠ 0x5C := by
  intro b hmem
  by_cases hc : c.toNat < 0x80
  · rw [coding_encodeChar.plain c hc,List.mem_singleton] at hmem
    subst hmem
    exact ⟨fun h => hq (Char.toNat_inj.mp h),fun h => hb (Char.toNat_inj.mp h)⟩
  · have := coding_encodeChar.high c (by omega) b hmem
    omega

theorem run_escaped (depth : ℕ) (c : Char) :
    (encodeChar c).foldl Scan.next ⟨depth,true,true⟩ = ⟨depth,true,false⟩ ∧
      ∀ p ∈ annotate ⟨depth,true,true⟩ (encodeChar c), p.1.quoted = true := by
  have hstep : ∀ b, (Scan.mk depth true true).next b = ⟨depth,true,false⟩ := fun b => rfl
  have hsplit : ∃ b bs, encodeChar c = b :: bs ∧ ∀ d ∈ bs, d ≠ 0x22 ∧ d ≠ 0x5C := by
    by_cases hc : c.toNat < 0x80
    · exact ⟨c.toNat,[],coding_encodeChar.plain c hc,nofun⟩
    · obtain ⟨b,bs,hbs⟩ := List.exists_cons_of_ne_nil (encodePoint_ne_nil c.toNat)
      refine ⟨b,bs,hbs,fun d hd => ?_⟩
      have := coding_encodeChar.high c (by omega) d (by rw [encodeChar,hbs]; exact List.mem_cons_of_mem b hd)
      omega
  obtain ⟨b,bs,hbs,hplain⟩ := hsplit
  obtain ⟨hrun,hall⟩ := run_quoted depth hplain
  rw [hbs,List.foldl_cons,annotate,hstep]
  refine ⟨hrun,fun p hp => ?_⟩
  rcases List.mem_cons.mp hp with rfl | hp
  · rfl
  · exact hall p hp

theorem run_safe (depth : ℕ) {t : List Char} (ht : Safe t) :
    (encode t).foldl Scan.next ⟨depth,true,false⟩ = ⟨depth,true,false⟩ ∧
      ∀ p ∈ annotate ⟨depth,true,false⟩ (encode t), p.1.quoted = true := by
  induction ht with
  | nil => exact ⟨rfl,nofun⟩
  | plain hq hb _ ih =>
    obtain ⟨hrun,hall⟩ := run_quoted depth (encodeChar_plain hq hb)
    rw [encode_cons,List.foldl_append,annotate_append,hrun]
    refine ⟨ih.1,fun p hp => ?_⟩
    rcases List.mem_append.mp hp with hp | hp
    · exact hall p hp
    · exact ih.2 p hp
  | @escape c t _ ih =>
    obtain ⟨hrun,hall⟩ := run_escaped depth c
    have hslash : encodeChar '\\' = [0x5C] := rfl
    have hstep : (Scan.mk depth true false).next 0x5C = ⟨depth,true,true⟩ := rfl
    rw [encode_cons,encode_cons,hslash,List.singleton_append,List.foldl_cons,annotate,hstep,List.foldl_append,
      annotate_append,hrun]
    refine ⟨ih.1,fun p hp => ?_⟩
    rcases List.mem_cons.mp hp with rfl | hp
    · rfl
    · rcases List.mem_append.mp hp with hp | hp
      · exact hall p hp
      · exact ih.2 p hp

theorem closed_quoted (depth : ℕ) {t : List Char} (ht : Safe t) : Closed depth (encode (quoted t)) := by
  obtain ⟨hrun,hall⟩ := run_safe depth ht
  have hquote : encodeChar '"' = [0x22] := rfl
  have hopen : (outside depth).next 0x22 = ⟨depth,true,false⟩ := rfl
  have hclose : (Scan.mk depth true false).next 0x22 = outside depth := rfl
  have hbytes : encode (quoted t) = 0x22 :: encode t ++ [0x22] := by
    rw [quoted,List.cons_append,encode_cons,encode_append,hquote,encode_cons,hquote]
    rfl
  rw [hbytes]
  refine ⟨?_,fun p hp => ?_⟩
  · rw [List.cons_append,List.foldl_cons,hopen,List.foldl_append,hrun,List.foldl_cons,hclose,List.foldl_nil]
  · rw [List.cons_append,annotate,hopen,annotate_append,hrun,List.mem_cons,List.mem_append] at hp
    rcases hp with rfl | hp | hp
    · exact ⟨rfl,by simp [divides]⟩
    · exact passed_quoted (hall p hp) p.2
    · rw [List.mem_singleton.mp hp]
      exact passed_quoted rfl _

end Closed

section Print

variable {σ ν : Type} {p : Printer σ ν}

theorem encode_ascii {t : List Char} (ht : ∀ c ∈ t, c.toNat < 0x80) : encode t = t.map Char.toNat := by
  induction t with
  | nil => rfl
  | cons c t ih =>
    rw [encode_cons,coding_encodeChar.plain c (ht c (by simp)),ih fun d hd => ht d (by simp [hd])]
    rfl

theorem isNumberChar_toNat {c : Char} (h : isNumberChar c = true) :
    c.toNat < 0x80 ∧ isInner c.toNat = true ∧ c.toNat ≠ 0x2C := by
  have hword := isWordCode_of_isNumberChar h
  refine ⟨lt_of_isWordCode hword,?_⟩
  simp only [isWordCode,isDigit,isLetter,Bool.or_eq_true,Bool.and_eq_true,decide_eq_true_eq] at hword
  simp only [isInner,isSpace,Bool.and_eq_true,Bool.not_eq_true',Bool.or_eq_false_iff,decide_eq_false_iff_not,
    decide_eq_true_eq]
  omega

theorem closed_number {t : List Char} (ht : NumberText t) (depth : ℕ) : Closed depth (encode t) := by
  rw [encode_ascii fun c hc => (isNumberChar_toNat (ht.all c hc)).1]
  refine closed_inners fun b hb => ?_
  obtain ⟨c,hc,rfl⟩ := List.mem_map.mp hb
  exact (isNumberChar_toNat (ht.all c hc)).2

theorem closed_comma (depth : ℕ) : Closed (depth+1) (encode [',']) := closed_inner rfl (.inr (Nat.succ_pos depth))

theorem closed_intercalate {depth : ℕ} {ts : List (List Char)} (h : ∀ t ∈ ts, Closed (depth+1) (encode t)) :
    Closed (depth+1) (encode ([','].intercalate ts)) := by
  cases ts with
  | nil => exact closed_nil _
  | cons t ts =>
    rw [intercalate_eq,encode_append]
    refine (h t (by simp)).append ?_
    have hrest : ∀ u ∈ ts, Closed (depth+1) (encode u) := fun u hu => h u (by simp [hu])
    clear h
    induction ts with
    | nil => exact closed_nil _
    | cons u ts ih =>
      rw [List.flatMap_cons,encode_append,← List.singleton_append,encode_append]
      exact ((closed_comma depth).append (hrest u (by simp))).append (ih fun w hw => hrest w (by simp [hw]))

theorem closed_print (v : Json σ ν) (depth : ℕ) : Closed depth (encode (print p v)) := by
  induction v using induction generalizing depth with
  | null => exact closed_inners (by simp only [print]; decide)
  | bool b => cases b <;> exact closed_inners (by simp only [print]; decide)
  | num x => exact closed_number (p.number_text x) depth
  | str s => exact closed_quoted depth (p.string_safe s)
  | arr vs ih =>
    rw [print,printList_eq,encode_append,encode_cons]
    refine closed_bracketed (a := 0x5B) (.inl rfl) (.inl rfl) (closed_intercalate fun t ht => ?_)
    obtain ⟨v,hv,rfl⟩ := List.mem_map.mp ht
    exact ih v hv _
  | obj ms ih =>
    rw [print,printMembers_eq,encode_append,encode_cons]
    refine closed_bracketed (a := 0x7B) (.inr rfl) (.inr rfl) (closed_intercalate fun t ht => ?_)
    obtain ⟨m,hm,rfl⟩ := List.mem_map.mp ht
    rw [encode_append,encode_cons]
    have hcolon : Closed (depth+1) (encodeChar ':') := closed_inner rfl (.inl (by decide))
    exact (closed_quoted _ (p.string_safe m.1)).append (hcolon.append (ih m hm _))

theorem dropSpaces_closed {bs : List ℕ} (h : Closed 0 bs) : dropSpaces bs = bs := by
  have hall : (annotate (outside 0) bs).filter (fun p => !isBlank p) = annotate (outside 0) bs :=
    List.filter_eq_self.mpr fun p hp => by simp [(h.passed p hp).1]
  rw [dropSpaces,hall,annotate_snd]

theorem compact_print (v : Json σ ν) : compact (encode (print p v)) = encode ((print p v).flatMap markup) := by
  rw [compact,dropSpaces_closed (closed_print v 0),escapeFrom_encode]

theorem pieces_intercalate {ts : List (List Char)} (hne : ts ≠ []) (h : ∀ t ∈ ts, Closed 0 (encode t)) :
    pieces (encode ([','].intercalate ts)) = ts.map encode := by
  obtain ⟨t,ts,rfl⟩ := List.exists_cons_of_ne_nil hne
  induction ts generalizing t with
  | nil =>
    have hnone : ∀ p ∈ annotate (outside 0) (encode t), divides p = false := fun p hp => ((h t (by simp)).passed p hp).2
    rw [List.intercalate_singleton,pieces,List.splitOnP_eq_singleton hnone]
    simp
  | cons u ts ih =>
    have ht := h t (by simp)
    have hrest := ih u (by simp) fun w hw => h w (by simp [hw])
    have hcomma : (outside 0).next 0x2C = outside 0 := rfl
    have hbytes : encode ([','].intercalate (t :: u :: ts)) =
        encode t ++ 0x2C :: encode ([','].intercalate (u :: ts)) := by
      rw [List.intercalate_cons_cons,encode_append,encode_append,List.append_assoc]
      rfl
    rw [hbytes,pieces,annotate_append,ht.run,annotate,hcomma,
      List.splitOnP_append_cons_of_forall_mem (fun p hp => (ht.passed p hp).2) _ rfl,List.map_cons,annotate_snd]
    exact congrArg (encode t :: ·) hrest

theorem trim_eq_self {bs : List ℕ} (hfirst : ∀ b r, bs = b :: r → isSpace b = false)
    (hlast : ∀ r b, bs = r ++ [b] → isSpace b = false) : trim bs = bs := by
  have hstart : ∀ cs : List ℕ, (∀ b r, cs = b :: r → isSpace b = false) → cs.dropWhile isSpace = cs := by
    intro cs hcs
    cases cs with
    | nil => rfl
    | cons b r => rw [List.dropWhile_cons_of_neg (by simp [hcs b r rfl])]
  rw [trim,hstart bs hfirst,hstart bs.reverse fun b r hbr => hlast r.reverse b ?_,List.reverse_reverse]
  rw [← List.reverse_reverse bs,hbr,List.reverse_cons]

/-- A text ends with a character that is no space. -/
def Ends (t : List Char) : Prop := ∃ (r : List Char) (c : Char), t = r ++ [c] ∧ c.toNat < 0x80 ∧
  isSpace c.toNat = false

theorem ends_print (v : Json σ ν) : Ends (print p v) := by
  cases v with
  | null => exact ⟨['n','u','l'],'l',by simp [print],by decide,by decide⟩
  | bool b =>
    cases b
    · exact ⟨['f','a','l','s'],'e',by simp [print],by decide,by decide⟩
    · exact ⟨['t','r','u'],'e',by simp [print],by decide,by decide⟩
  | num x =>
    obtain ⟨c,t,ht,-⟩ := (p.number_text x).start
    have hne : p.number x ≠ [] := by simp [ht]
    obtain ⟨hlow,hinner,-⟩ := isNumberChar_toNat ((p.number_text x).all _ (List.getLast_mem hne))
    refine ⟨_,_,by rw [print]; exact (List.dropLast_append_getLast hne).symm,hlow,?_⟩
    simp only [isInner,Bool.and_eq_true,Bool.not_eq_true'] at hinner
    exact hinner.1.1.1.1.1
  | str s => exact ⟨_,'"',by rw [print,quoted],by decide,by decide⟩
  | arr vs => exact ⟨_,']',by rw [print],by decide,by decide⟩
  | obj ms => exact ⟨_,Char.ofNat 0x7D,by rw [print],by decide,by decide⟩

theorem trim_print (v : Json σ ν) : trim (encode (print p v)) = encode (print p v) := by
  have hclosed := closed_print (p := p) v 0
  obtain ⟨t,c,ht,hc,hspace⟩ := ends_print (p := p) v
  refine trim_eq_self (fun b r hbr => ?_) fun r b hbr => ?_
  · have hpassed := (hclosed.passed (outside 0,b) (by rw [hbr]; exact List.mem_cons_self)).1
    simpa [isBlank,outside] using hpassed
  · rw [ht,encode_append,encode_cons,coding_encodeChar.plain c hc,encode_nil,List.append_nil] at hbr
    obtain ⟨-,hlast⟩ := List.append_inj' hbr rfl
    cases hlast
    exact hspace

theorem flatMap_number {t : List Char} (ht : NumberText t) : t.flatMap markup = t := by
  have hplain : ∀ c, isNumberChar c = true → markup c = [c] := by
    intro c hc
    have hne : isMarkup c = false := by
      have hlow := (isNumberChar_toNat hc).1
      simp only [isMarkup,isSeparator,Bool.or_eq_false_iff,decide_eq_false_iff_not]
      refine ⟨⟨⟨?_,?_⟩,?_⟩,by omega,by omega⟩ <;> (rintro rfl; cases hc)
    rw [markup,hne]
    rfl
  have hall := ht.all
  clear ht
  induction t with
  | nil => rfl
  | cons c t ih =>
    rw [List.flatMap_cons,hplain c (hall c (by simp)),ih fun d hd => hall d (by simp [hd])]
    rfl

/-- An escaped text is the text of a printer that escapes its strings. -/
theorem print_markup {τ μ : Type} {q : Printer τ μ} {f : σ → τ} {g : ν → μ}
    (hs : ∀ s, (p.string s).flatMap markup = q.string (f s)) (hn : ∀ x, p.number x = q.number (g x)) (v : Json σ ν) :
    (print p v).flatMap markup = print q (map f g v) := by
  have hquoted : ∀ s, (quoted (p.string s)).flatMap markup = quoted (q.string (f s)) := by
    intro s
    rw [quoted,quoted,← hs,List.flatMap_append]
    rfl
  have hcons : ∀ {c : Char} (t : List Char), isMarkup c = false → (c :: t).flatMap markup = c :: t.flatMap markup := by
    intro c t hc
    rw [List.flatMap_cons,markup,hc]
    rfl
  have hjoined : ∀ ts : List (List Char),
      ([','].intercalate ts).flatMap markup = [','].intercalate (ts.map (·.flatMap markup)) := by
    intro ts
    cases ts with
    | nil => rfl
    | cons t ts =>
      rw [List.map_cons,intercalate_eq,intercalate_eq,List.flatMap_append,List.flatMap_assoc,List.flatMap_map]
      rfl
  induction v using induction with
  | null => rfl
  | bool b => cases b <;> rfl
  | num x =>
    rw [print,map,print,flatMap_number (p.number_text x)]
    exact hn x
  | str s => exact hquoted s
  | arr vs ih =>
    have hlist : (vs.map (print p)).map (·.flatMap markup) = (vs.map (map f g)).map (print q) := by
      rw [List.map_map,List.map_map]
      exact List.map_congr_left ih
    rw [print,map,print,printList_eq,printList_eq,mapList_eq,List.flatMap_append,hcons _ (by decide),hjoined,hlist]
    rfl
  | obj ms ih =>
    have hmembers : (ms.map fun m => quoted (p.string m.1) ++ ':' :: print p m.2).map (·.flatMap markup) =
        (ms.map fun m => (f m.1,map f g m.2)).map fun m => quoted (q.string m.1) ++ ':' :: print q m.2 := by
      rw [List.map_map,List.map_map]
      refine List.map_congr_left fun m hm => ?_
      simp only [Function.comp_apply]
      rw [List.flatMap_append,hquoted,hcons _ (by decide),ih m hm]
    rw [print,map,print,printMembers_eq,printMembers_eq,mapMembers_eq,List.flatMap_append,hcons _ (by decide),hjoined,
      hmembers]
    rfl

theorem depth_map {τ μ : Type} (f : σ → τ) (g : ν → μ) (v : Json σ ν) : depth (map f g v) = depth v := by
  induction v using induction with
  | null => rfl
  | bool b => rfl
  | num x => rfl
  | str s => rfl
  | arr vs ih =>
    rw [map,depth,depth]
    congr 1
    induction vs with
    | nil => rfl
    | cons v vs ihvs => rw [mapList,depthList,depthList,ih v (by simp),ihvs fun u hu => ih u (by simp [hu])]
  | obj ms ih =>
    rw [map,depth,depth]
    congr 1
    induction ms with
    | nil => rfl
    | cons m ms ihms =>
      obtain ⟨k,v⟩ := m
      rw [mapMembers,depthMembers,depthMembers,ih (k,v) (by simp),ihms fun u hu => ih u (by simp [hu])]

/-- The raw elements of a printed array are its printed elements, unless it is nested too deep. -/
theorem rawElements_print (rd : Reading p encodeChar) (vs : List (Json σ ν)) :
    rawElements (encode (print p (.arr vs))) =
      if 10000 < depth (.arr vs) then none else some (vs.map fun v => encode (print p v)) := by
  have hparse : parse (encode (print p (.arr vs))) = some (.arr (mapList rd.items rd.literal vs)) :=
    rd.parse_print (.arr vs)
  have hdepth : depth (.arr (mapList rd.items rd.literal vs)) = depth (.arr vs) :=
    depth_map rd.items rd.literal (.arr vs)
  have hbytes : encode (print p (.arr vs)) = 0x5B :: (encode ([','].intercalate (vs.map (print p))) ++ [0x5D]) := by
    rw [print,printList_eq,encode_append,encode_cons]
    rfl
  unfold rawElements
  simp only [hparse,hdepth,trim_print]
  split_ifs with hdeep hempty
  · rfl
  · have hvs : vs = [] := by simpa [mapList_eq] using hempty
    rw [hvs,List.map_nil]
  · have hvs : vs ≠ [] := by simpa [mapList_eq] using hempty
    have hclosed : ∀ t ∈ vs.map (print p), Closed 0 (encode t) := by
      intro t ht
      obtain ⟨v,-,rfl⟩ := List.mem_map.mp ht
      exact closed_print v 0
    rw [hbytes,List.drop_one,List.tail_cons,List.dropLast_concat,pieces_intercalate (by simpa using hvs) hclosed,
      List.map_map,List.map_map]
    simp only [Function.comp_def,trim_print]

end Print

end RawMessages
end Clearvoiance
