import Clearvoiance.DecimalText

/-! The printed text of a number is read as a literal of the same value. -/
namespace Clearvoiance
namespace Binary64

open Json

/-- The parts of a number's text without its sign. -/
structure Parts where
  int : List Char
  frac : List Char
  exp : Option ℤ

namespace Parts

def tail (s : Parts) : List Char :=
  (if s.frac = [] then [] else '.' :: s.frac) ++
    match s.exp with
    | none => []
    | some e => 'e' :: exponentText e

def text (s : Parts) : List Char := s.int ++ s.tail

def literal (s : Parts) (neg : Bool) : Literal :=
  ⟨neg,Nat.ofDigitChars 10 (s.int ++ s.frac) 0,s.exp.getD 0-s.frac.length⟩

structure Valid (s : Parts) : Prop where
  digits : ∀ c ∈ s.int ++ s.frac, c.isDigit = true
  ne_nil : s.int ≠ []
  lead : s.int.head? = some '0' → s.int.length = 1

end Parts

theorem isDigit_toNat (c : Char) : isDigit c.toNat = c.isDigit := by
  simp only [isDigit,Char.isDigit,ge_iff_le,UInt32.le_iff_toNat_le]
  rfl

theorem decimal_map (cs : List Char) : decimal (cs.map Char.toNat) = Nat.ofDigitChars 10 cs 0 := by
  rw [decimal,List.foldl_map,Nat.ofDigitChars]
  rfl

theorem takeWhile_digits {cs : List Char} (hcs : ∀ c ∈ cs, c.isDigit = true) {r : List ℕ}
    (hr : ∀ n t, r = n :: t → isDigit n = false) :
    (cs.map Char.toNat ++ r).takeWhile isDigit = cs.map Char.toNat ∧
      (cs.map Char.toNat ++ r).dropWhile isDigit = r := by
  have hall : ∀ n ∈ cs.map Char.toNat, isDigit n = true := by
    intro n hn
    obtain ⟨c,hc,rfl⟩ := List.mem_map.mp hn
    rw [isDigit_toNat,hcs c hc]
  rw [List.takeWhile_append_of_pos hall,List.dropWhile_append_of_pos hall]
  cases r with
  | nil => simp
  | cons n r => simp [hr n r rfl]

theorem exponentDigits_toDigits (neg : Bool) (n : ℕ) :
    exponentDigits neg ((Nat.toDigits 10 n).map Char.toNat) = some (if neg then -(n : ℤ) else n) := by
  have hall : ((Nat.toDigits 10 n).map Char.toNat).all isDigit = true := by
    rw [List.all_eq_true]
    intro m hm
    obtain ⟨c,hc,rfl⟩ := List.mem_map.mp hm
    rw [isDigit_toNat,(isNumberChar_of_mem_toDigits hc).2]
  have hne : (Nat.toDigits 10 n).map Char.toNat ≠ [] := by simp
  rw [exponentDigits,if_neg (by simp [hne,hall]),decimal_map,Nat.ofDigitChars_ten_toDigits]

theorem exponent_text (e : Option ℤ) :
    exponent ((match e with | none => [] | some e => 'e' :: exponentText e).map Char.toNat) = some (e.getD 0) := by
  cases e with
  | none => rfl
  | some e =>
    simp only [exponentText,List.map_cons,Option.getD_some]
    split_ifs with he
    · change exponentDigits true ((Nat.toDigits 10 e.natAbs).map Char.toNat) = some e
      rw [exponentDigits_toDigits,if_pos rfl]
      congr 1
      omega
    · change exponentDigits false ((Nat.toDigits 10 e.natAbs).map Char.toNat) = some e
      rw [exponentDigits_toDigits,if_neg (by simp)]
      congr 1
      omega

/-- The text behind the integer digits does not go on with a digit. -/
theorem Parts.tail_start (s : Parts) : ∀ n t, s.tail.map Char.toNat = n :: t → isDigit n = false := by
  intro n t h
  unfold Parts.tail at h
  split_ifs at h
  · cases he : s.exp with
    | none => simp [he] at h
    | some e =>
      simp only [he,List.nil_append,List.map_cons,List.cons.injEq] at h
      rw [← h.1]
      rfl
  · simp only [List.cons_append,List.map_cons,List.cons.injEq] at h
    rw [← h.1]
    rfl

theorem fraction_tail {s : Parts} (hs : s.Valid) :
    fraction (s.tail.map Char.toNat) = some (s.frac.map Char.toNat,
      (match s.exp with | none => [] | some e => 'e' :: exponentText e).map Char.toNat) := by
  unfold Parts.tail
  split_ifs with hfrac
  · rw [hfrac,List.nil_append]
    cases s.exp <;> rfl
  · have hdigits : ∀ c ∈ s.frac, c.isDigit = true := fun c hc => hs.digits c (by simp [hc])
    have hrest : ∀ n t, (match s.exp with | none => [] | some e => 'e' :: exponentText e).map Char.toNat = n :: t →
        isDigit n = false := by
      intro n t h
      cases he : s.exp with
      | none => simp [he] at h
      | some e =>
        simp only [he,List.map_cons,List.cons.injEq] at h
        rw [← h.1]
        rfl
    obtain ⟨htake,hdrop⟩ := takeWhile_digits hdigits hrest
    rw [List.cons_append,List.map_cons,List.map_append]
    change fraction (0x2E :: _) = _
    rw [fraction,htake,hdrop,if_neg (by simpa using hfrac)]

theorem number_parts {s : Parts} (hs : s.Valid) (neg : Bool) :
    number ((signed neg s.text).map Char.toNat) = some (s.literal neg) := by
  have hint : ∀ c ∈ s.int, c.isDigit = true := fun c hc => hs.digits c (by simp [hc])
  obtain ⟨htake,hdrop⟩ := takeWhile_digits hint s.tail_start
  obtain ⟨c,cs,hcons⟩ := List.exists_cons_of_ne_nil hs.ne_nil
  have hhead : (s.text.map Char.toNat).head? ≠ some 0x2D := by
    have hc := hint c (by rw [hcons]; exact List.mem_cons_self)
    rw [Parts.text,hcons]
    simp only [List.cons_append,List.map_cons,List.head?_cons,ne_eq,Option.some.injEq]
    intro h
    rw [← isDigit_toNat,h] at hc
    cases hc
  have hsplit : (signed neg s.text).map Char.toNat = (if neg then [0x2D] else []) ++ s.text.map Char.toNat := by
    cases neg <;> rfl
  have hneg : ((signed neg s.text).map Char.toNat).head? = some 0x2D ↔ neg = true := by
    cases neg with
    | true => simp [signed]
    | false => simpa [signed] using hhead
  have hbody : (if ((signed neg s.text).map Char.toNat).head? = some 0x2D
      then ((signed neg s.text).map Char.toNat).drop 1 else (signed neg s.text).map Char.toNat) =
      s.int.map Char.toNat ++ s.tail.map Char.toNat := by
    rw [hsplit,Parts.text,List.map_append]
    cases neg with
    | true => simp
    | false =>
      have hh : (s.int.map Char.toNat ++ s.tail.map Char.toNat).head? ≠ some 0x2D := by
        rw [← List.map_append]
        exact hhead
      simp only [Bool.false_eq_true,if_false,List.nil_append]
      rw [if_neg hh]
  have hlead : ((s.int.map Char.toNat = [] : Bool) || ((s.int.map Char.toNat).head? = some 0x30 &&
      ((s.int.map Char.toNat).length ≠ 1 : Bool))) = false := by
    rw [Bool.or_eq_false_iff,decide_eq_false_iff_not]
    refine ⟨by simpa using hs.ne_nil,?_⟩
    rw [Bool.and_eq_false_iff]
    by_cases hzero : s.int.head? = some '0'
    · exact .inr (by simpa using hs.lead hzero)
    · left
      rw [hcons] at hzero ⊢
      simp only [List.map_cons,List.head?_cons,Option.some.injEq,decide_eq_false_iff_not] at hzero ⊢
      intro h
      exact hzero (Char.toNat_inj.mp h)
  unfold number
  simp only [hbody,htake,hdrop]
  rw [if_neg (by rw [hlead]; simp)]
  simp only [fraction_tail hs,exponent_text,Option.bind_eq_bind,Option.bind_some,← List.map_append,decimal_map,hneg,
    List.length_map,Option.pure_def,Parts.literal,Bool.decide_eq_true]

theorem ne_word {w : List ℕ} (h : (number w).isSome) :
    w ≠ [0x6E,0x75,0x6C,0x6C] ∧ w ≠ [0x74,0x72,0x75,0x65] ∧ w ≠ [0x66,0x61,0x6C,0x73,0x65] := by
  refine ⟨?_,?_,?_⟩ <;> (rintro rfl; revert h; decide)

theorem classify_number {w : List ℕ} {l : Literal} (h : number w = some l) : classify w = some (.num l) := by
  obtain ⟨hnull,htrue,hfalse⟩ := ne_word (by rw [h]; rfl)
  rw [classify,if_neg hnull,if_neg htrue,if_neg hfalse,h]
  rfl

def absValue (l : Literal) : ℚ := l.coeff*(10 : ℚ)^l.exp10

theorem Parts.textValue_text {s : Parts} (hs : s.Valid) (neg : Bool) : textValue s.text = absValue (s.literal neg) := by
  have hint : ∀ c ∈ s.int, c.isDigit = true := fun c hc => hs.digits c (by simp [hc])
  have hfrac : ∀ c ∈ s.frac, c.isDigit = true := fun c hc => hs.digits c (by simp [hc])
  unfold Parts.text Parts.tail absValue Parts.literal
  cases he : s.exp with
  | none =>
    split_ifs with hnil
    · simp only [List.append_nil,hnil]
      rw [textValue_plain (not_mem_digits hint (by decide)),pointed_digits hint]
      simp
    · simp only [List.append_nil]
      rw [textValue_plain (not_mem_point hint hfrac),pointed_point hint]
      simp
  | some e =>
    split_ifs with hnil
    · simp only [List.nil_append,hnil,List.append_nil]
      rw [textValue_exponent (not_mem_digits hint (by decide)),pointed_digits hint]
      simp
    · simp only
      rw [← List.append_assoc,textValue_exponent (not_mem_point hint hfrac),pointed_point hint,mul_assoc,
        ← zpow_add₀ (by norm_num)]
      congr 2
      simp only [Option.getD_some]
      omega

def layoutParts (ds : List Char) (point : ℤ) : Parts :=
  let k : ℤ := ds.length
  if k ≤ point ∧ point ≤ 21 then ⟨ds ++ List.replicate (point-k).toNat '0',[],none⟩
  else if 0 < point ∧ point ≤ 21 then ⟨ds.take point.toNat,ds.drop point.toNat,none⟩
  else if -6 < point ∧ point ≤ 0 then ⟨['0'],List.replicate (-point).toNat '0' ++ ds,none⟩
  else ⟨ds.take 1,ds.drop 1,some (point-1)⟩

theorem Parts.text_integer (ds : List Char) (e : Option ℤ) :
    Parts.text ⟨ds,[],e⟩ = ds ++ (match e with | none => [] | some e => 'e' :: exponentText e) := by
  simp [Parts.text,Parts.tail]

theorem Parts.text_fraction (ds : List Char) {fs : List Char} (hfs : fs ≠ []) (e : Option ℤ) :
    Parts.text ⟨ds,fs,e⟩ = ds ++ '.' :: fs ++ (match e with | none => [] | some e => 'e' :: exponentText e) := by
  simp [Parts.text,Parts.tail,hfs]

theorem layoutParts_text {ds : List Char} (hne : ds ≠ []) (point : ℤ) :
    (layoutParts ds point).text = layout ds point := by
  have hpos : 0 < ds.length := List.length_pos_iff.mpr hne
  unfold layoutParts layout
  simp only
  by_cases h₁ : (ds.length : ℤ) ≤ point ∧ point ≤ 21
  · rw [if_pos h₁,if_pos h₁,Parts.text_integer]
    simp
  rw [if_neg h₁,if_neg h₁]
  by_cases h₂ : 0 < point ∧ point ≤ 21
  · have hdrop : ds.drop point.toNat ≠ [] := by
      rw [ne_eq,List.drop_eq_nil_iff]
      omega
    rw [if_pos h₂,if_pos h₂,Parts.text_fraction _ hdrop]
    simp
  rw [if_neg h₂,if_neg h₂]
  by_cases h₃ : -6 < point ∧ point ≤ 0
  · rw [if_pos h₃,if_pos h₃,Parts.text_fraction _ (by simp [hne])]
    simp
  rw [if_neg h₃,if_neg h₃]
  by_cases h₄ : ds.length = 1
  · rw [if_pos h₄,List.drop_eq_nil_iff.mpr h₄.le,Parts.text_integer]
    simp
  · have hdrop : ds.drop 1 ≠ [] := by
      rw [ne_eq,List.drop_eq_nil_iff]
      omega
    rw [if_neg h₄,Parts.text_fraction _ hdrop]

theorem layoutParts_digits {ds : List Char} (hds : ∀ c ∈ ds, c.isDigit = true) (point : ℤ) :
    ∀ c ∈ (layoutParts ds point).int ++ (layoutParts ds point).frac, c.isDigit = true := by
  have hzeros : ∀ n, ∀ c ∈ List.replicate n '0', c.isDigit = true := by
    intro n c hc
    rw [List.eq_of_mem_replicate hc]
    rfl
  unfold layoutParts
  simp only
  split_ifs
  · intro c hc
    simp only [List.append_nil] at hc
    rcases List.mem_append.mp hc with hc | hc
    · exact hds c hc
    · exact hzeros _ c hc
  · rw [List.take_append_drop]
    exact hds
  · intro c hc
    rcases List.mem_append.mp hc with hc | hc
    · rw [List.mem_singleton.mp hc]
      rfl
    · rcases List.mem_append.mp hc with hc | hc
      · exact hzeros _ c hc
      · exact hds c hc
  · rw [List.take_append_drop]
    exact hds

theorem layoutParts_valid {ds : List Char} (hne : ds ≠ []) (hds : ∀ c ∈ ds, c.isDigit = true)
    (hlead : ds.head? ≠ some '0') (point : ℤ) : (layoutParts ds point).Valid := by
  obtain ⟨d,t,rfl⟩ := List.exists_cons_of_ne_nil hne
  have hd : d ≠ '0' := by
    rintro rfl
    exact hlead rfl
  refine ⟨layoutParts_digits hds point,?_,?_⟩
  · unfold layoutParts
    simp only
    split_ifs with h₁ h₂
    · simp
    · simp
      omega
    · simp
    · simp
  · unfold layoutParts
    simp only
    split_ifs with h₁ h₂
    · intro h
      exact absurd (Option.some.inj h) hd
    · obtain ⟨n,hn⟩ : ∃ n, point.toNat = n+1 := ⟨point.toNat-1,by omega⟩
      rw [hn]
      intro h
      exact absurd (Option.some.inj h) hd
    · exact fun _ => rfl
    · exact fun _ => rfl

theorem head_toDigits {n : ℕ} (hn : 0 < n) : (Nat.toDigits 10 n).head? ≠ some '0' := by
  have hdigit : ∀ d < 10, 0 < d → Nat.digitChar d ≠ '0' := by decide
  induction n using Nat.strong_induction_on with
  | _ n ih =>
    rw [Nat.toDigits_eq_if (by decide)]
    split_ifs with hlt
    · simpa using hdigit n hlt hn
    · rw [List.head?_append_of_ne_nil _ Nat.toDigits_ne_nil]
      exact ih (n/10) (by omega) (by omega)

def textLiteral (neg : Bool) (x : Binary64) : Literal :=
  if x.mant = 0 then ⟨neg,0,0⟩
  else (layoutParts (Nat.toDigits 10 (shortest x).1) (shortest x).2).literal neg

theorem shortest_pos {x : Binary64} (hm : x.mant ≠ 0) : 0 < (shortest x).1 := by
  unfold shortest
  cases hfind : (List.range 17).findSome? fun i => ofDigits x (i+1) with
  | some r =>
    obtain ⟨i,-,hi⟩ := List.exists_of_findSome?_eq_some hfind
    exact (reads_ofDigits hm (Nat.succ_pos i) hi).1
  | none =>
    have hpos := Nat.pos_of_ne_zero hm
    simp only
    split_ifs <;> positivity

theorem digits_valid {x : Binary64} (hm : x.mant ≠ 0) :
    (layoutParts (Nat.toDigits 10 (shortest x).1) (shortest x).2).Valid :=
  layoutParts_valid Nat.toDigits_ne_nil (fun _ hc => (isNumberChar_of_mem_toDigits hc).2)
    (head_toDigits (shortest_pos hm)) _

theorem classify_magnitude (x : Binary64) (neg : Bool) :
    classify ((signed neg x.magnitude).map Char.toNat) = some (.num (textLiteral neg x)) := by
  apply classify_number
  unfold textLiteral magnitude
  split_ifs with hm
  · exact number_parts (s := ⟨['0'],[],none⟩) ⟨by simp,by simp,fun _ => rfl⟩ neg
  · rw [← layoutParts_text Nat.toDigits_ne_nil]
    exact number_parts (digits_valid hm) neg

theorem absValue_textLiteral (neg : Bool) (x : Binary64) : absValue (textLiteral neg x) = textValue x.magnitude := by
  unfold textLiteral
  split_ifs with hm
  · have hdigit : ∀ c ∈ ['0'], c.isDigit = true := by simp
    rw [magnitude,if_pos hm,textValue_plain (not_mem_digits hdigit (by decide)),pointed_digits hdigit,absValue]
    norm_num [Nat.ofDigitChars]
  · rw [magnitude,if_neg hm,← layoutParts_text Nat.toDigits_ne_nil,Parts.textValue_text (digits_valid hm) neg]

theorem textLiteral_neg (neg : Bool) (x : Binary64) : (textLiteral neg x).neg = neg := by
  unfold textLiteral
  split_ifs <;> rfl

theorem ofLiteral_textLiteral {x : Binary64} (hx : Canonical x) : ofLiteral (textLiteral x.neg x) = some x := by
  have habs := absValue_textLiteral x.neg x
  have hneg := textLiteral_neg x.neg x
  by_cases hm : x.mant = 0
  · have hexp : x.exp = -1074 := by
      rcases hx.full with h | h
      · exact h
      · omega
    rw [textLiteral,if_pos hm]
    simp only [ofLiteral,if_true,Option.some.injEq]
    rw [← hexp]
    conv_rhs => rw [show x = ⟨x.neg,x.mant,x.exp⟩ from rfl,hm]
  · rw [textValue_magnitude hm] at habs
    have hread := reads_shortest hx hm
    have hcoeff : (textLiteral x.neg x).coeff ≠ 0 := by
      intro h
      rw [absValue,h] at habs
      have := decimalValue_pos hread.1
      rw [← habs] at this
      simp at this
    generalize textLiteral x.neg x = l at habs hneg hcoeff
    obtain ⟨neg,c,e⟩ := l
    rw [ofLiteral_eq hcoeff]
    have hvalue : (c : ℚ)*(10 : ℚ)^e = decimalValue (shortest x) := habs
    rw [hvalue,hread.2]
    simp only at hneg
    rw [hneg]
    rfl

def exactNumber (l : Literal) : ℚ := (if l.neg then -1 else 1)*absValue l

/-- The value of the text that a number is written as. -/
def printedValue (x : Binary64) : ℚ := (if x.neg then -1 else 1)*textValue x.magnitude

def Written (q : ℚ) : Prop := ∃ x : Binary64, Canonical x ∧ printedValue x = q

theorem exactNumber_textLiteral (x : Binary64) : exactNumber (textLiteral x.neg x) = printedValue x := by
  rw [exactNumber,absValue_textLiteral,textLiteral_neg,printedValue]

theorem absValue_nonneg (l : Literal) : 0 ≤ absValue l := by
  unfold absValue
  positivity

theorem textValue_zero {x : Binary64} (hm : x.mant = 0) : textValue x.magnitude = 0 := by
  rw [← absValue_textLiteral false,textLiteral,if_pos hm,absValue]
  simp

theorem signed_abs (neg : Bool) {q : ℚ} (hq : 0 ≤ q) : |(if neg then -1 else 1)*q| = q := by
  cases neg <;> simp [abs_of_nonneg hq]

/-- A value that is written by some number is written by the number it is read as. -/
theorem printed_of_written {l : Literal} {x : Binary64} (hx : ofLiteral l = some x) (hl : Written (exactNumber l)) :
    exactNumber l = printedValue x := by
  obtain ⟨neg,c,e⟩ := l
  by_cases hc : c = 0
  · subst hc
    simp only [ofLiteral,if_true,Option.some.injEq] at hx
    rw [← hx,exactNumber,printedValue,textValue_zero rfl]
    simp [absValue]
  · obtain ⟨y,hy,hvalue⟩ := hl
    have htext : textValue y.magnitude = absValue ⟨neg,c,e⟩ := by
      have hnonneg : 0 ≤ textValue y.magnitude := by
        rw [← absValue_textLiteral false]
        exact absValue_nonneg _
      rw [← signed_abs y.neg hnonneg,← signed_abs neg (absValue_nonneg ⟨neg,c,e⟩)]
      exact congrArg _ hvalue
    have hpos : 0 < absValue ⟨neg,c,e⟩ := by
      have : (0 : ℚ) < c := by exact_mod_cast Nat.pos_of_ne_zero hc
      unfold absValue
      positivity
    have hm : y.mant ≠ 0 := by
      intro h
      rw [← htext,textValue_zero h] at hpos
      exact lt_irrefl _ hpos
    have hread := (reads_shortest hy hm).2
    rw [← textValue_magnitude hm,htext,absValue] at hread
    rw [ofLiteral_eq hc,hread] at hx
    have heq : (⟨neg,y.mant,y.exp⟩ : Binary64) = x := Option.some.inj hx
    rw [← heq,exactNumber,printedValue,← htext]
    exact congrArg (fun t => (if neg then (-1 : ℚ) else 1)*textValue t) (magnitude_sign _ _ _ _)

end Binary64
end Clearvoiance
