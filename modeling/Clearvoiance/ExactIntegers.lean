import Clearvoiance.Binary64Sum
import Clearvoiance.NumberReading

/-! Integers up to 2^53 are numbers, and their sums are exact as long as they stay there.  Literals of one value are
read as numbers of one value. -/
namespace Clearvoiance
namespace Binary64

open Json

theorem readRat_multiple {q : ℚ} (hlast : lastBit q < 971) {k : ℕ} (hk : q = k*(2 : ℚ)^lastBit q) :
    ∃ m e, readRat q = some (m,e) ∧ (m : ℚ)*(2 : ℚ)^e = q := by
  have hdiv : q/(2 : ℚ)^lastBit q = k := by
    rw [div_eq_iff (by positivity)]
    exact hk
  unfold readRat
  simp only [hdiv,roundRat_natCast]
  by_cases hfull : k = 2^53
  · rw [if_pos hfull,if_neg (by simp only; omega)]
    refine ⟨_,_,rfl,Eq.trans ?_ hk.symm⟩
    rw [hfull,zpow_add₀ (by norm_num)]
    push_cast
    ring
  · rw [if_neg hfull,if_neg (by simp only; omega)]
    exact ⟨_,_,rfl,hk.symm⟩

theorem readRat_natCast {n : ℕ} (hpos : 0 < n) (hn : n ≤ 2^53) :
    ∃ m e, readRat n = some (m,e) ∧ (m : ℚ)*(2 : ℚ)^e = n := by
  have hq : (0 : ℚ) < n := by exact_mod_cast hpos
  have hlog : Int.log 2 (n : ℚ) = Nat.log 2 n := Int.log_natCast 2 n
  by_cases hfull : n = 2^53
  · have hlast : lastBit (n : ℚ) = 1 := by
      rw [lastBit,hlog,hfull,Nat.log_pow (by norm_num)]
      norm_num
    refine readRat_multiple (by omega) (k := 2^52) ?_
    rw [hlast,hfull]
    norm_num
  · have hlt : Nat.log 2 n < 53 := Nat.log_lt_of_lt_pow (by omega) (by omega)
    have hlast : lastBit (n : ℚ) = -((52-Nat.log 2 n : ℕ) : ℤ) := by
      rw [lastBit,hlog]
      omega
    refine readRat_multiple (by omega) (k := n*2^(52-Nat.log 2 n)) ?_
    rw [hlast,zpow_neg,zpow_natCast]
    push_cast
    field_simp

theorem exactNumber_abs (l : Literal) : |exactNumber l| = absValue l := signed_abs l.neg (absValue_nonneg l)

theorem absValue_pos {l : Literal} (hl : l.coeff ≠ 0) : 0 < absValue l := by
  have hc : (0 : ℚ) < l.coeff := by exact_mod_cast Nat.pos_of_ne_zero hl
  unfold absValue
  positivity

theorem exactNumber_eq_zero_iff (l : Literal) : exactNumber l = 0 ↔ l.coeff = 0 := by
  rw [← abs_eq_zero,exactNumber_abs]
  constructor
  · intro h
    by_contra hne
    exact (absValue_pos hne).ne' h
  · intro h
    rw [absValue,h,Nat.cast_zero,zero_mul]

theorem ofLiteral_integer {l : Literal} {n : ℤ} (hn : |n| ≤ 2^53) (hl : exactNumber l = n) :
    ∃ x, ofLiteral l = some x ∧ value x = n := by
  obtain ⟨neg,c,e⟩ := l
  by_cases hc : c = 0
  · subst hc
    refine ⟨_,rfl,?_⟩
    rw [← hl,(exactNumber_eq_zero_iff _).mpr rfl]
    simp [value]
  · have habs : absValue ⟨neg,c,e⟩ = (n.natAbs : ℚ) := by
      rw [← exactNumber_abs,hl,Nat.cast_natAbs]
      norm_cast
    have hne : n.natAbs ≠ 0 := by
      intro h
      have hpos := absValue_pos (l := ⟨neg,c,e⟩) hc
      rw [habs,h] at hpos
      simp at hpos
    have hsmall : n.natAbs ≤ 2^53 := by
      rw [Int.abs_eq_natAbs] at hn
      exact_mod_cast hn
    obtain ⟨m,e',hread,hval⟩ := readRat_natCast (Nat.pos_of_ne_zero hne) hsmall
    rw [← habs,absValue] at hread
    refine ⟨⟨neg,m,e'⟩,?_,?_⟩
    · rw [ofLiteral_eq hc,hread]
      rfl
    · rw [value,hval,← habs,← hl]
      rfl

theorem exactNumber_int (s e : ℤ) : exactNumber ⟨decide (s < 0),s.natAbs,e⟩ = s*(10 : ℚ)^e := by
  have hcast : (s.natAbs : ℚ) = |(s : ℚ)| := by
    rw [Nat.cast_natAbs]
    norm_cast
  rw [exactNumber,absValue,hcast]
  by_cases hs : s < 0
  · have hneg : (s : ℚ) < 0 := by exact_mod_cast hs
    simp [hs,abs_of_neg hneg]
  · have hnonneg : (0 : ℚ) ≤ s := by exact_mod_cast not_lt.mp hs
    simp [hs,abs_of_nonneg hnonneg]

theorem exactNumber_intLiteral (n : ℤ) : exactNumber (intLiteral n) = n := by
  rw [intLiteral,exactNumber_int,zpow_zero,mul_one]

theorem exactNumber_sumLiteral (x y : Binary64) : exactNumber (sumLiteral x y) = value x+value y := by
  unfold sumLiteral
  simp only
  rw [exactNumber_int,Int.cast_add,add_mul,rescale _ (min_le_left _ _),rescale _ (min_le_right _ _),
    decimalOf_value,decimalOf_value]

/-- Literals of one value are read as numbers of one value. -/
theorem value_congr {l l' : Literal} (h : exactNumber l = exactNumber l') {x y : Binary64} (hx : ofLiteral l = some x)
    (hy : ofLiteral l' = some y) : value x = value y := by
  obtain ⟨neg,c,e⟩ := l
  obtain ⟨neg',c',e'⟩ := l'
  have hzero : c = 0 ↔ c' = 0 := by
    rw [← exactNumber_eq_zero_iff ⟨neg,c,e⟩,h]
    exact exactNumber_eq_zero_iff ⟨neg',c',e'⟩
  by_cases hc : c = 0
  · obtain rfl := hc
    obtain rfl := hzero.mp rfl
    obtain rfl := Option.some.inj hx
    obtain rfl := Option.some.inj hy
    simp [value]
  · have hc' : c' ≠ 0 := fun h' => hc (hzero.mpr h')
    have habs : absValue ⟨neg,c,e⟩ = absValue ⟨neg',c',e'⟩ := by rw [← exactNumber_abs,← exactNumber_abs,h]
    have hneg : neg = neg' := by
      have hpos := absValue_pos (l := ⟨neg',c',e'⟩) hc'
      rw [exactNumber,exactNumber,habs] at h
      revert h
      cases neg <;> cases neg' <;> simp <;> linarith
    rw [absValue,absValue] at habs
    rw [ofLiteral_eq hc,habs,hneg,← ofLiteral_eq hc',hy] at hx
    rw [Option.some.inj hx]

end Binary64
end Clearvoiance
