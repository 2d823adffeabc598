import Clearvoiance.DecimalText

/-! The sum of two numbers is the number nearest to the exact sum.  Every number is a decimal, so the exact sum is
written as a literal.  A sum with a small number does not leave the range. -/
namespace Clearvoiance
namespace Binary64

open Json

/-- A number as digits and a power of ten. -/
def decimalOf (x : Binary64) : ℤ × ℤ :=
  let (c,e) := if 0 ≤ x.exp then (x.mant*2^x.exp.toNat,(0 : ℤ)) else (x.mant*5^(-x.exp).toNat,x.exp)
  (if x.neg then -(c : ℤ) else c,e)

def sumLiteral (x y : Binary64) : Literal :=
  let (c,e) := decimalOf x
  let (d,f) := decimalOf y
  let low := min e f
  let s := c*10^(e-low).toNat+d*10^(f-low).toNat
  ⟨decide (s < 0),s.natAbs,low⟩

/-- The sum of two numbers; `none` if it is past the largest one. -/
def add (x y : Binary64) : Option Binary64 := ofLiteral (sumLiteral x y)

def intLiteral (n : ℤ) : Literal := ⟨decide (n < 0),n.natAbs,0⟩

def value (x : Binary64) : ℚ := (if x.neg then -1 else 1)*(x.mant*(2 : ℚ)^x.exp)

theorem decimalOf_value (x : Binary64) : ((decimalOf x).1 : ℚ)*(10 : ℚ)^(decimalOf x).2 = value x := by
  have hten : (10 : ℚ)^x.exp = (5 : ℚ)^x.exp*(2 : ℚ)^x.exp := by
    rw [← mul_zpow]
    norm_num
  unfold decimalOf value
  by_cases he : 0 ≤ x.exp
  · have hpow : (2 : ℚ)^x.exp = (2 : ℚ)^x.exp.toNat := by rw [← zpow_natCast,Int.toNat_of_nonneg he]
    simp only [he,if_true]
    cases x.neg <;> simp [hpow]
  · have hpow : (5 : ℚ)^(-x.exp).toNat*(5 : ℚ)^x.exp = 1 := by
      rw [← zpow_natCast,Int.toNat_of_nonneg (by omega),← zpow_add₀ (by norm_num)]
      simp
    simp only [he,if_false]
    have hval : (x.mant : ℚ)*(5 : ℚ)^(-x.exp).toNat*(10 : ℚ)^x.exp = x.mant*(2 : ℚ)^x.exp := by
      rw [hten]
      calc (x.mant : ℚ)*(5 : ℚ)^(-x.exp).toNat*((5 : ℚ)^x.exp*(2 : ℚ)^x.exp)
          = x.mant*((5 : ℚ)^(-x.exp).toNat*(5 : ℚ)^x.exp)*(2 : ℚ)^x.exp := by ring
        _ = x.mant*(2 : ℚ)^x.exp := by rw [hpow,mul_one]
    cases x.neg <;> push_cast <;> simp [hval]

theorem natAbs_value (s : ℤ) (e : ℤ) : (s.natAbs : ℚ)*(10 : ℚ)^e = |(s : ℚ)*(10 : ℚ)^e| := by
  rw [abs_mul,abs_of_pos (a := (10 : ℚ)^e) (by positivity),Nat.cast_natAbs,Int.cast_abs]

theorem rescale (c : ℤ) {e low : ℤ} (hle : low ≤ e) :
    ((c*10^(e-low).toNat : ℤ) : ℚ)*(10 : ℚ)^low = c*(10 : ℚ)^e := by
  push_cast
  rw [mul_assoc,← zpow_natCast,Int.toNat_of_nonneg (by omega),← zpow_add₀ (by norm_num)]
  congr 2
  ring

theorem sumLiteral_value (x y : Binary64) :
    ((sumLiteral x y).coeff : ℚ)*(10 : ℚ)^(sumLiteral x y).exp10 = |value x+value y| := by
  unfold sumLiteral
  simp only
  rw [natAbs_value,Int.cast_add,add_mul,rescale _ (min_le_left _ _),rescale _ (min_le_right _ _),decimalOf_value,
    decimalOf_value]

theorem roundHalfEven_lt {n m d : ℕ} (hd : 0 < d) (h : 2*n < (2*m+1)*d) : roundHalfEven n d ≤ m := by
  have hdiv := Nat.div_add_mod n d
  have hq : n/d ≤ m := by
    by_contra hgt
    have hle : (m+1)*d ≤ n := by
      calc (m+1)*d ≤ n/d*d := Nat.mul_le_mul_right d (by omega)
        _ ≤ n := Nat.div_mul_le_self n d
    nlinarith
  unfold roundHalfEven
  simp only
  split_ifs with hc
  · exact hq
  · by_contra hgt
    have hqm : n/d = m := by omega
    rw [hqm] at hdiv
    simp only [Bool.or_eq_true,decide_eq_true_eq,not_or,not_lt] at hc
    nlinarith

/-- A number below the middle between two integers is not rounded to the upper one. -/
theorem roundRat_lt {q : ℚ} (hq : 0 ≤ q) {m : ℕ} (h : q < m+1/2) : roundRat q ≤ m := by
  refine roundHalfEven_lt (Rat.den_pos q) ?_
  have hnum : ((q.num.toNat : ℤ) : ℚ) = q.num := by rw [Int.toNat_of_nonneg (Rat.num_nonneg.mpr hq)]
  have hden : (0 : ℚ) < q.den := by exact_mod_cast Rat.den_pos q
  have hlt : 2*(q.num : ℚ) < (2*m+1)*q.den := by
    rw [← Rat.mul_den_eq_num q]
    nlinarith
  rw [← hnum] at hlt
  exact_mod_cast hlt

/-- What is closer to the largest number than to the next power of two is in the range. -/
theorem readRat_isSome {q : ℚ} (hq : 0 < q) (h : q < (2^53-1/2)*(2 : ℚ)^(971 : ℤ)) : (readRat q).isSome = true := by
  have hlog : Int.log 2 q < 1024 := by
    rw [← Int.lt_zpow_iff_log_lt (by norm_num) hq]
    refine h.trans ?_
    rw [Nat.cast_ofNat,show (1024 : ℤ) = 53+971 by norm_num,zpow_add₀ (by norm_num)]
    exact mul_lt_mul_of_pos_right (by norm_num) (by positivity)
  have hlast : lastBit q ≤ 971 := by
    unfold lastBit
    omega
  unfold readRat
  simp only
  by_cases hmax : lastBit q = 971
  · have hround : roundRat (q/(2 : ℚ)^lastBit q) ≤ 2^53-1 := by
      apply roundRat_lt (by positivity)
      rw [div_lt_iff₀ (by positivity),hmax]
      refine h.trans_eq ?_
      generalize (2 : ℚ)^(971 : ℤ) = u
      norm_num
    rw [if_neg (show roundRat (q/(2 : ℚ)^lastBit q) ≠ 2^53 by omega),if_neg (by simp only; omega)]
    rfl
  · by_cases hfull : roundRat (q/(2 : ℚ)^lastBit q) = 2^53
    · rw [if_pos hfull,if_neg (by simp only; omega)]
      rfl
    · rw [if_neg hfull,if_neg (by simp only; omega)]
      rfl

theorem abs_value (x : Binary64) : |value x| = x.mant*(2 : ℚ)^x.exp := by
  have hnonneg : (0 : ℚ) ≤ x.mant*(2 : ℚ)^x.exp := by positivity
  unfold value
  cases x.neg <;> simp [abs_of_nonneg hnonneg]

theorem abs_value_le {x : Binary64} (hx : Canonical x) : |value x| ≤ (2^53-1)*(2 : ℚ)^(971 : ℤ) := by
  rw [abs_value]
  have hm : (x.mant : ℚ) ≤ 2^53-1 := by
    have := hx.mant_lt
    have hle : x.mant+1 ≤ 2^53 := this
    have hcast : (x.mant : ℚ)+1 ≤ 2^53 := by exact_mod_cast hle
    linarith
  have he : (2 : ℚ)^x.exp ≤ (2 : ℚ)^(971 : ℤ) := zpow_le_zpow_right₀ (by norm_num) hx.exp_le
  exact mul_le_mul hm he (by positivity) (by norm_num)

theorem add_isSome {x y : Binary64} (hx : Canonical x) (hy : |value y| ≤ 2^66) : (add x y).isSome = true := by
  unfold add
  have hval := sumLiteral_value x y
  generalize sumLiteral x y = l at hval
  obtain ⟨neg,c,e⟩ := l
  by_cases hc : c = 0
  · simp [ofLiteral,hc]
  · rw [ofLiteral_eq hc,Option.isSome_map]
    simp only at hval
    have hpos : (0 : ℚ) < c*(10 : ℚ)^e := by
      have : (0 : ℚ) < c := by exact_mod_cast Nat.pos_of_ne_zero hc
      positivity
    apply readRat_isSome hpos
    rw [hval]
    have hsum := abs_add_le (value x) (value y)
    have hle := abs_value_le hx
    have hsmall : (2 : ℚ)^(67 : ℤ) < (2 : ℚ)^(971 : ℤ) := zpow_lt_zpow_right₀ (by norm_num) (by norm_num)
    generalize (2 : ℚ)^(971 : ℤ) = u at hle hsmall
    norm_num at hy hsmall
    linarith

theorem readRat_exp_le {q : ℚ} {m : ℕ} {e : ℤ} (h : readRat q = some (m,e)) : e ≤ lastBit q+1 := by
  unfold readRat at h
  simp only at h
  split_ifs at h <;> cases h <;> omega

/-- An integer of 64 bits is a number that is not large. -/
theorem ofLiteral_int {n : ℤ} (hn : |n| ≤ 2^63) :
    ∃ y, ofLiteral (intLiteral n) = some y ∧ |value y| ≤ 2^66 := by
  by_cases hzero : n.natAbs = 0
  · refine ⟨_,by rw [intLiteral,ofLiteral,if_pos hzero],?_⟩
    rw [abs_value]
    norm_num
  · have hq : (0 : ℚ) < n.natAbs := by exact_mod_cast Nat.pos_of_ne_zero hzero
    have hle : (n.natAbs : ℚ) ≤ 2^63 := by
      rw [Nat.cast_natAbs]
      exact_mod_cast hn
    have hlog : Int.log 2 (n.natAbs : ℚ) < 64 := by
      rw [← Int.lt_zpow_iff_log_lt (by norm_num) hq]
      refine hle.trans_lt ?_
      norm_num
    have hlast : lastBit (n.natAbs : ℚ) ≤ 11 := by
      unfold lastBit
      omega
    have hsmall : (n.natAbs : ℚ) < (2^53-1/2)*(2 : ℚ)^(971 : ℤ) := by
      have hpow : (2 : ℚ)^(63 : ℤ) < (2 : ℚ)^(971 : ℤ) := zpow_lt_zpow_right₀ (by norm_num) (by norm_num)
      generalize (2 : ℚ)^(971 : ℤ) = u at hpow
      generalize (n.natAbs : ℚ) = q at hle
      norm_num at hle hpow
      linarith
    obtain ⟨⟨m,e⟩,hread⟩ := Option.isSome_iff_exists.mp (readRat_isSome hq hsmall)
    refine ⟨⟨decide (n < 0),m,e⟩,?_,?_⟩
    · rw [intLiteral,ofLiteral_eq hzero,zpow_zero,mul_one,hread]
      rfl
    · have hcanon := readRat_canonical hq hread false
      have he := readRat_exp_le hread
      rw [abs_value]
      have hm : (m : ℚ) ≤ 2^53 := by exact_mod_cast hcanon.mant_lt.le
      have hexp : (2 : ℚ)^e ≤ (2 : ℚ)^(12 : ℤ) := zpow_le_zpow_right₀ (by norm_num) (by omega)
      calc (m : ℚ)*(2 : ℚ)^e ≤ 2^53*(2 : ℚ)^(12 : ℤ) := mul_le_mul hm hexp (by positivity) (by norm_num)
        _ ≤ 2^66 := by norm_num

end Binary64
end Clearvoiance
