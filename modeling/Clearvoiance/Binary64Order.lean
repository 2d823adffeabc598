import Clearvoiance.Binary64Sum
import Clearvoiance.NumberReading
import Mathlib.Algebra.Order.Field.Power

/-! Reading keeps the order: a literal with a larger value is not read as a smaller number, and none that is past
the largest number comes before one that is not. -/
namespace Clearvoiance
namespace Binary64

open Json

theorem le_roundHalfEven_half {n d : ℕ} (hd : 0 < d) : 2*n ≤ (2*roundHalfEven n d+1)*d := by
  have hdiv := Nat.div_add_mod n d
  have hmod := Nat.mod_lt n hd
  have hupper : (2*(n/d+1)+1)*d = 2*(d*(n/d))+3*d := by ring
  have hlower : (2*(n/d)+1)*d = 2*(d*(n/d))+d := by ring
  unfold roundHalfEven
  simp only
  split_ifs with hc
  · rw [hlower]
    simp only [Bool.or_eq_true,Bool.and_eq_true,decide_eq_true_eq] at hc
    omega
  · rw [hupper]
    omega

theorem le_roundRat_half {q : ℚ} (hq : 0 ≤ q) : q ≤ roundRat q+1/2 := by
  have hnum : ((q.num.toNat : ℤ) : ℚ) = q.num := by rw [Int.toNat_of_nonneg (Rat.num_nonneg.mpr hq)]
  have hden : (0 : ℚ) < q.den := by exact_mod_cast Rat.den_pos q
  have h := le_roundHalfEven_half (n := q.num.toNat) (Rat.den_pos q)
  have hcast : 2*((q.num.toNat : ℤ) : ℚ) ≤ (2*(roundRat q : ℚ)+1)*q.den := by exact_mod_cast h
  rw [hnum,← Rat.mul_den_eq_num q] at hcast
  have hle : 2*q ≤ 2*(roundRat q : ℚ)+1 := le_of_mul_le_mul_right (by linarith) hden
  linarith

theorem roundRat_mono {q r : ℚ} (hq : 0 ≤ q) (h : q ≤ r) : roundRat q ≤ roundRat r := by
  have hr := le_roundRat_half (hq.trans h)
  rcases (h.trans hr).lt_or_eq with hlt | heq
  · exact roundRat_lt hq hlt
  · rw [le_antisymm h (hr.trans heq.ge)]

theorem lastBit_mono {q r : ℚ} (hq : 0 < q) (h : q ≤ r) : lastBit q ≤ lastBit r := by
  have hlog := Int.log_mono_right (b := 2) hq h
  unfold lastBit
  omega

/-- The value that a nonnegative number is rounded to when there is no largest exponent. -/
def rounded (q : ℚ) : ℚ := roundRat (q/(2 : ℚ)^lastBit q)*(2 : ℚ)^lastBit q

theorem rounded_zero : rounded 0 = 0 := by
  have hzero : roundRat 0 = 0 := roundRat_natCast 0
  rw [rounded,zero_div,hzero,Nat.cast_zero,zero_mul]

theorem rounded_nonneg (q : ℚ) : 0 ≤ rounded q := by
  unfold rounded
  positivity

/-- Between numbers of different exponents lies a power of two, which both are rounded towards. -/
theorem rounded_mono {q r : ℚ} (hq : 0 < q) (h : q ≤ r) : rounded q ≤ rounded r := by
  have hr := hq.trans_le h
  unfold rounded
  rcases (lastBit_mono hq h).eq_or_lt with heq | hlt
  · rw [← heq]
    have hround : roundRat (q/(2 : ℚ)^lastBit q) ≤ roundRat (r/(2 : ℚ)^lastBit q) :=
      roundRat_mono (by positivity) (div_le_div_of_nonneg_right h (by positivity))
    exact mul_le_mul_of_nonneg_right (by exact_mod_cast hround) (by positivity)
  · have hlow : (-1074 : ℤ) ≤ lastBit q := le_max_right _ _
    have hmax : (roundRat (q/(2 : ℚ)^lastBit q) : ℚ) ≤ (2 : ℚ)^(53 : ℤ) := by exact_mod_cast round_le_full hq
    have hmin : (2 : ℚ)^(52 : ℤ) ≤ (roundRat (r/(2 : ℚ)^lastBit r) : ℚ) := by
      exact_mod_cast full_le_round hr (by omega)
    calc roundRat (q/(2 : ℚ)^lastBit q)*(2 : ℚ)^lastBit q
        ≤ (2 : ℚ)^(53 : ℤ)*(2 : ℚ)^lastBit q := mul_le_mul_of_nonneg_right hmax (by positivity)
      _ = (2 : ℚ)^(53+lastBit q) := (zpow_add₀ (by norm_num) _ _).symm
      _ ≤ (2 : ℚ)^(52+lastBit r) := zpow_le_zpow_right₀ (by norm_num) (by omega)
      _ = (2 : ℚ)^(52 : ℤ)*(2 : ℚ)^lastBit r := zpow_add₀ (by norm_num) _ _
      _ ≤ roundRat (r/(2 : ℚ)^lastBit r)*(2 : ℚ)^lastBit r := mul_le_mul_of_nonneg_right hmin (by positivity)

/-- What is read is the rounded value, unless that is past the largest number. -/
theorem readRat_rounded {q : ℚ} (hq : 0 < q) :
    (∃ m e, readRat q = some (m,e) ∧ (m : ℚ)*(2 : ℚ)^e = rounded q ∧ rounded q < (2 : ℚ)^(1024 : ℤ)) ∨
      readRat q = none ∧ (2 : ℚ)^(1024 : ℤ) ≤ rounded q := by
  have hmax := round_le_full hq
  have hbelow : ∀ {m : ℕ} {e : ℤ}, m < 2^53 → e ≤ 971 → (m : ℚ)*(2 : ℚ)^e < (2 : ℚ)^(1024 : ℤ) := by
    intro m e hm he
    have hm' : (m : ℚ) < (2 : ℚ)^(53 : ℤ) := by exact_mod_cast hm
    calc (m : ℚ)*(2 : ℚ)^e < (2 : ℚ)^(53 : ℤ)*(2 : ℚ)^e := mul_lt_mul_of_pos_right hm' (by positivity)
      _ = (2 : ℚ)^(53+e) := (zpow_add₀ (by norm_num) _ _).symm
      _ ≤ (2 : ℚ)^(1024 : ℤ) := zpow_le_zpow_right₀ (by norm_num) (by omega)
  have habove : ∀ {m : ℕ} {e : ℤ}, 2^52 ≤ m → 971 < e → (2 : ℚ)^(1024 : ℤ) ≤ (m : ℚ)*(2 : ℚ)^e := by
    intro m e hm he
    have hm' : (2 : ℚ)^(52 : ℤ) ≤ (m : ℚ) := by exact_mod_cast hm
    calc (2 : ℚ)^(1024 : ℤ) ≤ (2 : ℚ)^(52+e) := zpow_le_zpow_right₀ (by norm_num) (by omega)
      _ = (2 : ℚ)^(52 : ℤ)*(2 : ℚ)^e := zpow_add₀ (by norm_num) _ _
      _ ≤ (m : ℚ)*(2 : ℚ)^e := mul_le_mul_of_nonneg_right hm' (by positivity)
  unfold readRat rounded
  simp only
  by_cases hfull : roundRat (q/(2 : ℚ)^lastBit q) = 2^53
  · have hvalue : (roundRat (q/(2 : ℚ)^lastBit q) : ℚ)*(2 : ℚ)^lastBit q =
        ((2^52 : ℕ) : ℚ)*(2 : ℚ)^(lastBit q+1) := by
      rw [hfull,zpow_add₀ (by norm_num)]
      push_cast
      ring
    rw [if_pos hfull,hvalue]
    by_cases he : 971 < lastBit q+1
    · rw [if_pos he]
      exact .inr ⟨rfl,habove le_rfl he⟩
    · rw [if_neg he]
      exact .inl ⟨_,_,rfl,rfl,hbelow (by norm_num) (by omega)⟩
  · rw [if_neg hfull]
    by_cases he : 971 < lastBit q
    · rw [if_pos he]
      exact .inr ⟨rfl,habove (full_le_round hq (by omega)) he⟩
    · rw [if_neg he]
      exact .inl ⟨_,_,rfl,rfl,hbelow (by omega) (by omega)⟩

/-- The value that a number is rounded to, with its sign. -/
def nearest (q : ℚ) : ℚ := if q < 0 then -rounded (-q) else rounded q

theorem nearest_mono {q r : ℚ} (h : q ≤ r) : nearest q ≤ nearest r := by
  unfold nearest
  split_ifs with hq hr hr
  · exact neg_le_neg (rounded_mono (by linarith) (by linarith))
  · linarith [rounded_nonneg (-q),rounded_nonneg r]
  · exact absurd (h.trans_lt hr) hq
  · rcases (not_lt.mp hq).eq_or_lt with rfl | hpos
    · rw [rounded_zero]
      exact rounded_nonneg r
    · exact rounded_mono hpos h

theorem nearest_exact (neg : Bool) {q : ℚ} (hq : 0 < q) :
    nearest ((if neg then -1 else 1)*q) = (if neg then -1 else 1)*rounded q := by
  unfold nearest
  cases neg
  · simp [not_lt.mpr hq.le]
  · simp [hq]

/-- What a literal is read as: the number nearest to its value, or none if that is past the largest one. -/
theorem ofLiteral_nearest (l : Literal) :
    (∃ x, ofLiteral l = some x ∧ value x = nearest (exactNumber l) ∧ |nearest (exactNumber l)| < (2 : ℚ)^(1024 : ℤ)) ∨
      ofLiteral l = none ∧ (2 : ℚ)^(1024 : ℤ) ≤ (if l.neg then -1 else 1)*nearest (exactNumber l) := by
  obtain ⟨neg,c,e⟩ := l
  by_cases hc : c = 0
  · subst hc
    have hzero : nearest (exactNumber ⟨neg,0,e⟩) = 0 := by simp [exactNumber,absValue,nearest,rounded_zero]
    rw [hzero]
    exact .inl ⟨_,rfl,by simp [value],by simp⟩
  · have hpos : (0 : ℚ) < c*(10 : ℚ)^e := by
      have hcpos : (0 : ℚ) < c := by exact_mod_cast Nat.pos_of_ne_zero hc
      positivity
    have hexact : nearest (exactNumber ⟨neg,c,e⟩) = (if neg then -1 else 1)*rounded (c*(10 : ℚ)^e) :=
      nearest_exact neg hpos
    rw [hexact,ofLiteral_eq hc]
    rcases readRat_rounded hpos with ⟨m,e',hread,hvalue,hbound⟩ | ⟨hread,hbound⟩
    · rw [hread]
      refine .inl ⟨_,rfl,?_,?_⟩
      · rw [value,hvalue]
      · have habs : |(if neg then -1 else 1)*rounded (c*(10 : ℚ)^e)| = rounded (c*(10 : ℚ)^e) :=
          signed_abs neg (rounded_nonneg _)
        rwa [habs]
    · rw [hread]
      refine .inr ⟨rfl,?_⟩
      cases neg <;> simpa using hbound

end Binary64
end Clearvoiance
