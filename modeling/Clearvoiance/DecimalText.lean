import Clearvoiance.Binary64
import Clearvoiance.Hex
import Mathlib.Data.Int.Log
import Mathlib.Data.List.TakeWhile
import Mathlib.Data.Rat.Floor
import Mathlib.Tactic

/-! A binary64 number is determined by its decimal text.  Reading a literal depends on its rational
value only; the digits of a number, taken at the place of its point, are read as the number; and the
layout of the digits can be undone. -/
namespace Clearvoiance
namespace Binary64

open Json

theorem roundHalfEven_congr {n d n' d' : ℕ} (hd : 0 < d) (hd' : 0 < d') (h : n*d' = n'*d) :
    roundHalfEven n d = roundHalfEven n' d' := by
  have hq : n/d = n'/d' := by
    rw [← Nat.mul_div_mul_right n d hd',h,Nat.mul_comm d d',Nat.mul_div_mul_right n' d' hd]
  have hr : n%d*d' = n'%d'*d := by
    have h₁ := Nat.div_add_mod n d
    have h₂ := Nat.div_add_mod n' d'
    rw [hq] at h₁
    have h₃ : (d*(n'/d')+n%d)*d' = (d'*(n'/d')+n'%d')*d := by rw [h₁,h₂,h]
    linarith [h₃]
  have hcross : 2*(n%d)*d' = 2*(n'%d')*d := by rw [Nat.mul_assoc,hr,Nat.mul_assoc]
  have hlt : 2*(n%d) < d ↔ 2*(n'%d') < d' := by
    calc 2*(n%d) < d ↔ 2*(n%d)*d' < d*d' := (Nat.mul_lt_mul_right hd').symm
      _ ↔ 2*(n'%d')*d < d'*d := by rw [hcross,Nat.mul_comm d d']
      _ ↔ 2*(n'%d') < d' := Nat.mul_lt_mul_right hd
  have heq : 2*(n%d) = d ↔ 2*(n'%d') = d' := by
    calc 2*(n%d) = d ↔ 2*(n%d)*d' = d*d' := (Nat.mul_left_inj hd'.ne').symm
      _ ↔ 2*(n'%d')*d = d'*d := by rw [hcross,Nat.mul_comm d d']
      _ ↔ 2*(n'%d') = d' := Nat.mul_left_inj hd.ne'
  unfold roundHalfEven
  simp only [hq,hlt,heq]

def roundRat (q : ℚ) : ℕ := roundHalfEven q.num.toNat q.den

theorem roundHalfEven_eq (n : ℕ) {d : ℕ} (hd : 0 < d) : roundHalfEven n d = roundRat ((n : ℚ)/d) := by
  have hd' : (d : ℚ) ≠ 0 := by positivity
  have hnonneg : 0 ≤ ((n : ℚ)/d).num := Rat.num_nonneg.mpr (by positivity)
  refine roundHalfEven_congr hd (Rat.den_pos _) ?_
  have hcross : ((n : ℚ)/d)*((n : ℚ)/d).den = ((n : ℚ)/d).num := Rat.mul_den_eq_num _
  rw [div_mul_eq_mul_div,div_eq_iff hd'] at hcross
  have hcast : ((((n : ℚ)/d).num.toNat : ℤ) : ℚ) = (((n : ℚ)/d).num : ℚ) := by rw [Int.toNat_of_nonneg hnonneg]
  have hgoal : ((n*((n : ℚ)/d).den : ℕ) : ℚ) = ((((n : ℚ)/d).num.toNat*d : ℕ) : ℚ) := by
    push_cast
    rw [hcross,← hcast]
    push_cast
    rfl
  exact_mod_cast hgoal

theorem fractionOf_value {b : ℕ} (hb : 0 < b) (c : ℕ) (e : ℤ) :
    0 < (fractionOf b c e).2 ∧ ((fractionOf b c e).1 : ℚ)/(fractionOf b c e).2 = c*(b : ℚ)^e := by
  have hb' : (b : ℚ) ≠ 0 := by positivity
  unfold fractionOf
  split_ifs with he
  · refine ⟨Nat.one_pos,?_⟩
    have hz : (b : ℚ)^e = (b : ℚ)^e.toNat := by rw [← zpow_natCast,Int.toNat_of_nonneg he]
    rw [hz]
    push_cast
    simp
  · refine ⟨Nat.pow_pos hb,?_⟩
    have hz : (b : ℚ)^e = ((b : ℚ)^(-e).toNat)⁻¹ := by
      rw [← zpow_natCast,Int.toNat_of_nonneg (by omega),zpow_neg,inv_inv]
    rw [hz]
    push_cast
    rw [div_eq_mul_inv]

theorem scaled_value (n : ℕ) {d : ℕ} (hd : 0 < d) (e : ℤ) :
    0 < (scaled n d e).2 ∧ ((scaled n d e).1 : ℚ)/(scaled n d e).2 = (n : ℚ)/d/(2 : ℚ)^e := by
  unfold scaled
  split_ifs with he
  · refine ⟨Nat.mul_pos hd (by positivity),?_⟩
    have hz : (2 : ℚ)^e = (2 : ℚ)^e.toNat := by rw [← zpow_natCast,Int.toNat_of_nonneg he]
    rw [hz]
    push_cast
    rw [div_div]
  · refine ⟨hd,?_⟩
    have hz : (2 : ℚ)^e = ((2 : ℚ)^(-e).toNat)⁻¹ := by
      rw [← zpow_natCast,Int.toNat_of_nonneg (by omega),zpow_neg,inv_inv]
    rw [hz]
    push_cast
    rw [div_inv_eq_mul]
    ring

/-- The exponent of the last bit that a number of this size keeps. -/
def lastBit (q : ℚ) : ℤ := max (Int.log 2 q-52) (-1074)

theorem exponentFor_eq {n d : ℕ} (hn : 0 < n) (hd : 0 < d) : exponentFor n d = lastBit ((n : ℚ)/d) := by
  have hd' : (0 : ℚ) < d := by exact_mod_cast hd
  have hn' : (0 : ℚ) < n := by exact_mod_cast hn
  have hv : (0 : ℚ) < (n : ℚ)/d := by positivity
  have htwo : (1 : ℚ) < 2 := by norm_num
  let a : ℤ := Nat.log2 n
  let b : ℤ := Nat.log2 d
  have hna : (2 : ℚ)^a ≤ n ∧ (n : ℚ) < (2 : ℚ)^(a+1) := by
    constructor
    · have h := Nat.log2_self_le hn.ne'
      rw [zpow_natCast]
      exact_mod_cast h
    · have h := Nat.lt_log2_self (n := n)
      have hz : (2 : ℚ)^(a+1) = (2 : ℚ)^(Nat.log2 n+1) := by rw [← zpow_natCast]; push_cast; rfl
      rw [hz]
      exact_mod_cast h
  have hdb : (2 : ℚ)^b ≤ d ∧ (d : ℚ) < (2 : ℚ)^(b+1) := by
    constructor
    · have h := Nat.log2_self_le hd.ne'
      rw [zpow_natCast]
      exact_mod_cast h
    · have h := Nat.lt_log2_self (n := d)
      have hz : (2 : ℚ)^(b+1) = (2 : ℚ)^(Nat.log2 d+1) := by rw [← zpow_natCast]; push_cast; rfl
      rw [hz]
      exact_mod_cast h
  have hlow : (2 : ℚ)^(a-b-1) < (n : ℚ)/d := by
    rw [lt_div_iff₀ hd']
    calc (2 : ℚ)^(a-b-1)*d < (2 : ℚ)^(a-b-1)*(2 : ℚ)^(b+1) := by
          exact mul_lt_mul_of_pos_left hdb.2 (by positivity)
      _ = (2 : ℚ)^a := by rw [← zpow_add₀ (by norm_num)]; congr 1; ring
      _ ≤ n := hna.1
  have hhigh : (n : ℚ)/d < (2 : ℚ)^(a-b+1) := by
    rw [div_lt_iff₀ hd']
    calc (n : ℚ) < (2 : ℚ)^(a+1) := hna.2
      _ = (2 : ℚ)^(a-b+1)*(2 : ℚ)^b := by rw [← zpow_add₀ (by norm_num)]; congr 1; ring
      _ ≤ (2 : ℚ)^(a-b+1)*d := by exact mul_le_mul_of_nonneg_left hdb.1 (by positivity)
  have hlog₁ : a-b-1 ≤ Int.log 2 ((n : ℚ)/d) := by
    rw [← Int.zpow_le_iff_le_log (by norm_num) hv]
    exact_mod_cast hlow.le
  have hlog₂ : Int.log 2 ((n : ℚ)/d) < a-b+1 := by
    rw [← Int.lt_zpow_iff_log_lt (by norm_num) hv]
    exact_mod_cast hhigh
  obtain ⟨hsd,hsv⟩ := scaled_value n hd (a-b-52)
  have hcond : (scaled n d (a-b-52)).1 < 2^52*(scaled n d (a-b-52)).2 ↔ Int.log 2 ((n : ℚ)/d) < a-b := by
    rw [← Int.lt_zpow_iff_log_lt (by norm_num) hv]
    have hsd' : (0 : ℚ) < (scaled n d (a-b-52)).2 := by exact_mod_cast hsd
    have hpow : (0 : ℚ) < (2 : ℚ)^(a-b-52) := by positivity
    have hsplit : (2 : ℚ)^(a-b) = 2^52*(2 : ℚ)^(a-b-52) := by
      rw [show (2 : ℚ)^52 = (2 : ℚ)^(52 : ℤ) by norm_cast,← zpow_add₀ (by norm_num)]
      congr 1
      ring
    have hcast : (scaled n d (a-b-52)).1 < 2^52*(scaled n d (a-b-52)).2 ↔
        ((scaled n d (a-b-52)).1 : ℚ)/(scaled n d (a-b-52)).2 < 2^52 := by
      rw [div_lt_iff₀ hsd']
      exact_mod_cast Iff.rfl
    rw [hcast,hsv,div_lt_iff₀ hpow]
    push_cast
    rw [hsplit]
  unfold exponentFor lastBit
  simp only
  change max (if (scaled n d (a-b-52)).1 < 2^52*(scaled n d (a-b-52)).2 then a-b-52-1 else a-b-52) (-1074) = _
  simp only [hcond]
  split_ifs with hc
  · congr 1
    omega
  · congr 1
    omega

/-- Significand and exponent that a positive rational number is read as. -/
def readRat (q : ℚ) : Option (ℕ × ℤ) :=
  let m := roundRat (q/(2 : ℚ)^lastBit q)
  let (m,e) := if m = 2^53 then (2^52,lastBit q+1) else (m,lastBit q)
  if 971 < e then none else some (m,e)

/-- What a literal is read as depends on its value only. -/
theorem ofLiteral_eq {neg : Bool} {c : ℕ} (hc : c ≠ 0) (e : ℤ) :
    ofLiteral ⟨neg,c,e⟩ = (readRat (c*(10 : ℚ)^e)).map fun r => ⟨neg,r.1,r.2⟩ := by
  obtain ⟨hd,hval⟩ := fractionOf_value (b := 10) (by norm_num) c e
  have hval' : ((fractionOf 10 c e).1 : ℚ)/(fractionOf 10 c e).2 = c*(10 : ℚ)^e := by exact_mod_cast hval
  have hn : 0 < (fractionOf 10 c e).1 := by
    have hpos : (0 : ℚ) < ((fractionOf 10 c e).1 : ℚ)/(fractionOf 10 c e).2 := by
      rw [hval']
      have : (0 : ℚ) < c := by exact_mod_cast Nat.pos_of_ne_zero hc
      positivity
    by_contra hzero
    have hz : (fractionOf 10 c e).1 = 0 := by omega
    simp [hz] at hpos
  have hexp := exponentFor_eq hn hd
  rw [hval'] at hexp
  obtain ⟨hsd,hsv⟩ := scaled_value (fractionOf 10 c e).1 hd (lastBit (c*(10 : ℚ)^e))
  rw [hval'] at hsv
  have hround := roundHalfEven_eq (scaled (fractionOf 10 c e).1 (fractionOf 10 c e).2 (lastBit (c*(10 : ℚ)^e))).1 hsd
  rw [hsv] at hround
  unfold ofLiteral readRat
  simp only [hc,if_false,hexp,hround]
  split_ifs <;> simp

/-- A significand that fills its bits, or the least exponent. -/
structure Canonical (x : Binary64) : Prop where
  mant_lt : x.mant < 2^53
  exp_le : x.exp ≤ 971
  low : -1074 ≤ x.exp
  full : x.exp = -1074 ∨ 2^52 ≤ x.mant

theorem roundRat_natCast (n : ℕ) : roundRat n = n := by
  have h := roundHalfEven_eq n (d := 1) Nat.one_pos
  rw [Nat.cast_one,div_one] at h
  rw [← h]
  simp [roundHalfEven,Nat.mod_one]

theorem roundHalfEven_mono {n m d : ℕ} (hd : 0 < d) (h : n ≤ m*d) : roundHalfEven n d ≤ m := by
  have hdiv := Nat.div_add_mod n d
  have hmod := Nat.mod_lt n hd
  have hq : n/d ≤ m := by
    apply Nat.div_le_of_le_mul
    rwa [Nat.mul_comm]
  unfold roundHalfEven
  simp only
  split_ifs with hc
  · exact hq
  · by_contra hgt
    have hqm : n/d = m := by omega
    have hr : n%d = 0 := by
      rw [hqm,Nat.mul_comm] at hdiv
      omega
    simp [hr,hd] at hc

theorem le_roundHalfEven {n m d : ℕ} (h : m*d ≤ n) (hd : 0 < d) : m ≤ roundHalfEven n d := by
  have hq : m ≤ n/d := (Nat.le_div_iff_mul_le hd).mpr h
  unfold roundHalfEven
  simp only
  split_ifs <;> omega

theorem roundRat_le {q : ℚ} (hq : 0 ≤ q) {m : ℕ} (h : q ≤ m) : roundRat q ≤ m := by
  refine roundHalfEven_mono (Rat.den_pos q) ?_
  have hnum : ((q.num.toNat : ℤ) : ℚ) = q.num := by rw [Int.toNat_of_nonneg (Rat.num_nonneg.mpr hq)]
  have hden : (0 : ℚ) < q.den := by exact_mod_cast Rat.den_pos q
  have hle : (q.num : ℚ) ≤ m*q.den := by
    rw [← Rat.mul_den_eq_num q]
    exact mul_le_mul_of_nonneg_right h hden.le
  rw [← hnum] at hle
  exact_mod_cast hle

theorem le_roundRat {q : ℚ} (hq : 0 ≤ q) {m : ℕ} (h : (m : ℚ) ≤ q) : m ≤ roundRat q := by
  refine le_roundHalfEven ?_ (Rat.den_pos q)
  have hnum : ((q.num.toNat : ℤ) : ℚ) = q.num := by rw [Int.toNat_of_nonneg (Rat.num_nonneg.mpr hq)]
  have hden : (0 : ℚ) < q.den := by exact_mod_cast Rat.den_pos q
  have hle : (m : ℚ)*q.den ≤ q.num := by
    rw [← Rat.mul_den_eq_num q]
    exact mul_le_mul_of_nonneg_right h hden.le
  rw [← hnum] at hle
  exact_mod_cast hle

theorem round_le_full {q : ℚ} (hq : 0 < q) : roundRat (q/(2 : ℚ)^lastBit q) ≤ 2^53 := by
  have hpow : (0 : ℚ) < (2 : ℚ)^lastBit q := by positivity
  have hhigh : q/(2 : ℚ)^lastBit q ≤ ((2^53 : ℕ) : ℚ) := by
    rw [div_le_iff₀ hpow]
    have hlt := Int.lt_zpow_succ_log_self (b := 2) (by norm_num) q
    have hle : (2 : ℚ)^(Int.log 2 q+1) ≤ 2^53*(2 : ℚ)^lastBit q := by
      rw [show (2 : ℚ)^53 = (2 : ℚ)^(53 : ℤ) by norm_cast,← zpow_add₀ (by norm_num)]
      apply zpow_le_zpow_right₀ (by norm_num)
      have := le_max_left (Int.log 2 q-52) (-1074)
      unfold lastBit
      omega
    push_cast at hlt ⊢
    exact (hlt.trans_le hle).le
  exact roundRat_le (by positivity) hhigh

theorem full_le_round {q : ℚ} (hq : 0 < q) (hne : lastBit q ≠ -1074) : 2^52 ≤ roundRat (q/(2 : ℚ)^lastBit q) := by
  have hpow : (0 : ℚ) < (2 : ℚ)^lastBit q := by positivity
  have heq : lastBit q = Int.log 2 q-52 := by
    unfold lastBit at hne ⊢
    omega
  apply le_roundRat (by positivity)
  rw [le_div_iff₀ hpow]
  have hle := Int.zpow_log_le_self (b := 2) (by norm_num) hq
  have hsplit : (2 : ℚ)^Int.log 2 q = 2^52*(2 : ℚ)^lastBit q := by
    rw [heq,show (2 : ℚ)^52 = (2 : ℚ)^(52 : ℤ) by norm_cast,← zpow_add₀ (by norm_num)]
    congr 1
    ring
  push_cast at hle ⊢
  rwa [hsplit] at hle

theorem readRat_canonical {q : ℚ} (hq : 0 < q) {m : ℕ} {e : ℤ} (h : readRat q = some (m,e)) (neg : Bool) :
    Canonical ⟨neg,m,e⟩ := by
  have hlast : -1074 ≤ lastBit q := le_max_right _ _
  have hmax := round_le_full hq
  unfold readRat at h
  simp only at h
  split_ifs at h with h53 h971 h971
  · cases h
    exact ⟨by norm_num,by simp only; omega,by simp only; omega,.inr (by simp)⟩
  · cases h
    refine ⟨by simp only; omega,by simp only; omega,by simp only; omega,?_⟩
    by_cases hne : lastBit q = -1074
    · exact .inl hne
    · exact .inr (full_le_round hq hne)

theorem ofLiteral_canonical {l : Literal} {x : Binary64} (h : ofLiteral l = some x) : Canonical x := by
  obtain ⟨neg,c,e⟩ := l
  by_cases hc : c = 0
  · subst hc
    simp only [ofLiteral,if_true] at h
    cases h
    exact ⟨by norm_num,by norm_num,le_rfl,.inl rfl⟩
  · rw [ofLiteral_eq hc] at h
    obtain ⟨⟨m,e'⟩,hr,rfl⟩ := Option.map_eq_some_iff.mp h
    have hpos : (0 : ℚ) < c*(10 : ℚ)^e := by
      have : (0 : ℚ) < c := by exact_mod_cast Nat.pos_of_ne_zero hc
      positivity
    exact readRat_canonical hpos hr neg

theorem readRat_exact {x : Binary64} (hx : Canonical x) (hm : x.mant ≠ 0) :
    readRat (x.mant*(2 : ℚ)^x.exp) = some (x.mant,x.exp) := by
  have hpos : (0 : ℚ) < x.mant := by exact_mod_cast Nat.pos_of_ne_zero hm
  have hv : (0 : ℚ) < x.mant*(2 : ℚ)^x.exp := by positivity
  have hlog : Int.log 2 ((x.mant : ℚ)*(2 : ℚ)^x.exp) < 53+x.exp := by
    rw [← Int.lt_zpow_iff_log_lt (by norm_num) hv]
    push_cast
    rw [zpow_add₀ (by norm_num)]
    refine mul_lt_mul_of_pos_right ?_ (by positivity)
    have := hx.mant_lt
    exact_mod_cast this
  have hlast : lastBit (x.mant*(2 : ℚ)^x.exp) = x.exp := by
    unfold lastBit
    rcases hx.full with hmin | hfull
    · omega
    · have hge : 52+x.exp ≤ Int.log 2 ((x.mant : ℚ)*(2 : ℚ)^x.exp) := by
        rw [← Int.zpow_le_iff_le_log (by norm_num) hv]
        push_cast
        rw [zpow_add₀ (by norm_num)]
        refine mul_le_mul_of_nonneg_right ?_ (by positivity)
        exact_mod_cast hfull
      have hlow := hx.low
      omega
  have hdiv : (x.mant : ℚ)*(2 : ℚ)^x.exp/(2 : ℚ)^x.exp = x.mant := by
    field_simp
  unfold readRat
  simp only [hlast,hdiv,roundRat_natCast]
  have hlt := hx.mant_lt
  have hle := hx.exp_le
  have hne : x.mant ≠ 2^53 := by omega
  simp only [if_neg hne]
  rw [if_neg (by omega)]

theorem lt_pow_decimals (n : ℕ) : n < 10^decimals n := by
  have h := Nat.length_toDigits_le_iff (b := 10) (n := n) (k := decimals n) (by norm_num) Nat.length_toDigits_pos
  exact h.mp le_rfl

theorem pow_le_of_decimals {n : ℕ} (hn : 0 < n) : 10^(decimals n-1) ≤ n := by
  by_cases hone : decimals n = 1
  · rw [hone]
    simpa using Nat.one_le_iff_ne_zero.mpr hn.ne'
  · have hpos : 0 < decimals n := Nat.length_toDigits_pos
    have h := Nat.length_toDigits_le_iff (b := 10) (n := n) (k := decimals n-1) (by norm_num) (by omega)
    by_contra hlt
    have hle : decimals n ≤ decimals n-1 := h.mpr (by omega)
    omega

theorem decimals_eq {n k : ℕ} (hk : 0 < k) (hlow : 10^(k-1) ≤ n) (hhigh : n < 10^k) : decimals n = k := by
  have hle : decimals n ≤ k := (Nat.length_toDigits_le_iff (by norm_num) hk).mpr hhigh
  have hlt : 10^(k-1) < 10^decimals n := hlow.trans_lt (lt_pow_decimals n)
  have hgt := (Nat.pow_lt_pow_iff_right (by norm_num)).mp hlt
  omega

theorem decimalPoint_bounds {n d : ℕ} (hn : 0 < n) (hd : 0 < d) :
    (10 : ℚ)^(decimalPoint n d-1) ≤ (n : ℚ)/d ∧ (n : ℚ)/d < (10 : ℚ)^decimalPoint n d := by
  have hd' : (0 : ℚ) < d := by exact_mod_cast hd
  have hn' : (0 : ℚ) < n := by exact_mod_cast hn
  unfold decimalPoint
  split_ifs with hle
  · have hq : 0 < n/d := Nat.div_pos hle hd
    have hpos : 0 < decimals (n/d) := Nat.length_toDigits_pos
    have hlow := pow_le_of_decimals hq
    have hhigh := lt_pow_decimals (n/d)
    have hsub : ((decimals (n/d) : ℕ) : ℤ)-1 = ((decimals (n/d)-1 : ℕ) : ℤ) := by omega
    constructor
    · rw [hsub,zpow_natCast,le_div_iff₀ hd']
      have : 10^(decimals (n/d)-1)*d ≤ n := (Nat.le_div_iff_mul_le hd).mp hlow
      exact_mod_cast this
    · rw [zpow_natCast,div_lt_iff₀ hd']
      have : n < 10^decimals (n/d)*d := (Nat.div_lt_iff_lt_mul hd).mp hhigh
      exact_mod_cast this
  · have hq : 0 < (d-1)/n := Nat.div_pos (by omega) hn
    have hpos : 0 < decimals ((d-1)/n) := Nat.length_toDigits_pos
    have hlow := (Nat.le_div_iff_mul_le hn).mp (pow_le_of_decimals hq)
    have hhigh := (Nat.div_lt_iff_lt_mul hn).mp (lt_pow_decimals ((d-1)/n))
    constructor
    · have hz : (10 : ℚ)^(1-(decimals ((d-1)/n) : ℤ)-1) = ((10 : ℚ)^decimals ((d-1)/n))⁻¹ := by
        rw [← zpow_natCast,← zpow_neg]
        congr 1
        ring
      rw [hz,le_div_iff₀ hd',inv_mul_le_iff₀ (by positivity)]
      have : d ≤ 10^decimals ((d-1)/n)*n := by omega
      exact_mod_cast this
    · have hz : (10 : ℚ)^(1-(decimals ((d-1)/n) : ℤ)) = ((10 : ℚ)^(decimals ((d-1)/n)-1))⁻¹ := by
        rw [← zpow_natCast,← zpow_neg]
        congr 1
        omega
      rw [hz,div_lt_iff₀ hd',lt_inv_mul_iff₀ (by positivity)]
      have : 10^(decimals ((d-1)/n)-1)*n < d := by omega
      exact_mod_cast this

/-- The value of digits with the point after the first `point` of them. -/
def decimalValue (r : ℕ × ℤ) : ℚ := r.1*(10 : ℚ)^(r.2-decimals r.1)

def Reads (x : Binary64) (r : ℕ × ℤ) : Prop := 0 < r.1 ∧ readRat (decimalValue r) = some (x.mant,x.exp)

theorem readRat_of_ofLiteral {x : Binary64} (hm : x.mant ≠ 0) {s : ℕ} {e : ℤ} (h : ofLiteral ⟨x.neg,s,e⟩ = some x) :
    0 < s ∧ readRat (s*(10 : ℚ)^e) = some (x.mant,x.exp) := by
  by_cases hs : s = 0
  · subst hs
    simp only [ofLiteral,if_true,Option.some.injEq] at h
    rw [← h] at hm
    exact absurd rfl hm
  · rw [ofLiteral_eq hs] at h
    obtain ⟨r,hr,hx⟩ := Option.map_eq_some_iff.mp h
    refine ⟨Nat.pos_of_ne_zero hs,?_⟩
    rw [hr,← hx]

theorem decimalValue_one (p : ℤ) : decimalValue (1,p+1) = (10 : ℚ)^p := by
  have hone : decimals 1 = 1 := rfl
  simp [decimalValue,hone]

theorem low_bounds {n d : ℕ} (hn : 0 < n) (hd : 0 < d) {k : ℕ} (hk : 0 < k) :
    10^(k-1) ≤ n*(fractionOf 10 1 (decimalPoint n d-k)).2/(d*(fractionOf 10 1 (decimalPoint n d-k)).1) ∧
      n*(fractionOf 10 1 (decimalPoint n d-k)).2/(d*(fractionOf 10 1 (decimalPoint n d-k)).1) < 10^k := by
  obtain ⟨hlow,hhigh⟩ := decimalPoint_bounds hn hd
  generalize decimalPoint n d = p at hlow hhigh
  obtain ⟨hu₂,hu⟩ := fractionOf_value (b := 10) (by norm_num) 1 (p-k)
  generalize fractionOf 10 1 (p-k) = u at hu₂ hu
  have hd' : (0 : ℚ) < d := by exact_mod_cast hd
  have hu₂' : (0 : ℚ) < u.2 := by exact_mod_cast hu₂
  have hunit : (u.1 : ℚ) = (10 : ℚ)^(p-k)*u.2 := by
    rw [div_eq_iff hu₂'.ne'] at hu
    rw [hu]
    push_cast
    ring
  have hu₁ : 0 < u.1 := by
    have : (0 : ℚ) < u.1 := by
      rw [hunit]
      positivity
    exact_mod_cast this
  have hdu : 0 < d*u.1 := Nat.mul_pos hd hu₁
  constructor
  · rw [Nat.le_div_iff_mul_le hdu]
    have hpow : (10 : ℚ)^(p-1) = (10 : ℚ)^(k-1)*(10 : ℚ)^(p-k) := by
      rw [← zpow_natCast (10 : ℚ) (k-1),← zpow_add₀ (by norm_num)]
      congr 1
      omega
    rw [le_div_iff₀ hd',hpow] at hlow
    have hgoal : (10 : ℚ)^(k-1)*(d*u.1) ≤ n*u.2 := by
      calc (10 : ℚ)^(k-1)*(d*u.1) = (10 : ℚ)^(k-1)*(10 : ℚ)^(p-k)*d*u.2 := by rw [hunit]; ring
        _ ≤ n*u.2 := mul_le_mul_of_nonneg_right hlow hu₂'.le
    exact_mod_cast hgoal
  · rw [Nat.div_lt_iff_lt_mul hdu]
    have hpow : (10 : ℚ)^p = (10 : ℚ)^k*(10 : ℚ)^(p-k) := by
      rw [← zpow_natCast (10 : ℚ) k,← zpow_add₀ (by norm_num)]
      congr 1
      omega
    rw [div_lt_iff₀ hd',hpow] at hhigh
    have hgoal : (n : ℚ)*u.2 < (10 : ℚ)^k*(d*u.1) := by
      calc (n : ℚ)*u.2 < (10 : ℚ)^k*(10 : ℚ)^(p-k)*d*u.2 := mul_lt_mul_of_pos_right hhigh hu₂'
        _ = (10 : ℚ)^k*(d*u.1) := by rw [hunit]; ring
    exact_mod_cast hgoal

theorem reads_pick {x : Binary64} (hm : x.mant ≠ 0) {k s : ℕ} {p : ℤ} (hk : 0 < k) (hlow : 10^(k-1) ≤ s)
    (hhigh : s ≤ 10^k) (h : ofLiteral ⟨x.neg,s,p-k⟩ = some x) : Reads x (if s = 10^k then (1,p+1) else (s,p)) := by
  obtain ⟨hs,hread⟩ := readRat_of_ofLiteral hm h
  split_ifs with hfull
  · refine ⟨Nat.one_pos,?_⟩
    have hval : ((10^k : ℕ) : ℚ)*(10 : ℚ)^(p-k) = (10 : ℚ)^p := by
      push_cast
      rw [← zpow_natCast (10 : ℚ) k,← zpow_add₀ (by norm_num)]
      congr 1
      omega
    rw [hfull,hval] at hread
    rw [decimalValue_one,hread]
  · refine ⟨hs,?_⟩
    have hdec : decimals s = k := decimals_eq hk hlow (by omega)
    rw [decimalValue]
    simp only [hdec]
    exact hread

theorem reads_ofDigits {x : Binary64} (hm : x.mant ≠ 0) {k : ℕ} (hk : 0 < k) {r : ℕ × ℤ}
    (h : ofDigits x k = some r) : Reads x r := by
  obtain ⟨hd,hv⟩ := fractionOf_value (b := 2) (by norm_num) x.mant x.exp
  have hpos : (0 : ℚ) < x.mant := by exact_mod_cast Nat.pos_of_ne_zero hm
  have hn : 0 < (fractionOf 2 x.mant x.exp).1 := by
    have hval : (0 : ℚ) < ((fractionOf 2 x.mant x.exp).1 : ℚ)/(fractionOf 2 x.mant x.exp).2 := by
      rw [hv]
      positivity
    by_contra hzero
    have hz : (fractionOf 2 x.mant x.exp).1 = 0 := by omega
    simp [hz] at hval
  have hbounds := low_bounds hn hd hk
  unfold ofDigits at h
  simp only at h
  generalize decimalPoint (fractionOf 2 x.mant x.exp).1 (fractionOf 2 x.mant x.exp).2 = p at h hbounds
  generalize (fractionOf 2 x.mant x.exp).1*(fractionOf 10 1 (p-k)).2/
    ((fractionOf 2 x.mant x.exp).2*(fractionOf 10 1 (p-k)).1) = low at h hbounds
  have hpick : ∀ s, (if s = 10^k then some ((1 : ℕ),p+1) else some (s,p)) = some r →
      r = if s = 10^k then (1,p+1) else (s,p) := by
    intro s hs
    split_ifs at hs ⊢ <;> exact (Option.some.inj hs).symm
  split at h
  · rename_i hc
    rw [Bool.and_eq_true,decide_eq_true_eq] at hc
    rw [hpick low h]
    exact reads_pick hm hk hbounds.1 hbounds.2.le hc.1
  · split at h
    · rename_i hc
      rw [decide_eq_true_eq] at hc
      rw [hpick (low+1) h]
      exact reads_pick hm hk (hbounds.1.trans (Nat.le_succ _)) hbounds.2 hc
    · cases h

theorem reads_shortest {x : Binary64} (hx : Canonical x) (hm : x.mant ≠ 0) : Reads x (shortest x) := by
  unfold shortest
  cases hfind : (List.range 17).findSome? fun i => ofDigits x (i+1) with
  | some r =>
    obtain ⟨i,-,hi⟩ := List.exists_of_findSome?_eq_some hfind
    exact reads_ofDigits hm (Nat.succ_pos i) hi
  | none =>
    have hexact := readRat_exact hx hm
    have hvalue : ∀ (n : ℕ) (e : ℤ), decimalValue (n,decimals n+e) = n*(10 : ℚ)^e := by
      intro n e
      simp [decimalValue]
    simp only
    unfold Reads
    rw [hvalue]
    split_ifs with he
    · refine ⟨Nat.mul_pos (Nat.pos_of_ne_zero hm) (by positivity),?_⟩
      rw [← hexact]
      congr 1
      push_cast
      rw [mul_one,← zpow_natCast,Int.toNat_of_nonneg he]
    · refine ⟨Nat.mul_pos (Nat.pos_of_ne_zero hm) (by positivity),?_⟩
      rw [← hexact]
      congr 1
      have hpow : (2 : ℚ)^x.exp = (5 : ℚ)^(-x.exp)*(10 : ℚ)^x.exp := by
        rw [show (10 : ℚ) = 5*2 by norm_num,mul_zpow,← mul_assoc,← zpow_add₀ (by norm_num)]
        simp
      push_cast
      rw [hpow,← zpow_natCast,Int.toNat_of_nonneg (by omega),mul_assoc]

/-- The value of a text of digits with a point somewhere. -/
def pointed (t : List Char) : ℚ :=
  Nat.ofDigitChars 10 (t.takeWhile (· ≠ '.') ++ (t.dropWhile (· ≠ '.')).drop 1) 0*
    (10 : ℚ)^(-(((t.dropWhile (· ≠ '.')).drop 1).length : ℤ))

def exponentValue : List Char → ℤ
  | '-' :: ds => -(Nat.ofDigitChars 10 ds 0 : ℤ)
  | _ :: ds => Nat.ofDigitChars 10 ds 0
  | [] => 0

def textValue (t : List Char) : ℚ :=
  pointed (t.takeWhile (· ≠ 'e'))*(10 : ℚ)^exponentValue ((t.dropWhile (· ≠ 'e')).drop 1)

theorem divide_none {d : Char} {t : List Char} (h : d ∉ t) :
    t.takeWhile (· ≠ d) = t ∧ t.dropWhile (· ≠ d) = [] := by
  have hall : ∀ c ∈ t, decide (c ≠ d) = true := by
    intro c hc
    rw [decide_eq_true_eq]
    rintro rfl
    exact h hc
  exact ⟨List.takeWhile_eq_self_iff.mpr hall,List.dropWhile_eq_nil_iff.mpr hall⟩

theorem not_mem_digits {ds : List Char} (hds : ∀ c ∈ ds, c.isDigit = true) {d : Char} (hd : d.isDigit = false) :
    d ∉ ds := by
  intro h
  rw [hds d h] at hd
  cases hd

theorem pointed_digits {ds : List Char} (hds : ∀ c ∈ ds, c.isDigit = true) :
    pointed ds = (Nat.ofDigitChars 10 ds 0 : ℕ) := by
  obtain ⟨htake,hdrop⟩ := divide_none (not_mem_digits hds (d := '.') (by decide))
  rw [pointed,htake,hdrop]
  simp

theorem pointed_point {ds : List Char} (hds : ∀ c ∈ ds, c.isDigit = true) (fs : List Char) :
    pointed (ds ++ '.' :: fs) = (Nat.ofDigitChars 10 (ds ++ fs) 0 : ℕ)*(10 : ℚ)^(-(fs.length : ℤ)) := by
  obtain ⟨htake,hdrop⟩ := Hex.divide_at (not_mem_digits hds (d := '.') (by decide)) fs
  rw [pointed,htake,hdrop]
  simp

theorem textValue_plain {t : List Char} (ht : 'e' ∉ t) : textValue t = pointed t := by
  obtain ⟨htake,hdrop⟩ := divide_none ht
  rw [textValue,htake,hdrop]
  simp [exponentValue]

theorem exponentValue_exponentText (e : ℤ) : exponentValue (exponentText e) = e := by
  unfold exponentText
  split_ifs with he
  · rw [exponentValue,Nat.ofDigitChars_ten_toDigits]
    omega
  · rw [exponentValue,Nat.ofDigitChars_ten_toDigits]
    · omega
    · decide

theorem textValue_exponent {t : List Char} (ht : 'e' ∉ t) (e : ℤ) :
    textValue (t ++ 'e' :: exponentText e) = pointed t*(10 : ℚ)^e := by
  obtain ⟨htake,hdrop⟩ := Hex.divide_at ht (exponentText e)
  rw [textValue,htake,hdrop,List.drop_one,List.tail_cons,exponentValue_exponentText]

theorem not_mem_point {a b : List Char} (ha : ∀ c ∈ a, c.isDigit = true) (hb : ∀ c ∈ b, c.isDigit = true) :
    'e' ∉ a ++ '.' :: b := by
  intro he
  rcases List.mem_append.mp he with he | he
  · exact not_mem_digits ha (by decide) he
  · rcases List.mem_cons.mp he with he | he
    · cases he
    · exact not_mem_digits hb (by decide) he

theorem textValue_layout (n : ℕ) (p : ℤ) : textValue (layout (Nat.toDigits 10 n) p) = decimalValue (n,p) := by
  have hds : ∀ c ∈ Nat.toDigits 10 n, c.isDigit = true := fun c hc => (isNumberChar_of_mem_toDigits hc).2
  have hlen : (Nat.toDigits 10 n).length = decimals n := rfl
  have hval : Nat.ofDigitChars 10 (Nat.toDigits 10 n) 0 = n := Nat.ofDigitChars_ten_toDigits
  have hpos : 0 < decimals n := Nat.length_toDigits_pos
  generalize Nat.toDigits 10 n = ds at hds hlen hval
  have hzeros : ∀ k, ∀ c ∈ List.replicate k '0', c.isDigit = true := by
    intro k c hc
    rw [List.eq_of_mem_replicate hc]
    rfl
  have htake : ∀ k, ∀ c ∈ ds.take k, c.isDigit = true := fun k c hc => hds c (List.mem_of_mem_take hc)
  have hdrop : ∀ k, ∀ c ∈ ds.drop k, c.isDigit = true := fun k c hc => hds c (List.mem_of_mem_drop hc)
  unfold layout decimalValue
  simp only [hlen]
  split_ifs with h₁ h₂ h₃ h₄
  · have hall : ∀ c ∈ ds ++ List.replicate (p-decimals n).toNat '0', c.isDigit = true := by
      intro c hc
      rcases List.mem_append.mp hc with hc | hc
      · exact hds c hc
      · exact hzeros _ c hc
    rw [textValue_plain (not_mem_digits hall (by decide)),pointed_digits hall,Nat.ofDigitChars_append,hval,Nat.ofDigitChars_replicate_zero]
    push_cast
    rw [mul_comm,← zpow_natCast,Int.toNat_of_nonneg (by omega)]
  · rw [textValue_plain (not_mem_point (htake _) (hdrop _)),pointed_point (htake _),List.take_append_drop,hval,
      List.length_drop,hlen]
    congr 2
    omega
  · have hzero : ∀ c ∈ ['0'], c.isDigit = true := by simp
    have hall : ∀ c ∈ List.replicate (-p).toNat '0' ++ ds, c.isDigit = true := by
      intro c hc
      rcases List.mem_append.mp hc with hc | hc
      · exact hzeros _ c hc
      · exact hds c hc
    change textValue (['0'] ++ '.' :: (List.replicate (-p).toNat '0' ++ ds)) = _
    rw [textValue_plain (not_mem_point hzero hall),pointed_point hzero,Nat.ofDigitChars_append,Nat.ofDigitChars_append,
      Nat.ofDigitChars_replicate_zero]
    have hinit : Nat.ofDigitChars 10 ['0'] 0 = 0 := rfl
    rw [hinit,Nat.mul_zero,hval,List.length_append,List.length_replicate,hlen]
    congr 2
    push_cast
    omega
  · have hone : ∀ c ∈ ds.take 1, c.isDigit = true := htake 1
    rw [List.append_nil,textValue_exponent (not_mem_digits hone (by decide)),pointed_digits hone,
      List.take_of_length_le (by omega),hval]
    congr 2
    omega
  · rw [textValue_exponent (not_mem_point (htake 1) (hdrop 1)),pointed_point (htake 1),List.take_append_drop,hval,
      List.length_drop,hlen,mul_assoc,← zpow_add₀ (by norm_num)]
    congr 2
    omega

theorem decimalValue_pos {r : ℕ × ℤ} (h : 0 < r.1) : 0 < decimalValue r := by
  have : (0 : ℚ) < r.1 := by exact_mod_cast h
  unfold decimalValue
  positivity

theorem textValue_magnitude {x : Binary64} (hm : x.mant ≠ 0) :
    textValue x.magnitude = decimalValue (shortest x) := by
  rw [magnitude,if_neg hm,textValue_layout]

theorem ofLiteral_sign (a b : Bool) (s : ℕ) (e : ℤ) (m : ℕ) (e' : ℤ) :
    ofLiteral ⟨a,s,e⟩ = some ⟨a,m,e'⟩ ↔ ofLiteral ⟨b,s,e⟩ = some ⟨b,m,e'⟩ := by
  by_cases hs : s = 0
  · simp [ofLiteral,hs]
  · rw [ofLiteral_eq hs,ofLiteral_eq hs]
    cases readRat (s*(10 : ℚ)^e) <;> simp

theorem magnitude_sign (a b : Bool) (m : ℕ) (e : ℤ) : magnitude ⟨a,m,e⟩ = magnitude ⟨b,m,e⟩ := by
  have hdigits : ∀ k, ofDigits ⟨a,m,e⟩ k = ofDigits ⟨b,m,e⟩ k := by
    intro k
    unfold ofDigits
    simp only [ofLiteral_sign a b]
  have hshort : shortest ⟨a,m,e⟩ = shortest ⟨b,m,e⟩ := by
    unfold shortest
    simp only [hdigits]
  unfold magnitude
  rw [hshort]

theorem magnitude_eq_iff {x y : Binary64} (hx : Canonical x) (hy : Canonical y) :
    x.magnitude = y.magnitude ↔ x.mant = y.mant ∧ x.exp = y.exp := by
  have hzero : ∀ z : Binary64, Canonical z → z.mant = 0 → z.exp = -1074 := by
    intro z hz hm
    rcases hz.full with h | h
    · exact h
    · omega
  have hpos : ∀ z : Binary64, Canonical z → z.mant ≠ 0 → 0 < textValue z.magnitude := by
    intro z hz hm
    rw [textValue_magnitude hm]
    exact decimalValue_pos (reads_shortest hz hm).1
  have hnil : ∀ z : Binary64, z.mant = 0 → textValue z.magnitude = 0 := by
    intro z hm
    have hdigit : ∀ c ∈ ['0'], c.isDigit = true := by simp
    rw [magnitude,if_pos hm,textValue_plain (not_mem_digits hdigit (by decide)),pointed_digits hdigit]
    rfl
  constructor
  · intro h
    by_cases hmx : x.mant = 0
    · by_cases hmy : y.mant = 0
      · rw [hmx,hmy,hzero x hx hmx,hzero y hy hmy]
        exact ⟨rfl,rfl⟩
      · have := hpos y hy hmy
        rw [← h,hnil x hmx] at this
        exact absurd this (lt_irrefl 0)
    · by_cases hmy : y.mant = 0
      · have := hpos x hx hmx
        rw [h,hnil y hmy] at this
        exact absurd this (lt_irrefl 0)
      · have hval : decimalValue (shortest x) = decimalValue (shortest y) := by
          rw [← textValue_magnitude hmx,← textValue_magnitude hmy,h]
        have hread : some (x.mant,x.exp) = some (y.mant,y.exp) := by
          rw [← (reads_shortest hx hmx).2,← (reads_shortest hy hmy).2,hval]
        simpa using hread
  · rintro ⟨hm,he⟩
    obtain ⟨a,m,e⟩ := x
    obtain ⟨b,m',e'⟩ := y
    obtain rfl : m = m' := hm
    obtain rfl : e = e' := he
    exact magnitude_sign a b m e

end Binary64
end Clearvoiance
