import Clearvoiance.Json

/-! Finite binary64 numbers: the one nearest to a decimal literal, and the shortest decimal text
that is read back as the same number, laid out as ECMAScript lays out numbers. -/
namespace Clearvoiance

/-- `mant * 2^exp` up to its sign. -/
structure Binary64 where
  neg : Bool
  mant : ℕ
  exp : ℤ
  deriving DecidableEq

namespace Binary64

open Json

/-- `n/d` to the nearest integer, ties to even. -/
def roundHalfEven (n d : ℕ) : ℕ :=
  let q := n/d
  let r := n % d
  if 2*r < d || (2*r = d && q % 2 = 0) then q else q+1

/-- Numerator and denominator of `c * b^e`. -/
def fractionOf (b c : ℕ) (e : ℤ) : ℕ × ℕ := if 0 ≤ e then (c*b^e.toNat,1) else (c,b^(-e).toNat)

/-- Numerator and denominator of `n/d` in units of `2^e`. -/
def scaled (n d : ℕ) (e : ℤ) : ℕ × ℕ := if 0 ≤ e then (n,d*2^e.toNat) else (n*2^(-e).toNat,d)

/-- The exponent that leaves 53 bits before the point, or the least one there is. -/
def exponentFor (n d : ℕ) : ℤ :=
  let e : ℤ := (Nat.log2 n : ℤ)-Nat.log2 d-52
  let (n',d') := scaled n d e
  max (if n' < 2^52*d' then e-1 else e) (-1074)

/-- The number nearest to a literal; `none` if it is past the largest finite number. -/
def ofLiteral (l : Literal) : Option Binary64 :=
  if l.coeff = 0 then some ⟨l.neg,0,-1074⟩
  else
    let (n,d) := fractionOf 10 l.coeff l.exp10
    let e := exponentFor n d
    let (n',d') := scaled n d e
    let m := roundHalfEven n' d'
    let (m,e) := if m = 2^53 then (2^52,e+1) else (m,e)
    if 971 < e then none else some ⟨l.neg,m,e⟩

def decimals (n : ℕ) : ℕ := (Nat.toDigits 10 n).length

/-- The `p` with `10^(p-1) ≤ n/d < 10^p`. -/
def decimalPoint (n d : ℕ) : ℤ := if d ≤ n then decimals (n/d) else 1-decimals ((d-1)/n)

/-- A decimal of `k` digits that is read as `x`, the closer one if there are two: its digits as a
number and the place of its point. -/
def ofDigits (x : Binary64) (k : ℕ) : Option (ℕ × ℤ) :=
  let (n,d) := fractionOf 2 x.mant x.exp
  let point := decimalPoint n d
  let unit := fractionOf 10 1 (point-k)
  let low := n*unit.2/(d*unit.1)
  let reads (s : ℕ) : Bool := ofLiteral ⟨x.neg,s,point-k⟩ = some x
  let below := n*unit.2-low*(d*unit.1)
  let above := (low+1)*(d*unit.1)-n*unit.2
  let pick (s : ℕ) : Option (ℕ × ℤ) := if s = 10^k then some (1,point+1) else some (s,point)
  if reads low && (!reads (low+1) || below < above || (below = above && low % 2 = 0)) then pick low
  else if reads (low+1) then pick (low+1)
  else none

/-- The shortest digits that are read as `x`, or else all its digits. -/
def shortest (x : Binary64) : ℕ × ℤ :=
  match (List.range 17).findSome? fun i => ofDigits x (i+1) with
  | some r => r
  | none =>
    let all := if 0 ≤ x.exp then (x.mant*2^x.exp.toNat,(0 : ℤ)) else (x.mant*5^(-x.exp).toNat,x.exp)
    (all.1,decimals all.1+all.2)

def exponentText (e : ℤ) : List Char := (if e < 0 then '-' else '+') :: Nat.toDigits 10 e.natAbs

/-- Digits with the point after the first `point` of them. -/
def layout (ds : List Char) (point : ℤ) : List Char :=
  let k : ℤ := ds.length
  if k ≤ point ∧ point ≤ 21 then ds ++ List.replicate (point-k).toNat '0'
  else if 0 < point ∧ point ≤ 21 then ds.take point.toNat ++ '.' :: ds.drop point.toNat
  else if -6 < point ∧ point ≤ 0 then '0' :: '.' :: List.replicate (-point).toNat '0' ++ ds
  else ds.take 1 ++ (if ds.length = 1 then [] else '.' :: ds.drop 1) ++ 'e' :: exponentText (point-1)

def magnitude (x : Binary64) : List Char :=
  if x.mant = 0 then ['0'] else layout (Nat.toDigits 10 (shortest x).1) (shortest x).2

theorem isNumberChar_of_mem_toDigits {n : ℕ} {c : Char} (h : c ∈ Nat.toDigits 10 n) :
    isNumberChar c = true ∧ c.isDigit = true := by
  have hd := Nat.isDigit_of_mem_toDigits (by decide) (by decide) h
  simp [isNumberChar,hd]

theorem isNumberChar_of_mem_exponentText {e : ℤ} {c : Char} (h : c ∈ exponentText e) : isNumberChar c = true := by
  rcases List.mem_cons.mp h with rfl | h
  · split_ifs <;> rfl
  · exact (isNumberChar_of_mem_toDigits h).1

theorem isNumberChar_of_mem_layout {ds : List Char} (hds : ∀ c ∈ ds, isNumberChar c = true) (point : ℤ) {c : Char}
    (h : c ∈ layout ds point) : isNumberChar c = true := by
  have hzeros : ∀ n, c ∈ List.replicate n '0' → isNumberChar c = true := by
    intro n h
    rw [List.eq_of_mem_replicate h]
    rfl
  have htake : ∀ n, c ∈ ds.take n → isNumberChar c = true := fun n h => hds c (List.mem_of_mem_take h)
  have hdrop : ∀ n, c ∈ '.' :: ds.drop n → isNumberChar c = true := by
    intro n h
    rcases List.mem_cons.mp h with rfl | h
    · rfl
    · exact hds c (List.mem_of_mem_drop h)
  have hexp : ∀ e, c ∈ 'e' :: exponentText e → isNumberChar c = true := by
    intro e h
    rcases List.mem_cons.mp h with rfl | h
    · rfl
    · exact isNumberChar_of_mem_exponentText h
  unfold layout at h
  simp only at h
  split_ifs at h
  · rcases List.mem_append.mp h with h | h
    · exact hds c h
    · exact hzeros _ h
  · rcases List.mem_append.mp h with h | h
    · exact htake _ h
    · exact hdrop _ h
  · simp only [List.cons_append,List.mem_cons,List.mem_append] at h
    rcases h with rfl | rfl | h | h
    · rfl
    · rfl
    · exact hzeros _ h
    · exact hds c h
  · rcases List.mem_append.mp h with h | h
    · exact htake 1 (by simpa using h)
    · exact hexp _ h
  · rcases List.mem_append.mp h with h | h
    · rcases List.mem_append.mp h with h | h
      · exact htake 1 h
      · exact hdrop 1 h
    · exact hexp _ h

theorem layout_start {ds : List Char} (hne : ds ≠ []) (hds : ∀ c ∈ ds, c.isDigit = true) (point : ℤ) :
    ∃ c t, layout ds point = c :: t ∧ c.isDigit = true := by
  obtain ⟨d,ds,rfl⟩ := List.exists_cons_of_ne_nil hne
  have hd := hds d (by simp)
  unfold layout
  simp only
  split_ifs with _ hpos
  · exact ⟨d,_,rfl,hd⟩
  · obtain ⟨n,hn⟩ : ∃ n, point.toNat = n+1 := ⟨point.toNat-1,by omega⟩
    rw [hn]
    exact ⟨d,_,rfl,hd⟩
  · exact ⟨'0',_,rfl,rfl⟩
  · exact ⟨d,_,rfl,hd⟩
  · exact ⟨d,_,rfl,hd⟩

theorem magnitude_start (x : Binary64) : ∃ c t, magnitude x = c :: t ∧ c.isDigit = true := by
  unfold magnitude
  split_ifs
  · exact ⟨'0',_,rfl,rfl⟩
  · apply layout_start
    · exact Nat.toDigits_ne_nil
    · intro c hc
      exact (isNumberChar_of_mem_toDigits hc).2

theorem isNumberChar_of_mem_magnitude {x : Binary64} {c : Char} (h : c ∈ magnitude x) : isNumberChar c = true := by
  unfold magnitude at h
  split_ifs at h
  · rw [List.mem_singleton.mp h]
    rfl
  · exact isNumberChar_of_mem_layout (fun c hc => (isNumberChar_of_mem_toDigits hc).1) _ h

def signed (neg : Bool) (t : List Char) : List Char := if neg then '-' :: t else t

theorem signed_text (neg : Bool) (x : Binary64) : NumberText (signed neg (magnitude x)) := by
  obtain ⟨c,t,ht,hc⟩ := magnitude_start x
  cases neg with
  | false => exact ⟨⟨c,t,ht,.inl hc⟩,fun d hd => isNumberChar_of_mem_magnitude hd⟩
  | true =>
    refine ⟨⟨'-',_,rfl,.inr rfl⟩,?_⟩
    intro d hd
    rcases List.mem_cons.mp hd with rfl | hd
    · rfl
    · exact isNumberChar_of_mem_magnitude hd

theorem signed_eq_iff (a b : Bool) (x y : Binary64) :
    signed a (magnitude x) = signed b (magnitude y) ↔ a = b ∧ magnitude x = magnitude y := by
  obtain ⟨c,t,hx,hc⟩ := magnitude_start x
  obtain ⟨d,u,hy,hd⟩ := magnitude_start y
  have hne : ∀ {e : Char}, e.isDigit = true → e ≠ '-' := by
    rintro e he rfl
    cases he
  cases a <;> cases b <;> simp [signed,hx,hy,hne hc,(hne hd).symm]

end Binary64
end Clearvoiance
