import Clearvoiance.Binary64Order
import Clearvoiance.ExactIntegers
import Clearvoiance.Mutator
import Clearvoiance.Replay

/-! The latency percentiles of a replay.  They are read off the sorted latencies of the summary at indices that are
computed from the length alone, and reported in milliseconds. -/
namespace Clearvoiance

namespace SignatureEquality

open Binary64

/-- The order of numbers, with the infinite ones at its ends. -/
def Double.AtMost : Double → Double → Prop
  | .infinite true,_ => True
  | .finite _,.infinite neg => neg = false
  | .finite x,.finite y => value x.val ≤ value y.val
  | .infinite false,.infinite neg => neg = false
  | .infinite false,.finite _ => False

instance : LE Double := ⟨Double.AtMost⟩

instance : (x y : Double) → Decidable (x ≤ y)
  | .infinite true,_ => .isTrue trivial
  | .finite _,.infinite neg => inferInstanceAs (Decidable (neg = false))
  | .finite x,.finite y => inferInstanceAs (Decidable (value x.val ≤ value y.val))
  | .infinite false,.infinite neg => inferInstanceAs (Decidable (neg = false))
  | .infinite false,.finite _ => .isFalse id

theorem Double.infinite_le (x : Double) : Double.infinite true ≤ x := trivial

theorem Double.le_infinite : ∀ x : Double, x ≤ Double.infinite false
  | .infinite true => trivial
  | .infinite false | .finite _ => rfl

/-- What a literal is read as, by the number nearest to its value. -/
theorem Double.ofLiteral_cases (l : Json.Literal) :
    (∃ x : Finite, Double.ofLiteral l = .finite x ∧ value x.val = nearest (exactNumber l) ∧
      |nearest (exactNumber l)| < (2 : ℚ)^(1024 : ℤ)) ∨
    (Double.ofLiteral l = .infinite true ∧ nearest (exactNumber l) ≤ -(2 : ℚ)^(1024 : ℤ)) ∨
    (Double.ofLiteral l = .infinite false ∧ (2 : ℚ)^(1024 : ℤ) ≤ nearest (exactNumber l)) := by
  rcases ofLiteral_nearest l with ⟨x,hx,hvalue,hbound⟩ | ⟨hnone,hbound⟩
  · obtain ⟨y,hy,rfl⟩ := Double.ofLiteral_finite hx
    exact .inl ⟨y,hy,hvalue,hbound⟩
  · have hinf : Double.ofLiteral l = .infinite l.neg := by
      unfold Double.ofLiteral
      split
      · rename_i z hz
        rw [hnone] at hz
        cases hz
      · rfl
    rw [hinf]
    cases hneg : l.neg
    · exact .inr (.inr ⟨rfl,by simpa [hneg] using hbound⟩)
    · refine .inr (.inl ⟨rfl,?_⟩)
      simp only [hneg,if_true] at hbound
      linarith

theorem Double.ofLiteral_le {l l' : Json.Literal} (h : exactNumber l ≤ exactNumber l') :
    Double.ofLiteral l ≤ Double.ofLiteral l' := by
  have hmono := nearest_mono h
  have hpos : (0 : ℚ) < (2 : ℚ)^(1024 : ℤ) := by positivity
  rcases Double.ofLiteral_cases l with ⟨x,hx,hvx,hbx⟩ | ⟨hx,hbx⟩ | ⟨hx,hbx⟩
  · rw [abs_lt] at hbx
    rcases Double.ofLiteral_cases l' with ⟨y,hy,hvy,-⟩ | ⟨hy,hby⟩ | ⟨hy,-⟩
    · rw [hx,hy]
      change value x.val ≤ value y.val
      rw [hvx,hvy]
      exact hmono
    · linarith [hbx.1]
    · rw [hy]
      exact Double.le_infinite _
  · rw [hx]
    exact Double.infinite_le _
  · rcases Double.ofLiteral_cases l' with ⟨y,hy,-,hby⟩ | ⟨hy,hby⟩ | ⟨hy,-⟩
    · rw [abs_lt] at hby
      linarith [hby.2]
    · generalize (2 : ℚ)^(1024 : ℤ) = u at hpos hbx hby
      linarith
    · rw [hy]
      exact Double.le_infinite _

end SignatureEquality

namespace Replay

open SignatureEquality Binary64
open Mutator (float64)

/-- A number divided by `1e6`. -/
def perMillion : Double → Double
  | .finite x => Double.ofLiteral ⟨x.val.neg,(decimalOf x.val).1.natAbs,(decimalOf x.val).2-6⟩
  | .infinite neg => .infinite neg

def milliseconds (ns : ℤ) : Double := perMillion (float64 ns)

structure ReplayMetrics where
  eventsDispatched : ℕ
  eventsFailed : ℕ
  eventsBackpressured : ℕ
  p50LatencyMs : Option Double
  p95LatencyMs : Option Double
  p99LatencyMs : Option Double
  maxLagMs : Option Double

/-- The smaller of `n-1` and `n*p/100`; the source takes it from the two as `float64` numbers. -/
def percentileIndex (p n : ℕ) : ℕ := min (n-1) (n*p/100)

def Summary.maxLagMs (s : Summary) : Option Double :=
  if 0 < s.maxLagNs then some (milliseconds s.maxLagNs) else none

/-- `none` stands for an index out of range. -/
def Summary.metrics (s : Summary) : Option ReplayMetrics :=
  let n := s.latencies.length
  if 0 < n then do
    let sorted := s.latencies.insertionSort (· ≤ ·)
    let p50 ← sorted[n*50/100]?
    let p95 ← sorted[percentileIndex 95 n]?
    let p99 ← sorted[percentileIndex 99 n]?
    return ⟨s.eventsDispatched,s.eventsFailed,s.eventsBackpressured,some (milliseconds p50),some (milliseconds p95),
      some (milliseconds p99),s.maxLagMs⟩
  else some ⟨s.eventsDispatched,s.eventsFailed,s.eventsBackpressured,none,none,none,s.maxLagMs⟩

/-- The rows that the workers record, one after the other. -/
def Summary.recordAll (s : Summary) (rows : List (ResultRow × Bool)) : Summary :=
  rows.foldl (fun s row => s.record row.1 row.2) s

section Milliseconds

theorem exactNumber_perMillion (x : Binary64) :
    exactNumber ⟨x.neg,(decimalOf x).1.natAbs,(decimalOf x).2-6⟩ = value x/10^6 := by
  have hscale : (10 : ℚ)^((decimalOf x).2-6) = (10 : ℚ)^(decimalOf x).2/10^6 := by
    rw [zpow_sub₀ (by norm_num)]
    norm_num
  have habs : ((decimalOf x).1.natAbs : ℚ)*(10 : ℚ)^(decimalOf x).2 = x.mant*(2 : ℚ)^x.exp := by
    rw [natAbs_value,decimalOf_value,abs_value]
  rw [exactNumber,absValue,hscale,value,← habs]
  ring

theorem perMillion_mono : ∀ {x y : Double}, x ≤ y → perMillion x ≤ perMillion y
  | .infinite true,_,_ => Double.infinite_le _
  | _,.infinite false,_ => Double.le_infinite _
  | .finite x,.finite y,h => by
    refine Double.ofLiteral_le ?_
    rw [exactNumber_perMillion,exactNumber_perMillion]
    exact div_le_div_of_nonneg_right h (by positivity)
  | .finite _,.infinite true,h => nomatch h
  | .infinite false,.infinite true,h => nomatch h
  | .infinite false,.finite _,h => nomatch h

theorem milliseconds_mono {a b : ℤ} (h : a ≤ b) : milliseconds a ≤ milliseconds b := by
  refine perMillion_mono (Double.ofLiteral_le ?_)
  rw [exactNumber_intLiteral,exactNumber_intLiteral]
  exact_mod_cast h

end Milliseconds

section Indices

variable {p n : ℕ}

theorem scaled_lt (hp : p < 100) (hn : 0 < n) : n*p/100 < n := by
  rw [Nat.div_lt_iff_lt_mul (by norm_num)]
  exact Nat.mul_lt_mul_of_pos_left hp hn

theorem percentileIndex_eq (hp : p < 100) (hn : 0 < n) : percentileIndex p n = n*p/100 := by
  have := scaled_lt hp hn
  unfold percentileIndex
  omega

theorem covers_index (p n : ℕ) : p*n ≤ 100*(n*p/100+1) := by
  have hdiv := Nat.div_add_mod (n*p) 100
  have hmod := Nat.mod_lt (n*p) (show 0 < 100 by norm_num)
  rw [Nat.mul_comm p n]
  omega

/-- The integer part of a `float64`. -/
def truncate : Double → ℤ
  | .finite x => if value x.val < 0 then -⌊-value x.val⌋ else ⌊value x.val⌋
  | .infinite _ => 0

/-- `int(math.Min(float64(n-1), float64(n*p/100)))` -/
def floatIndex (p n : ℕ) : ℤ :=
  truncate (if float64 (n-1 : ℕ) ≤ float64 (n*p/100 : ℕ) then float64 (n-1 : ℕ) else float64 (n*p/100 : ℕ))

theorem float64_natCast {n : ℕ} (hn : n ≤ 2^53) : ∃ x : Finite, float64 n = .finite x ∧ value x.val = n := by
  have habs : |(n : ℤ)| ≤ 2^53 := by
    rw [abs_of_nonneg (Int.natCast_nonneg n)]
    exact_mod_cast hn
  obtain ⟨x,hx,hvalue⟩ := ofLiteral_integer habs (exactNumber_intLiteral n)
  obtain ⟨y,hy,rfl⟩ := Double.ofLiteral_finite hx
  exact ⟨y,hy,by exact_mod_cast hvalue⟩

theorem truncate_natCast {x : Finite} {n : ℕ} (h : value x.val = n) : truncate (.finite x) = n := by
  rw [truncate,h,if_neg (not_lt.mpr (Nat.cast_nonneg n))]
  exact Int.floor_natCast n

/-- Up to the length where every integer is a `float64`, the index is the one that the source computes. -/
theorem floatIndex_eq (hn : n ≤ 2^53) (hp : p ≤ 100) : floatIndex p n = percentileIndex p n := by
  have hscaled : n*p/100 ≤ n := Nat.div_le_of_le_mul (by rw [Nat.mul_comm]; exact Nat.mul_le_mul_right n hp)
  obtain ⟨x,hx,hvx⟩ := float64_natCast (n := n-1) (by omega)
  obtain ⟨y,hy,hvy⟩ := float64_natCast (hscaled.trans hn)
  have hle : (Double.finite x ≤ Double.finite y) ↔ n-1 ≤ n*p/100 := by
    change value x.val ≤ value y.val ↔ _
    rw [hvx,hvy,Nat.cast_le]
  rw [floatIndex,hx,hy,percentileIndex]
  split_ifs with h
  · rw [truncate_natCast hvx,Nat.min_eq_left (hle.mp h)]
  · rw [truncate_natCast hvy,Nat.min_eq_right (Nat.le_of_not_le fun hmin => h (hle.mpr hmin))]

end Indices

section Ranks

variable {latencies : List ℤ} {i : ℕ} {v w : ℤ}

/-- Up to the index, a sorted list has elements that are not larger. -/
theorem lt_countP_of_getElem? {l : List ℤ} (h : l.Pairwise (· ≤ ·)) (hv : l[i]? = some v) : i < l.countP (· ≤ v) := by
  obtain ⟨hi,hget⟩ := List.getElem?_eq_some_iff.mp hv
  have htake : (l.take (i+1)).countP (· ≤ v) = (l.take (i+1)).length := by
    rw [List.countP_eq_length]
    intro x hx
    obtain ⟨k,hk,rfl⟩ := List.mem_iff_getElem.mp hx
    rw [List.length_take] at hk
    rw [List.getElem_take,decide_eq_true_eq,← hget]
    rcases (show k ≤ i by omega).eq_or_lt with rfl | hlt
    · exact le_rfl
    · exact List.pairwise_iff_getElem.mp h k i (by omega) hi hlt
  have hsub := (List.take_sublist (i+1) l).countP_le (p := fun x => decide (x ≤ v))
  rw [htake,List.length_take] at hsub
  omega

theorem getElem?_mono {l : List ℤ} (h : l.Pairwise (· ≤ ·)) {j : ℕ} (hij : i ≤ j) (hv : l[i]? = some v)
    (hw : l[j]? = some w) : v ≤ w := by
  obtain ⟨hi,rfl⟩ := List.getElem?_eq_some_iff.mp hv
  obtain ⟨hj,rfl⟩ := List.getElem?_eq_some_iff.mp hw
  rcases hij.eq_or_lt with rfl | hlt
  · exact le_rfl
  · exact List.pairwise_iff_getElem.mp h i j hi hj hlt

/-- An element of the list with a percentage of the latencies at most as long, as they were recorded and as they would
be reported. -/
structure Covers (latencies : List ℤ) (p : ℕ) (v : ℤ) : Prop where
  mem : v ∈ latencies
  recorded : p*latencies.length ≤ 100*latencies.countP (· ≤ v)
  reported : p*latencies.length ≤ 100*latencies.countP (milliseconds · ≤ milliseconds v)

theorem covers_of_getElem? {p : ℕ} (hv : (latencies.insertionSort (· ≤ ·))[latencies.length*p/100]? = some v) :
    Covers latencies p v := by
  have hperm : (latencies.insertionSort (· ≤ ·)).Perm latencies := List.perm_insertionSort _ _
  have hcount := lt_countP_of_getElem? (List.pairwise_insertionSort (· ≤ ·) latencies) hv
  rw [hperm.countP_eq] at hcount
  have hcovers : p*latencies.length ≤ 100*latencies.countP (· ≤ v) :=
    (covers_index p latencies.length).trans (Nat.mul_le_mul_left 100 hcount)
  have hmono : latencies.countP (· ≤ v) ≤ latencies.countP (milliseconds · ≤ milliseconds v) :=
    List.countP_mono_left fun x _ hx => decide_eq_true (milliseconds_mono (of_decide_eq_true hx))
  exact ⟨hperm.mem_iff.mp (List.mem_of_getElem? hv),hcovers,hcovers.trans (Nat.mul_le_mul_left 100 hmono)⟩

theorem exists_largest (h : latencies ≠ []) : ∃ top ∈ latencies, ∀ x ∈ latencies, x ≤ top := by
  induction latencies with
  | nil => exact absurd rfl h
  | cons x l ih =>
    by_cases hl : l = []
    · exact ⟨x,List.mem_cons_self,by simp [hl]⟩
    · obtain ⟨top,hmem,htop⟩ := ih hl
      rcases le_total x top with hle | hle
      · exact ⟨top,List.mem_cons_of_mem _ hmem,List.forall_mem_cons.mpr ⟨hle,htop⟩⟩
      · exact ⟨x,List.mem_cons_self,List.forall_mem_cons.mpr ⟨le_rfl,fun y hy => (htop y hy).trans hle⟩⟩

end Ranks

section Records

/-- Summaries that differ in the order of their latencies at most. -/
structure Alike (s s' : Summary) : Prop where
  latencies : s.latencies.Perm s'.latencies
  rest : { s with latencies := [] } = { s' with latencies := [] }

variable {s s' : Summary}

theorem Alike.refl (s : Summary) : Alike s s := ⟨.refl _,rfl⟩

theorem Alike.trans {t : Summary} (h : Alike s s') (h' : Alike s' t) : Alike s t :=
  ⟨h.latencies.trans h'.latencies,h.rest.trans h'.rest⟩

theorem Alike.record (h : Alike s s') (row : ResultRow) (failed : Bool) :
    Alike (s.record row failed) (s'.record row failed) := by
  obtain ⟨d,f,b,l,lag⟩ := s
  obtain ⟨d',f',b',l',lag'⟩ := s'
  obtain ⟨hperm,hrest⟩ := h
  cases hrest
  exact ⟨hperm.append_right _,rfl⟩

theorem Alike.recordAll (h : Alike s s') (rows : List (ResultRow × Bool)) :
    Alike (s.recordAll rows) (s'.recordAll rows) := by
  induction rows generalizing s s' with
  | nil => exact h
  | cons row rows ih => exact ih (h.record row.1 row.2)

theorem alike_swap (s : Summary) (a b : ResultRow × Bool) :
    Alike ((s.record a.1 a.2).record b.1 b.2) ((s.record b.1 b.2).record a.1 a.2) := by
  refine ⟨?_,?_⟩
  · simp only [Summary.record,List.append_assoc]
    exact (List.Perm.swap _ _ []).append_left _
  · simp only [Summary.record,Summary.mk.injEq,true_and]
    refine ⟨?_,max_right_comm _ _ _⟩
    split_ifs <;> rfl

theorem alike_of_perm {rows rows' : List (ResultRow × Bool)} (h : rows.Perm rows') (s : Summary) :
    Alike (s.recordAll rows) (s.recordAll rows') := by
  induction h generalizing s with
  | nil => exact .refl s
  | cons row _ ih => exact ih _
  | swap a b rows => exact (alike_swap s b a).recordAll rows
  | trans _ _ ih ih' => exact (ih s).trans (ih' s)

theorem Alike.metrics (h : Alike s s') : s.metrics = s'.metrics := by
  obtain ⟨d,f,b,l,lag⟩ := s
  obtain ⟨d',f',b',l',lag'⟩ := s'
  obtain ⟨hperm,hrest⟩ := h
  cases hrest
  have hsorted : l.insertionSort (· ≤ ·) = l'.insertionSort (· ≤ ·) :=
    ((List.perm_insertionSort _ _).trans (hperm.trans (List.perm_insertionSort _ _).symm)).eq_of_pairwise'
      (List.pairwise_insertionSort _ _) (List.pairwise_insertionSort _ _)
  simp only [Summary.metrics,Summary.maxLagMs,hsorted,hperm.length_eq]

end Records

/-- The three percentiles of a list of latencies, in the order of the percentages and at most the longest latency. -/
structure Ranked (latencies : List ℤ) (m : ReplayMetrics) (p50 p95 p99 top : ℤ) : Prop where
  median : m.p50LatencyMs = some (milliseconds p50) ∧ Covers latencies 50 p50
  high : m.p95LatencyMs = some (milliseconds p95) ∧ Covers latencies 95 p95
  highest : m.p99LatencyMs = some (milliseconds p99) ∧ Covers latencies 99 p99
  largest : top ∈ latencies ∧ ∀ x ∈ latencies, x ≤ top
  ordered : p50 ≤ p95 ∧ p95 ≤ p99 ∧ p99 ≤ top
  reported : milliseconds p50 ≤ milliseconds p95 ∧ milliseconds p95 ≤ milliseconds p99 ∧
    milliseconds p99 ≤ milliseconds top

/-- The indices are in range, the percentiles are latencies in order that cover their percentage, and the order in
which the rows were recorded does not matter. -/
theorem percentiles_ranked {s : Summary} (h : s.latencies ≠ []) :
    (∃ m p50 p95 p99 top, s.metrics = some m ∧ Ranked s.latencies m p50 p95 p99 top) ∧
      (s.latencies.length*50/100 < s.latencies.length ∧ percentileIndex 95 s.latencies.length < s.latencies.length ∧
        percentileIndex 99 s.latencies.length < s.latencies.length) ∧
      (∀ s', Alike s s' → s'.metrics = s.metrics) ∧
      ∀ rows rows', rows.Perm rows' → (s.recordAll rows).metrics = (s.recordAll rows').metrics := by
  have hpos := List.length_pos_iff.mpr h
  have h50 := scaled_lt (p := 50) (by norm_num) hpos
  have h95 := scaled_lt (p := 95) (by norm_num) hpos
  have h99 := scaled_lt (p := 99) (by norm_num) hpos
  have hsorted := List.pairwise_insertionSort (· ≤ ·) s.latencies
  have hget : ∀ i < s.latencies.length, ∃ v, (s.latencies.insertionSort (· ≤ ·))[i]? = some v := by
    intro i hi
    rw [← List.length_insertionSort (· ≤ ·) s.latencies] at hi
    exact ⟨_,List.getElem?_eq_getElem hi⟩
  refine ⟨?_,?_,fun s' hs' => hs'.metrics.symm,fun rows rows' hrows => (alike_of_perm hrows s).metrics⟩
  · obtain ⟨p50,hp50⟩ := hget _ h50
    obtain ⟨p95,hp95⟩ := hget _ h95
    obtain ⟨p99,hp99⟩ := hget _ h99
    obtain ⟨top,hmem,htop⟩ := exists_largest h
    have hle : p50 ≤ p95 :=
      getElem?_mono hsorted (Nat.div_le_div_right (Nat.mul_le_mul_left _ (by norm_num))) hp50 hp95
    have hle' : p95 ≤ p99 :=
      getElem?_mono hsorted (Nat.div_le_div_right (Nat.mul_le_mul_left _ (by norm_num))) hp95 hp99
    have hmax : p99 ≤ top := htop _ (covers_of_getElem? hp99).mem
    refine ⟨⟨s.eventsDispatched,s.eventsFailed,s.eventsBackpressured,some (milliseconds p50),some (milliseconds p95),
      some (milliseconds p99),s.maxLagMs⟩,p50,p95,p99,top,?_,
      ⟨⟨rfl,covers_of_getElem? hp50⟩,⟨rfl,covers_of_getElem? hp95⟩,
      ⟨rfl,covers_of_getElem? hp99⟩,⟨hmem,htop⟩,⟨hle,hle',hmax⟩,
      ⟨milliseconds_mono hle,milliseconds_mono hle',milliseconds_mono hmax⟩⟩⟩
    simp [Summary.metrics,hpos,percentileIndex_eq,hp50,hp95,hp99]
  · rw [percentileIndex_eq (by norm_num) hpos,percentileIndex_eq (by norm_num) hpos]
    exact ⟨h50,h95,h99⟩

def threeLatencies : Summary := ⟨3,0,0,[3000000,1000000,2000000],0⟩

theorem percentiles_ranked_threeLatencies : ∃ m p50 p95 p99 top, threeLatencies.metrics = some m ∧
    Ranked threeLatencies.latencies m p50 p95 p99 top :=
  (percentiles_ranked (s := threeLatencies) (by decide)).1

end Replay
end Clearvoiance
