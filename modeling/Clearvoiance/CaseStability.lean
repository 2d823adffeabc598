import Clearvoiance.UnicodeCase

/-! Case mappings applied twice.  What JavaScript has put in upper case has no code point of several capitals
left, and what it has put in lower case stays as it is under Go's lower case. -/
namespace Clearvoiance
namespace UnicodeCase

/-- The smallest and the largest code point that a range leads to. -/
def CaseRange.first (r : CaseRange) : ℕ := (r.lo+r.delta).toNat

def CaseRange.last (r : CaseRange) : ℕ := (r.hi+r.delta).toNat

def specialRuns : List (ℕ × ℕ) :=
  [(223,223),(329,329),(496,496),(912,912),(944,944),(1415,1415),(7830,7834),(8016,8016),(8018,8018),(8020,8020),
   (8022,8022),(8064,8111),(8114,8116),(8118,8119),(8124,8124),(8130,8132),(8134,8135),(8140,8140),(8146,8147),
   (8150,8151),(8162,8164),(8166,8167),(8178,8180),(8182,8183),(8188,8188),(64256,64262),(64275,64279)]

def inRuns (n : ℕ) : Bool := specialRuns.any fun r => Nat.ble r.1 n && Nat.ble n r.2

/-- The range leads to no code point of several capitals, or comes from such code points only. -/
def CaseRange.settled (r : CaseRange) : Bool :=
  (specialRuns.all fun q => Nat.blt r.last q.1 || Nat.blt q.2 r.first) ||
    specialRuns.any fun q => Nat.ble q.1 r.lo && Nat.ble r.hi q.2

/-- The ranges' targets are apart: no target of the one is a source of the other. -/
def CaseRange.avoids (r q : CaseRange) : Bool :=
  Nat.blt r.last q.lo || Nat.blt q.hi r.first ||
    (q.stride == 2 && (r.stride == 2 || r.lo == r.hi) && (r.first+q.lo) % 2 == 1 && r.lo+r.delta == r.first)

/-- What the tables and the runs say about each other. -/
structure RunFacts : Prop where
  special : (specialUpper.all fun e => inRuns e.1) = true
  listed :
    (specialRuns.all fun r => (List.range' r.1 (r.2+1-r.1)).all fun n => specialUpper.any fun e => Nat.beq e.1 n) = true
  settled : (upperRanges.all CaseRange.settled) = true
  outputs : (specialUpper.all fun e => e.2.all fun n => !inRuns n) = true
  avoid : (lowerRanges.all fun r => lowerRanges.all fun q => r.avoids q) = true
  zero : inRuns 0 = false
  zeroKept : lowerRanges.find? (fun r => r.covers 0) = none
  kept : (['i','σ','ς'].all fun d => simpleMap lowerRanges d == d) = true

theorem runFacts : RunFacts := by
  constructor <;> decide +kernel

theorem specialUpper_iff (c : Char) : SpecialUpper c ↔ inRuns c.toNat = true := by
  constructor
  · rintro ⟨e,he,hc⟩
    rw [← hc]
    exact List.all_eq_true.mp (RunFacts.special runFacts) e he
  · intro h
    obtain ⟨r,hr,hc⟩ := List.any_eq_true.mp h
    simp only [Bool.and_eq_true,Nat.ble_eq] at hc
    have hn : c.toNat ∈ List.range' r.1 (r.2+1-r.1) := by
      rw [List.mem_range'_1]
      omega
    have hany := List.all_eq_true.mp (List.all_eq_true.mp (RunFacts.listed runFacts) r hr) _ hn
    obtain ⟨e,he,heq⟩ := List.any_eq_true.mp hany
    exact ⟨e,he,Nat.eq_of_beq_eq_true heq⟩

theorem covers_iff (r : CaseRange) (n : ℕ) : r.covers n = true ↔ r.lo ≤ n ∧ n ≤ r.hi ∧ (n-r.lo) % r.stride = 0 := by
  simp [CaseRange.covers,and_assoc]

/-- A mapped code point is the code point itself, zero, or a target of a range that covers it. -/
theorem simpleMap_cases (table : List CaseRange) (c : Char) :
    (simpleMap table c = c ∧ table.find? (fun r => r.covers c.toNat) = none) ∨ (simpleMap table c).toNat = 0 ∨
      ∃ r ∈ table, r.covers c.toNat = true ∧ (simpleMap table c).toNat = (c.toNat+r.delta).toNat := by
  cases hr : table.find? (fun r => r.covers c.toNat) with
  | none => exact .inl ⟨by simp [simpleMap,hr],rfl⟩
  | some r =>
    have hmap : simpleMap table c = Char.ofNat (c.toNat+r.delta).toNat := by simp [simpleMap,hr]
    rw [hmap]
    rcases toNat_ofNat_cases (c.toNat+r.delta).toNat with h | h
    · exact .inr (.inr ⟨r,List.mem_of_find?_eq_some hr,by simpa using List.find?_some hr,h⟩)
    · exact .inr (.inl h)

/-- A code point without several capitals is mapped to one without. -/
theorem inRuns_simpleMap {c : Char} (h : inRuns c.toNat = false) : inRuns (simpleMap upperRanges c).toNat = false := by
  rcases simpleMap_cases upperRanges c with hc | hc | ⟨r,hr,hcov,hc⟩
  · rw [hc.1]
    exact h
  · rw [hc]
    exact RunFacts.zero runFacts
  · obtain ⟨hlo,hhi,-⟩ := (covers_iff r _).mp hcov
    have hsettled := List.all_eq_true.mp (RunFacts.settled runFacts) r hr
    simp only [CaseRange.settled,Bool.or_eq_true,List.all_eq_true,List.any_eq_true,Bool.and_eq_true,Nat.ble_eq,
      Nat.blt_eq] at hsettled
    rcases hsettled with hapart | ⟨q,hq,hqlo,hqhi⟩
    · rw [hc]
      apply List.any_eq_false.mpr
      intro q hq
      have := hapart q hq
      simp only [CaseRange.first,CaseRange.last] at this
      simp only [Bool.and_eq_true,Nat.ble_eq]
      omega
    · have hin : inRuns c.toNat = true := by
        apply List.any_eq_true.mpr
        refine ⟨q,hq,?_⟩
        simp only [Bool.and_eq_true,Nat.ble_eq]
        omega
      rw [hin] at h
      cases h

/-- What JavaScript has put in upper case, both languages put in upper case alike. -/
theorem plainUpper_toUpperCase (s : List Char) : ∀ d ∈ toUpperCase s, ¬ SpecialUpper d := by
  intro d hd
  rw [specialUpper_iff,Bool.not_eq_true]
  obtain ⟨c,-,hmem⟩ := List.mem_flatMap.mp hd
  by_cases hc : SpecialUpper c
  · unfold fullUpper at hmem
    split at hmem
    · rename_i e he
      obtain ⟨n,hn,rfl⟩ := List.mem_map.mp hmem
      have hout := List.all_eq_true.mp (List.all_eq_true.mp (RunFacts.outputs runFacts) e (List.mem_of_find?_eq_some he)) n hn
      rcases toNat_ofNat_cases n with h | h
      · rw [h]
        simpa using hout
      · rw [h]
        exact RunFacts.zero runFacts
    · rename_i hnone
      obtain ⟨e,he,hcode⟩ := hc
      have := List.find?_eq_none.mp hnone e he
      simp [hcode] at this
  · rw [fullUpper_plain hc,List.mem_singleton] at hmem
    rw [specialUpper_iff,Bool.not_eq_true] at hc
    rw [hmem]
    exact inRuns_simpleMap hc

theorem simpleMap_kept {d : Char} (h : d ∈ ['i','σ','ς']) : simpleMap lowerRanges d = d := by
  simpa using List.all_eq_true.mp (RunFacts.kept runFacts) d h

theorem simpleMap_lower_idem (c : Char) :
    simpleMap lowerRanges (simpleMap lowerRanges c) = simpleMap lowerRanges c := by
  have hstable : ∀ d : Char, lowerRanges.find? (fun r => r.covers d.toNat) = none → simpleMap lowerRanges d = d := by
    intro d hd
    simp [simpleMap,hd]
  rcases simpleMap_cases lowerRanges c with hc | hc | ⟨r,hr,hcov,hc⟩
  · rw [hc.1]
    exact hc.1
  · apply hstable
    rw [hc]
    exact RunFacts.zeroKept runFacts
  · apply hstable
    rw [List.find?_eq_none]
    intro q hq hcov'
    rw [hc] at hcov'
    obtain ⟨hlo,hhi,hmod⟩ := (covers_iff r _).mp hcov
    obtain ⟨hlo',hhi',hmod'⟩ := (covers_iff q _).mp hcov'
    have havoids := List.all_eq_true.mp (List.all_eq_true.mp (RunFacts.avoid runFacts) r hr) q hq
    simp only [CaseRange.avoids,Bool.or_eq_true,Bool.and_eq_true,Nat.blt_eq,beq_iff_eq] at havoids
    rcases havoids with (hlast | hfirst) | ⟨⟨⟨hq2,hr2⟩,hodd⟩,hexact⟩
    · simp only [CaseRange.last] at hlast
      omega
    · simp only [CaseRange.first] at hfirst
      omega
    · rw [hq2] at hmod'
      rcases hr2 with hr2 | hr2
      · rw [hr2] at hmod
        omega
      · omega

theorem goToLower_toLowerCase (s : List Char) : goToLower (toLowerCase s) = toLowerCase s := by
  have hstable : ∀ before, ∀ d ∈ lowerFrom before s, simpleMap lowerRanges d = d := by
    induction s with
    | nil =>
      intro before d hd
      cases hd
    | cons c s ih =>
      intro before d hd
      rcases List.mem_append.mp hd with hd | hd
      · unfold fullLower at hd
        split_ifs at hd
        · rcases List.mem_cons.mp hd with rfl | hd
          · exact simpleMap_kept (d := 'i') (by simp)
          · rw [List.mem_singleton.mp hd]
            exact TableFacts.dot tableFacts
        · rw [List.mem_singleton.mp hd]
          exact simpleMap_kept (d := 'ς') (by simp)
        · rw [List.mem_singleton.mp hd]
          exact simpleMap_kept (d := 'σ') (by simp)
        · rw [List.mem_singleton.mp hd]
          exact simpleMap_lower_idem c
      · exact ih _ d hd
  unfold goToLower toLowerCase
  conv_rhs => rw [← List.map_id (lowerFrom [] s)]
  apply List.map_congr_left
  exact hstable []

theorem length_le_lowerFrom (before s : List Char) : s.length ≤ (lowerFrom before s).length := by
  induction s generalizing before with
  | nil => simp
  | cons c s ih =>
    have hone : 1 ≤ (fullLower before c s).length := by
      unfold fullLower
      split_ifs <;> simp
    have := ih (c :: before)
    simp only [lowerFrom,List.length_append,List.length_cons]
    omega

end UnicodeCase
end Clearvoiance
