import Clearvoiance.Json

/-! Equality of JSON values: arrays element by element, objects by what they hold under each key, the
last member with a key being the one that counts.  Two documents brought into order are alike exactly
when they are equal. -/
namespace Clearvoiance
namespace Json

variable {σ ν μ κ : Type}

def lookup [DecidableEq σ] (k : σ) : List (σ × Json σ ν) → Option (Json σ ν)
  | [] => none
  | (l,v) :: ms => (lookup k ms).or (if l = k then some v else none)

/-- Equality of values, with numbers compared by `rn`. -/
inductive Equal [DecidableEq σ] (rn : ν → ν → Prop) : Json σ ν → Json σ ν → Prop
  | null : Equal rn .null .null
  | bool (b : Bool) : Equal rn (.bool b) (.bool b)
  | num {x y : ν} (h : rn x y) : Equal rn (.num x) (.num y)
  | str (s : σ) : Equal rn (.str s) (.str s)
  | arr {vs ws : List (Json σ ν)} (hlen : vs.length = ws.length) (h : ∀ p ∈ vs.zip ws, Equal rn p.1 p.2) :
      Equal rn (.arr vs) (.arr ws)
  | obj {ms ns : List (σ × Json σ ν)} (hkeys : ∀ k, (lookup k ms).isSome = (lookup k ns).isSome)
      (h : ∀ k v w, lookup k ms = some v → lookup k ns = some w → Equal rn v w) : Equal rn (.obj ms) (.obj ns)

mutual

/-- The document with every number replaced by another value. -/
def bind (f : ν → Json σ μ) : Json σ ν → Json σ μ
  | .null => .null
  | .bool b => .bool b
  | .num n => f n
  | .str s => .str s
  | .arr vs => .arr (bindList f vs)
  | .obj ms => .obj (bindMembers f ms)
termination_by structural v => v

def bindList (f : ν → Json σ μ) : List (Json σ ν) → List (Json σ μ)
  | [] => []
  | v :: vs => bind f v :: bindList f vs
termination_by structural vs => vs

def bindMembers (f : ν → Json σ μ) : List (σ × Json σ ν) → List (σ × Json σ μ)
  | [] => []
  | (k,v) :: ms => (k,bind f v) :: bindMembers f ms
termination_by structural ms => ms

end

mutual

/-- The document without the members of some keys, at every depth. -/
def removeKeys (p : σ → Bool) : Json σ ν → Json σ ν
  | .arr vs => .arr (removeKeysList p vs)
  | .obj ms => .obj (removeKeysMembers p ms)
  | .null => .null
  | .bool b => .bool b
  | .num n => .num n
  | .str s => .str s
termination_by structural v => v

def removeKeysList (p : σ → Bool) : List (Json σ ν) → List (Json σ ν)
  | [] => []
  | v :: vs => removeKeys p v :: removeKeysList p vs
termination_by structural vs => vs

def removeKeysMembers (p : σ → Bool) : List (σ × Json σ ν) → List (σ × Json σ ν)
  | [] => []
  | (k,v) :: ms => if p k then removeKeysMembers p ms else (k,removeKeys p v) :: removeKeysMembers p ms
termination_by structural ms => ms

end

mutual

/-- Induction over a document, with the elements of an array and the members of an object at hand. -/
@[elab_as_elim]
theorem induction {P : Json σ ν → Prop} (null : P .null) (bool : ∀ b, P (.bool b)) (num : ∀ n, P (.num n))
    (str : ∀ s, P (.str s)) (arr : ∀ vs, (∀ v ∈ vs, P v) → P (.arr vs))
    (obj : ∀ ms, (∀ m ∈ ms, P m.2) → P (.obj ms)) (v : Json σ ν) : P v := by
  cases v with
  | null => exact null
  | bool b => exact bool b
  | num n => exact num n
  | str s => exact str s
  | arr vs => exact arr vs (inductionList null bool num str arr obj vs)
  | obj ms => exact obj ms (inductionMembers null bool num str arr obj ms)
termination_by structural v

theorem inductionList {P : Json σ ν → Prop} (null : P .null) (bool : ∀ b, P (.bool b)) (num : ∀ n, P (.num n))
    (str : ∀ s, P (.str s)) (arr : ∀ vs, (∀ v ∈ vs, P v) → P (.arr vs))
    (obj : ∀ ms, (∀ m ∈ ms, P m.2) → P (.obj ms)) (vs : List (Json σ ν)) : ∀ v ∈ vs, P v := by
  cases vs with
  | nil =>
    intro v hv
    cases hv
  | cons u vs =>
    intro v hv
    rcases List.mem_cons.mp hv with h | h
    · rw [h]
      exact induction null bool num str arr obj u
    · exact inductionList null bool num str arr obj vs v h
termination_by structural vs

theorem inductionMembers {P : Json σ ν → Prop} (null : P .null) (bool : ∀ b, P (.bool b)) (num : ∀ n, P (.num n))
    (str : ∀ s, P (.str s)) (arr : ∀ vs, (∀ v ∈ vs, P v) → P (.arr vs))
    (obj : ∀ ms, (∀ m ∈ ms, P m.2) → P (.obj ms)) (ms : List (σ × Json σ ν)) : ∀ m ∈ ms, P m.2 := by
  cases ms with
  | nil =>
    intro m hm
    cases hm
  | cons n ms =>
    obtain ⟨k,v⟩ := n
    intro m hm
    rcases List.mem_cons.mp hm with h | h
    · rw [h]
      exact induction null bool num str arr obj v
    · exact inductionMembers null bool num str arr obj ms m h
termination_by structural ms

end

theorem bindList_eq (f : ν → Json σ μ) (vs : List (Json σ ν)) : bindList f vs = vs.map (bind f) := by
  induction vs with
  | nil => rfl
  | cons v vs ih => rw [bindList,ih,List.map_cons]

theorem removeKeysList_eq (p : σ → Bool) (vs : List (Json σ ν)) : removeKeysList p vs = vs.map (removeKeys p) := by
  induction vs with
  | nil => rfl
  | cons v vs ih => rw [removeKeysList,ih,List.map_cons]

theorem arrangeList_eq [DecidableEq σ] (lt : σ → σ → Bool) (vs : List (Json σ ν)) :
    arrangeList lt vs = vs.map (arrange lt) := by
  induction vs with
  | nil => rfl
  | cons v vs ih => rw [arrangeList,ih,List.map_cons]

section Lookup

variable [DecidableEq σ]

theorem lookup_bindMembers (f : ν → Json σ μ) (k : σ) (ms : List (σ × Json σ ν)) :
    lookup k (bindMembers f ms) = (lookup k ms).map (bind f) := by
  induction ms with
  | nil => rfl
  | cons m ms ih =>
    obtain ⟨l,v⟩ := m
    rw [bindMembers,lookup,lookup,ih]
    cases lookup k ms with
    | some w => rfl
    | none =>
      simp only [Option.map_none,Option.none_or]
      split_ifs <;> rfl

theorem lookup_removeKeysMembers (p : σ → Bool) (k : σ) (ms : List (σ × Json σ ν)) :
    lookup k (removeKeysMembers p ms) = if p k then none else (lookup k ms).map (removeKeys p) := by
  induction ms with
  | nil => simp [removeKeysMembers,lookup]
  | cons m ms ih =>
    obtain ⟨l,v⟩ := m
    rw [removeKeysMembers,lookup]
    by_cases hl : p l = true
    · rw [if_pos hl,ih]
      by_cases hk : p k = true
      · simp [hk]
      · have hne : l ≠ k := by
          rintro rfl
          exact hk hl
        simp [hk,hne]
    · rw [if_neg hl,lookup,ih]
      by_cases hk : p k = true
      · have hne : l ≠ k := by
          rintro rfl
          exact hl hk
        simp [hk,hne]
      · simp only [hk,if_false,Bool.false_eq_true]
        cases lookup k ms with
        | some w => rfl
        | none =>
          simp only [Option.map_none,Option.none_or]
          split_ifs <;> rfl

theorem lookup_arrangeMembers (lt : σ → σ → Bool) (k : σ) (ms : List (σ × Json σ ν)) :
    lookup k (arrangeMembers lt ms) = (lookup k ms).map (arrange lt) := by
  induction ms with
  | nil => rfl
  | cons m ms ih =>
    obtain ⟨l,v⟩ := m
    rw [arrangeMembers,lookup,lookup,ih]
    cases lookup k ms with
    | some w => rfl
    | none =>
      simp only [Option.map_none,Option.none_or]
      split_ifs <;> rfl

theorem lookup_eq_none_iff (k : σ) (ms : List (σ × Json σ ν)) : lookup k ms = none ↔ k ∉ ms.map Prod.fst := by
  induction ms with
  | nil => simp [lookup]
  | cons m ms ih =>
    obtain ⟨l,v⟩ := m
    rw [lookup,Option.or_eq_none_iff,ih]
    by_cases hl : l = k
    · simp [hl]
    · simp [hl,Ne.symm hl]

theorem lookup_of_mem {k : σ} {v : Json σ ν} {ms : List (σ × Json σ ν)} (hkeys : (ms.map Prod.fst).Nodup)
    (h : (k,v) ∈ ms) : lookup k ms = some v := by
  induction ms with
  | nil => cases h
  | cons m ms ih =>
    obtain ⟨l,w⟩ := m
    obtain ⟨hnew,hkeys⟩ := List.nodup_cons.mp hkeys
    rw [lookup]
    rcases List.mem_cons.mp h with h | h
    · obtain ⟨rfl,rfl⟩ := Prod.mk.inj h
      rw [(lookup_eq_none_iff k ms).mpr hnew,if_pos rfl]
      rfl
    · rw [ih hkeys h]
      rfl

theorem mem_of_lookup {k : σ} {v : Json σ ν} {ms : List (σ × Json σ ν)} (h : lookup k ms = some v) : (k,v) ∈ ms := by
  induction ms with
  | nil => cases h
  | cons m ms ih =>
    obtain ⟨l,w⟩ := m
    rw [lookup] at h
    rcases Option.or_eq_some_iff.mp h with h | ⟨-,h⟩
    · exact List.mem_cons_of_mem _ (ih h)
    · split_ifs at h with hl
      cases h
      rw [hl]
      exact List.mem_cons_self

theorem lastWins_cons (m : σ × Json σ ν) (ms : List (σ × Json σ ν)) :
    lastWins (m :: ms) = if m.1 ∈ (lastWins ms).map Prod.fst then lastWins ms else m :: lastWins ms := rfl

theorem mem_keys_lastWins (k : σ) (ms : List (σ × Json σ ν)) :
    k ∈ (lastWins ms).map Prod.fst ↔ k ∈ ms.map Prod.fst := by
  induction ms with
  | nil => rfl
  | cons m ms ih =>
    rw [lastWins_cons,List.map_cons,List.mem_cons,← ih]
    split_ifs with hm
    · constructor
      · intro h
        exact .inr h
      · rintro (rfl | h)
        · exact hm
        · exact h
    · rw [List.map_cons,List.mem_cons]

theorem nodup_keys_lastWins (ms : List (σ × Json σ ν)) : ((lastWins ms).map Prod.fst).Nodup := by
  induction ms with
  | nil => exact List.nodup_nil
  | cons m ms ih =>
    rw [lastWins_cons]
    split_ifs with hm
    · exact ih
    · rw [List.map_cons,List.nodup_cons]
      exact ⟨hm,ih⟩

/-- The members that are left are those that are looked up. -/
theorem mem_lastWins_iff (k : σ) (v : Json σ ν) (ms : List (σ × Json σ ν)) :
    (k,v) ∈ lastWins ms ↔ lookup k ms = some v := by
  induction ms with
  | nil => simp [lastWins,lookup]
  | cons m ms ih =>
    obtain ⟨l,w⟩ := m
    rw [lastWins_cons,lookup]
    by_cases hl : l = k
    · subst hl
      rw [if_pos (rfl : l = l)]
      split_ifs with hm
      · rw [ih]
        rw [mem_keys_lastWins] at hm
        cases hlook : lookup l ms with
        | none => exact absurd hm ((lookup_eq_none_iff l ms).mp hlook)
        | some u => rfl
      · have hnone : lookup l ms = none := by
          rw [lookup_eq_none_iff,← mem_keys_lastWins]
          exact hm
        rw [List.mem_cons,ih,hnone]
        simp [eq_comm]
    · have hskip : (lookup k ms).or (if l = k then some w else none) = lookup k ms := by
        rw [if_neg hl]
        cases lookup k ms <;> rfl
      rw [hskip,← ih]
      split_ifs with hm
      · rfl
      · rw [List.mem_cons,Prod.mk.injEq]
        simp [Ne.symm hl]

end Lookup

/-- A strict order in which any two keys can be told apart. -/
structure KeyOrder (lt : σ → σ → Bool) : Prop where
  trans : ∀ a b c, lt b a = false → lt c b = false → lt c a = false
  total : ∀ a b, lt a b = false ∨ lt b a = false
  antisymm : ∀ a b, lt a b = false → lt b a = false → a = b

section Sorted

variable {lt : σ → σ → Bool}

theorem sorted_sortMembers (hlt : KeyOrder lt) (ms : List (σ × Json σ ν)) :
    (sortMembers lt ms).Pairwise fun a b => lt b.1 a.1 = false := by
  have : Std.Total (fun a b : σ × Json σ ν => lt b.1 a.1 = false) := ⟨fun a b => hlt.total b.1 a.1⟩
  have : IsTrans (σ × Json σ ν) (fun a b => lt b.1 a.1 = false) := ⟨fun a b c => hlt.trans a.1 b.1 c.1⟩
  exact List.pairwise_insertionSort _ ms

theorem mem_sortMembers (m : σ × Json σ ν) (ms : List (σ × Json σ ν)) : m ∈ sortMembers lt ms ↔ m ∈ ms :=
  (List.perm_insertionSort _ ms).mem_iff

theorem nodup_keys_sortMembers {ms : List (σ × Json σ ν)} (h : (ms.map Prod.fst).Nodup) :
    ((sortMembers lt ms).map Prod.fst).Nodup :=
  ((List.perm_insertionSort _ ms).map Prod.fst).nodup_iff.mpr h

/-- Lists in order with the same keys go along with one another. -/
theorem forall₂_iff_of_sorted (hlt : KeyOrder lt) (r : Json σ ν → Json σ ν → Prop) {ms ns : List (σ × Json σ ν)}
    (hms : ms.Pairwise fun a b => lt b.1 a.1 = false) (hns : ns.Pairwise fun a b => lt b.1 a.1 = false)
    (hms' : (ms.map Prod.fst).Nodup) (hns' : (ns.map Prod.fst).Nodup) :
    List.Forall₂ (fun m n => m.1 = n.1 ∧ r m.2 n.2) ms ns ↔
      (∀ k, k ∈ ms.map Prod.fst ↔ k ∈ ns.map Prod.fst) ∧ ∀ k v w, (k,v) ∈ ms → (k,w) ∈ ns → r v w := by
  constructor
  · intro h
    induction h with
    | nil => simp
    | @cons m n ms ns hmn _ ih =>
      rw [List.map_cons,List.nodup_cons] at hms' hns'
      obtain ⟨hkeys,hvals⟩ := ih hms.of_cons hns.of_cons hms'.2 hns'.2
      constructor
      · intro k
        rw [List.map_cons,List.map_cons,List.mem_cons,List.mem_cons,hmn.1,hkeys]
      · intro k v w hv hw
        rcases List.mem_cons.mp hv with rfl | hv
        · rcases List.mem_cons.mp hw with rfl | hw
          · exact hmn.2
          · refine absurd ?_ hns'.1
            rw [← hmn.1]
            exact List.mem_map.mpr ⟨(k,w),hw,rfl⟩
        · rcases List.mem_cons.mp hw with rfl | hw
          · refine absurd ?_ hms'.1
            rw [hmn.1]
            exact List.mem_map.mpr ⟨(k,v),hv,rfl⟩
          · exact hvals k v w hv hw
  · rintro ⟨hkeys,hvals⟩
    induction ms generalizing ns with
    | nil =>
      cases ns with
      | nil => exact .nil
      | cons n ns =>
        have := (hkeys n.1).mpr (by simp)
        simp at this
    | cons m ms ih =>
      cases ns with
      | nil =>
        have := (hkeys m.1).mp (by simp)
        simp at this
      | cons n ns =>
        rw [List.map_cons,List.nodup_cons] at hms' hns'
        rw [List.pairwise_cons] at hms hns
        have hm : m.1 = n.1 := by
          by_contra hne
          have hmn := (hkeys m.1).mp (by simp)
          have hnm := (hkeys n.1).mpr (by simp)
          simp only [List.map_cons,List.mem_cons,hne,false_or] at hmn
          simp only [List.map_cons,List.mem_cons,Ne.symm hne,false_or] at hnm
          obtain ⟨n',hn',hn'k⟩ := List.mem_map.mp hmn
          obtain ⟨m',hm',hm'k⟩ := List.mem_map.mp hnm
          have h₁ := hns.1 n' hn'
          have h₂ := hms.1 m' hm'
          rw [hn'k] at h₁
          rw [hm'k] at h₂
          exact hne (hlt.antisymm _ _ h₁ h₂)
        refine .cons ⟨hm,hvals m.1 m.2 n.2 (by simp) (by rw [hm]; simp)⟩ ?_
        apply ih hms.2 hns.2 hms'.2 hns'.2
        · intro k
          have hk := hkeys k
          simp only [List.map_cons,List.mem_cons] at hk
          constructor
          · intro h
            rcases hk.mp (.inr h) with rfl | h'
            · rw [hm] at hms'
              exact absurd h hms'.1
            · exact h'
          · intro h
            rcases hk.mpr (.inr h) with rfl | h'
            · rw [← hm] at hns'
              exact absurd h hns'.1
            · exact h'
        · intro k v w hv hw
          exact hvals k v w (List.mem_cons_of_mem _ hv) (List.mem_cons_of_mem _ hw)

theorem alikeList_iff {τ : Type} (rs : σ → τ → Prop) (rn : ν → μ → Prop) (vs : List (Json σ ν)) (ws : List (Json τ μ)) :
    AlikeList rs rn vs ws ↔ vs.length = ws.length ∧ ∀ p ∈ vs.zip ws, Alike rs rn p.1 p.2 := by
  induction vs generalizing ws with
  | nil => cases ws <;> simp [AlikeList]
  | cons v vs ih =>
    cases ws with
    | nil => simp [AlikeList]
    | cons w ws =>
      rw [AlikeList,ih]
      simp only [List.length_cons,List.zip_cons_cons,List.forall_mem_cons,Nat.add_right_cancel_iff]
      tauto

theorem alikeMembers_iff {τ : Type} (rs : σ → τ → Prop) (rn : ν → μ → Prop) (ms : List (σ × Json σ ν))
    (ns : List (τ × Json τ μ)) :
    AlikeMembers rs rn ms ns ↔ List.Forall₂ (fun m n => rs m.1 n.1 ∧ Alike rs rn m.2 n.2) ms ns := by
  induction ms generalizing ns with
  | nil => cases ns <;> simp [AlikeMembers]
  | cons m ms ih =>
    obtain ⟨k,v⟩ := m
    cases ns with
    | nil => simp [AlikeMembers]
    | cons n ns =>
      obtain ⟨l,w⟩ := n
      rw [AlikeMembers,ih,List.forall₂_cons]
      tauto

variable [DecidableEq σ]

/-- The members of an arranged object are those that are looked up in the object. -/
theorem mem_arranged_iff (k : σ) (a : Json σ ν) (ms : List (σ × Json σ ν)) :
    (k,a) ∈ sortMembers lt (lastWins (arrangeMembers lt ms)) ↔ ∃ v, lookup k ms = some v ∧ arrange lt v = a := by
  rw [mem_sortMembers,mem_lastWins_iff,lookup_arrangeMembers,Option.map_eq_some_iff]

theorem mem_arranged_keys_iff (k : σ) (ms : List (σ × Json σ ν)) :
    k ∈ (sortMembers lt (lastWins (arrangeMembers lt ms))).map Prod.fst ↔ (lookup k ms).isSome = true := by
  rw [List.mem_map,Option.isSome_iff_exists]
  constructor
  · rintro ⟨⟨k',a⟩,hmem,rfl⟩
    obtain ⟨v,hv,-⟩ := (mem_arranged_iff k' a ms).mp hmem
    exact ⟨v,hv⟩
  · rintro ⟨v,hv⟩
    exact ⟨(k,arrange lt v),(mem_arranged_iff k _ ms).mpr ⟨v,hv,rfl⟩,rfl⟩

theorem arranged_members_iff (hlt : KeyOrder lt) (rn : ν → ν → Prop) (ms ns : List (σ × Json σ ν)) :
    AlikeMembers Eq rn (sortMembers lt (lastWins (arrangeMembers lt ms)))
        (sortMembers lt (lastWins (arrangeMembers lt ns))) ↔
      (∀ k, (lookup k ms).isSome = (lookup k ns).isSome) ∧
        ∀ k v w, lookup k ms = some v → lookup k ns = some w → Alike Eq rn (arrange lt v) (arrange lt w) := by
  rw [alikeMembers_iff,forall₂_iff_of_sorted hlt (Alike Eq rn) (sorted_sortMembers hlt _) (sorted_sortMembers hlt _)
    (nodup_keys_sortMembers (nodup_keys_lastWins _)) (nodup_keys_sortMembers (nodup_keys_lastWins _))]
  constructor
  · rintro ⟨hkeys,hvals⟩
    constructor
    · intro k
      have hk := hkeys k
      rw [mem_arranged_keys_iff,mem_arranged_keys_iff] at hk
      exact Bool.eq_iff_iff.mpr hk
    · intro k v w hv hw
      apply hvals k
      · exact (mem_arranged_iff k _ ms).mpr ⟨v,hv,rfl⟩
      · exact (mem_arranged_iff k _ ns).mpr ⟨w,hw,rfl⟩
  · rintro ⟨hkeys,hvals⟩
    constructor
    · intro k
      rw [mem_arranged_keys_iff,mem_arranged_keys_iff,hkeys k]
    · intro k a b ha hb
      obtain ⟨v,hv,rfl⟩ := (mem_arranged_iff k a ms).mp ha
      obtain ⟨w,hw,rfl⟩ := (mem_arranged_iff k b ns).mp hb
      exact hvals k v w hv hw

/-- Documents in order are alike exactly when the values are equal. -/
theorem arrange_alike_iff (hlt : KeyOrder lt) (rn : ν → ν → Prop) (v w : Json σ ν) :
    Alike Eq rn (arrange lt v) (arrange lt w) ↔ Equal rn v w := by
  induction v using induction generalizing w with
  | null =>
    cases w with
    | null => exact iff_of_true trivial .null
    | _ => exact iff_of_false (by simp [arrange,Alike]) (by intro h; cases h)
  | bool b =>
    cases w with
    | bool b' =>
      constructor
      · intro h
        obtain rfl : b = b' := by simpa [arrange,Alike] using h
        exact .bool b
      · intro h
        cases h
        simp [arrange,Alike]
    | _ => exact iff_of_false (by simp [arrange,Alike]) (by intro h; cases h)
  | num x =>
    cases w with
    | num y =>
      constructor
      · intro h
        exact .num h
      · intro h
        cases h with
        | num h => exact h
    | _ => exact iff_of_false (by simp [arrange,Alike]) (by intro h; cases h)
  | str s =>
    cases w with
    | str t =>
      constructor
      · intro h
        obtain rfl : s = t := by simpa [arrange,Alike] using h
        exact .str s
      · intro h
        cases h
        simp [arrange,Alike]
    | _ => exact iff_of_false (by simp [arrange,Alike]) (by intro h; cases h)
  | arr vs ih =>
    cases w with
    | arr ws =>
      rw [arrange,arrange,Alike,alikeList_iff,arrangeList_eq,arrangeList_eq,List.length_map,List.length_map]
      constructor
      · rintro ⟨hlen,h⟩
        refine .arr hlen ?_
        intro p hp
        apply (ih p.1 (List.of_mem_zip hp).1 p.2).mp
        apply h (arrange lt p.1,arrange lt p.2)
        rw [List.zip_map]
        exact List.mem_map.mpr ⟨p,hp,rfl⟩
      · intro h
        cases h with
        | arr hlen h =>
          refine ⟨hlen,?_⟩
          intro p hp
          rw [List.zip_map] at hp
          obtain ⟨q,hq,rfl⟩ := List.mem_map.mp hp
          exact (ih q.1 (List.of_mem_zip hq).1 q.2).mpr (h q hq)
    | _ => exact iff_of_false (by simp [arrange,Alike]) (by intro h; cases h)
  | obj ms ih =>
    cases w with
    | obj ns =>
      rw [arrange,arrange,Alike,arranged_members_iff hlt]
      constructor
      · rintro ⟨hkeys,h⟩
        refine .obj hkeys ?_
        intro k v w hv hw
        exact (ih (k,v) (mem_of_lookup hv) w).mp (h k v w hv hw)
      · intro h
        cases h with
        | obj hkeys h =>
          refine ⟨hkeys,?_⟩
          intro k v w hv hw
          exact (ih (k,v) (mem_of_lookup hv) w).mpr (h k v w hv hw)
    | _ => exact iff_of_false (by simp [arrange,Alike]) (by intro h; cases h)

end Sorted

section Operations

variable [DecidableEq σ]

theorem Equal.refl {rn : ν → ν → Prop} (hrn : ∀ x, rn x x) (v : Json σ ν) : Equal rn v v := by
  induction v using induction with
  | null => exact .null
  | bool b => exact .bool b
  | num n => exact .num (hrn n)
  | str s => exact .str s
  | arr vs ih =>
    refine .arr rfl ?_
    intro p hp
    obtain ⟨i,hi,rfl⟩ := List.mem_iff_getElem.mp hp
    rw [List.getElem_zip]
    exact ih _ (List.getElem_mem _)
  | obj ms ih =>
    refine .obj (fun _ => rfl) ?_
    intro k v w hv hw
    obtain rfl : v = w := Option.some.inj (hv.symm.trans hw)
    exact ih (k,v) (mem_of_lookup hv)

theorem isSome_lookup_bindMembers (f : ν → Json σ μ) (k : σ) (ms : List (σ × Json σ ν)) :
    (lookup k (bindMembers f ms)).isSome = (lookup k ms).isSome := by
  rw [lookup_bindMembers,Option.isSome_map]

theorem Equal.bind {rn : ν → ν → Prop} {rm : μ → μ → Prop} {f : ν → Json σ μ}
    (hf : ∀ x y, rn x y → Equal rm (f x) (f y)) {v w : Json σ ν} (h : Equal rn v w) :
    Equal rm (bind f v) (bind f w) := by
  induction h with
  | null => exact .null
  | bool b => exact .bool b
  | num h => exact hf _ _ h
  | str s => exact .str s
  | arr hlen _ ih =>
    rw [Json.bind,Json.bind,bindList_eq,bindList_eq]
    refine .arr (by simpa using hlen) ?_
    intro p hp
    rw [List.zip_map] at hp
    obtain ⟨q,hq,rfl⟩ := List.mem_map.mp hp
    exact ih q hq
  | obj hkeys _ ih =>
    rw [Json.bind,Json.bind]
    refine .obj ?_ ?_
    · intro k
      rw [isSome_lookup_bindMembers,isSome_lookup_bindMembers,hkeys k]
    · intro k a b ha hb
      rw [lookup_bindMembers,Option.map_eq_some_iff] at ha hb
      obtain ⟨v,hv,rfl⟩ := ha
      obtain ⟨w,hw,rfl⟩ := hb
      exact ih k v w hv hw

theorem equal_bind_num_iff (rm : μ → μ → Prop) (f : ν → μ) (v w : Json σ ν) :
    Equal rm (bind (fun x => .num (f x)) v) (bind (fun x => .num (f x)) w) ↔
      Equal (fun x y => rm (f x) (f y)) v w := by
  constructor
  · intro h
    induction v using induction generalizing w with
    | null =>
      cases w with
      | null => exact .null
      | _ => simp only [bind] at h; cases h
    | bool b =>
      cases w with
      | bool b' => simp only [bind] at h; cases h; exact .bool b
      | _ => simp only [bind] at h; cases h
    | num x =>
      cases w with
      | num y =>
        simp only [bind] at h
        cases h with
        | num h => exact .num h
      | _ => simp only [bind] at h; cases h
    | str s =>
      cases w with
      | str t => simp only [bind] at h; cases h; exact .str s
      | _ => simp only [bind] at h; cases h
    | arr vs ih =>
      cases w with
      | arr ws =>
        rw [bind,bind,bindList_eq,bindList_eq] at h
        cases h with
        | arr hlen h =>
          refine .arr (by simpa using hlen) ?_
          intro p hp
          apply ih p.1 (List.of_mem_zip hp).1
          apply h (bind _ p.1,bind _ p.2)
          rw [List.zip_map]
          exact List.mem_map.mpr ⟨p,hp,rfl⟩
      | _ => simp only [bind] at h; cases h
    | obj ms ih =>
      cases w with
      | obj ns =>
        rw [bind,bind] at h
        cases h with
        | obj hkeys h =>
          refine .obj ?_ ?_
          · intro k
            have hk := hkeys k
            rwa [isSome_lookup_bindMembers,isSome_lookup_bindMembers] at hk
          · intro k v w hv hw
            apply ih (k,v) (mem_of_lookup hv)
            apply h k
            · rw [lookup_bindMembers,hv]
              rfl
            · rw [lookup_bindMembers,hw]
              rfl
      | _ => simp only [bind] at h; cases h
  · intro h
    have hnum : ∀ x y, rm (f x) (f y) → Equal rm (.num (f x) : Json σ μ) (.num (f y)) := fun x y hxy => .num hxy
    exact h.bind hnum

theorem isSome_lookup_removeKeysMembers (p : σ → Bool) (k : σ) (ms : List (σ × Json σ ν)) :
    (lookup k (removeKeysMembers p ms)).isSome = (!p k && (lookup k ms).isSome) := by
  rw [lookup_removeKeysMembers]
  cases p k <;> simp

theorem Equal.removeKeys {rn : ν → ν → Prop} {v w : Json σ ν} (p : σ → Bool) (h : Equal rn v w) :
    Equal rn (removeKeys p v) (removeKeys p w) := by
  induction h with
  | null => exact .null
  | bool b => exact .bool b
  | num h => exact .num h
  | str s => exact .str s
  | arr hlen _ ih =>
    rw [Json.removeKeys,Json.removeKeys,removeKeysList_eq,removeKeysList_eq]
    refine .arr (by simpa using hlen) ?_
    intro q hq
    rw [List.zip_map] at hq
    obtain ⟨r,hr,rfl⟩ := List.mem_map.mp hq
    exact ih r hr
  | obj hkeys _ ih =>
    rw [Json.removeKeys,Json.removeKeys]
    refine .obj ?_ ?_
    · intro k
      rw [isSome_lookup_removeKeysMembers,isSome_lookup_removeKeysMembers,hkeys k]
    · intro k a b ha hb
      rw [lookup_removeKeysMembers] at ha hb
      split_ifs at ha hb with hp
      obtain ⟨v,hv,rfl⟩ := Option.map_eq_some_iff.mp ha
      obtain ⟨w,hw,rfl⟩ := Option.map_eq_some_iff.mp hb
      exact ih k v w hv hw

end Operations

theorem bindMembers_removeKeysMembers {f : ν → Json σ μ} {p : σ → Bool} {ms : List (σ × Json σ ν)}
    (h : ∀ m ∈ ms, removeKeys p (bind f m.2) = bind f (removeKeys p m.2)) :
    removeKeysMembers p (bindMembers f ms) = bindMembers f (removeKeysMembers p ms) := by
  induction ms with
  | nil => rfl
  | cons m ms ih =>
    obtain ⟨k,v⟩ := m
    rw [List.forall_mem_cons] at h
    rw [bindMembers,removeKeysMembers,removeKeysMembers,ih h.2,h.1]
    split_ifs <;> rfl

theorem removeKeys_bind {f : ν → Json σ μ} {p : σ → Bool} (hf : ∀ x, removeKeys p (f x) = f x) (v : Json σ ν) :
    removeKeys p (bind f v) = bind f (removeKeys p v) := by
  induction v using induction with
  | null => rfl
  | bool b => rfl
  | num n => exact hf n
  | str s => rfl
  | arr vs ih =>
    rw [bind,removeKeys,removeKeys,bind,bindList_eq,bindList_eq,removeKeysList_eq,removeKeysList_eq,List.map_map,
      List.map_map]
    congr 1
    exact List.map_congr_left ih
  | obj ms ih => rw [bind,removeKeys,removeKeys,bind,bindMembers_removeKeysMembers ih]

theorem removeKeysMembers_twice {p q : σ → Bool} {ms : List (σ × Json σ ν)}
    (h : ∀ m ∈ ms, removeKeys p (removeKeys q m.2) = removeKeys (fun k => q k || p k) m.2) :
    removeKeysMembers p (removeKeysMembers q ms) = removeKeysMembers (fun k => q k || p k) ms := by
  induction ms with
  | nil => rfl
  | cons m ms ih =>
    obtain ⟨k,v⟩ := m
    rw [List.forall_mem_cons] at h
    rw [removeKeysMembers,removeKeysMembers]
    by_cases hq : q k = true
    · simp only [hq,if_true,Bool.true_or]
      exact ih h.2
    · rw [if_neg hq,removeKeysMembers,ih h.2,h.1]
      simp [hq]

theorem removeKeys_removeKeys (p q : σ → Bool) (v : Json σ ν) :
    removeKeys p (removeKeys q v) = removeKeys (fun k => q k || p k) v := by
  induction v using induction with
  | null => rfl
  | bool b => rfl
  | num n => rfl
  | str s => rfl
  | arr vs ih =>
    rw [removeKeys,removeKeys,removeKeys,removeKeysList_eq,removeKeysList_eq,removeKeysList_eq,List.map_map]
    congr 1
    exact List.map_congr_left ih
  | obj ms ih => rw [removeKeys,removeKeys,removeKeys,removeKeysMembers_twice ih]

theorem removeKeysMembers_false {ms : List (σ × Json σ ν)} (h : ∀ m ∈ ms, removeKeys (fun _ => false) m.2 = m.2) :
    removeKeysMembers (fun _ => false) ms = ms := by
  induction ms with
  | nil => rfl
  | cons m ms ih =>
    obtain ⟨k,v⟩ := m
    rw [List.forall_mem_cons] at h
    rw [removeKeysMembers,ih h.2,h.1]
    rfl

theorem removeKeys_false (v : Json σ ν) : removeKeys (fun _ => false) v = v := by
  induction v using induction with
  | null => rfl
  | bool b => rfl
  | num n => rfl
  | str s => rfl
  | arr vs ih =>
    rw [removeKeys,removeKeysList_eq]
    congr 1
    rw [List.map_congr_left ih,List.map_id']
  | obj ms ih => rw [removeKeys,removeKeysMembers_false ih]

theorem bindMembers_bindMembers {g : μ → Json σ κ} {f : ν → Json σ μ} {ms : List (σ × Json σ ν)}
    (h : ∀ m ∈ ms, bind g (bind f m.2) = bind (fun x => bind g (f x)) m.2) :
    bindMembers g (bindMembers f ms) = bindMembers (fun x => bind g (f x)) ms := by
  induction ms with
  | nil => rfl
  | cons m ms ih =>
    obtain ⟨k,v⟩ := m
    rw [List.forall_mem_cons] at h
    rw [bindMembers,bindMembers,bindMembers,ih h.2,h.1]

theorem bind_bind (g : μ → Json σ κ) (f : ν → Json σ μ) (v : Json σ ν) :
    bind g (bind f v) = bind (fun x => bind g (f x)) v := by
  induction v using induction with
  | null => rfl
  | bool b => rfl
  | num n => rfl
  | str s => rfl
  | arr vs ih =>
    rw [bind,bind,bind,bindList_eq,bindList_eq,bindList_eq,List.map_map]
    congr 1
    exact List.map_congr_left ih
  | obj ms ih => rw [bind,bind,bind,bindMembers_bindMembers ih]

variable {τ : Type}

theorem convertList_bind {f : τ → σ} {g : κ → Option (Json σ ν)} {r : ν → Json σ μ} {vs : List (Json τ κ)}
    (h : ∀ v ∈ vs, convert f (fun l => (g l).map (bind r)) v = (convert f g v).map (bind r)) :
    convertList f (fun l => (g l).map (bind r)) vs = (convertList f g vs).map (bindList r) := by
  induction vs with
  | nil => rfl
  | cons v vs ih =>
    rw [List.forall_mem_cons] at h
    rw [convertList,convertList,ih h.2,h.1]
    cases convert f g v with
    | none => rfl
    | some w => cases convertList f g vs <;> rfl

theorem convertMembers_bind {f : τ → σ} {g : κ → Option (Json σ ν)} {r : ν → Json σ μ} {ms : List (τ × Json τ κ)}
    (h : ∀ m ∈ ms, convert f (fun l => (g l).map (bind r)) m.2 = (convert f g m.2).map (bind r)) :
    convertMembers f (fun l => (g l).map (bind r)) ms = (convertMembers f g ms).map (bindMembers r) := by
  induction ms with
  | nil => rfl
  | cons m ms ih =>
    obtain ⟨k,v⟩ := m
    rw [List.forall_mem_cons] at h
    rw [convertMembers,convertMembers,ih h.2,h.1]
    cases convert f g v with
    | none => rfl
    | some w => cases convertMembers f g ms <;> rfl

/-- Numbers may be replaced while a document is converted or afterwards. -/
theorem convert_bind (f : τ → σ) (g : κ → Option (Json σ ν)) (r : ν → Json σ μ) (v : Json τ κ) :
    convert f (fun l => (g l).map (bind r)) v = (convert f g v).map (bind r) := by
  induction v using induction with
  | null => rfl
  | bool b => rfl
  | num n => rfl
  | str s => rfl
  | arr vs ih =>
    rw [convert,convert,convertList_bind ih]
    cases convertList f g vs <;> rfl
  | obj ms ih =>
    rw [convert,convert,convertMembers_bind ih]
    cases convertMembers f g ms <;> rfl

end Json
end Clearvoiance
