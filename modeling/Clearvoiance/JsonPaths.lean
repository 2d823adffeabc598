import Clearvoiance.JsonFrame

/-! The value at the end of a path of keys, and what it is in documents that are alike. -/
namespace Clearvoiance
namespace Json

variable {σ τ ν μ : Type}

/-- The value at the end of a path, which leads through objects only. -/
def valueAt [DecidableEq σ] : List σ → Json σ ν → Option (Json σ ν)
  | [],v => some v
  | k :: ks,.obj ms => (lookup k ms).bind (valueAt ks)
  | _ :: _,_ => none

def IsLeaf : Json σ ν → Prop
  | .arr _ | .obj _ => False
  | _ => True

/-- Alike documents stay alike when the strings and numbers of the one are replaced accordingly. -/
theorem alike_map_left {σ' ν' : Type} {rs : σ → σ' → Prop} {rn : ν → ν' → Prop} {rs' : τ → σ' → Prop}
    {rn' : μ → ν' → Prop} {f : σ → τ} {g : ν → μ} (hs : ∀ s t, rs s t → rs' (f s) t)
    (hn : ∀ x y, rn x y → rn' (g x) y) {v : Json σ ν} {w : Json σ' ν'} (h : Alike rs rn v w) :
    Alike rs' rn' (map f g v) w := by
  induction v using induction generalizing w with
  | null => cases w <;> simp_all [map,Alike]
  | bool b => cases w <;> simp_all [map,Alike]
  | num x =>
    cases w with
    | num y => exact hn x y h
    | _ => simp [Alike] at h
  | str s =>
    cases w with
    | str t => exact hs s t h
    | _ => simp [Alike] at h
  | arr vs ih =>
    cases w with
    | arr ws =>
      obtain ⟨hlen,hall⟩ := (alikeList_iff rs rn vs ws).mp h
      rw [map,mapList_eq]
      refine (alikeList_iff rs' rn' _ ws).mpr ⟨by simpa using hlen,fun p hp => ?_⟩
      rw [List.zip_map_left] at hp
      obtain ⟨q,hq,rfl⟩ := List.mem_map.mp hp
      exact ih q.1 (List.of_mem_zip hq).1 (hall q hq)
    | _ => simp [Alike] at h
  | obj ms ih =>
    cases w with
    | obj ns =>
      have hmembers := (alikeMembers_iff rs rn ms ns).mp h
      rw [map,mapMembers_eq]
      refine (alikeMembers_iff rs' rn' _ ns).mpr ?_
      rw [List.forall₂_map_left_iff]
      exact ((List.forall₂_and_left ms ns).mpr ⟨ih,hmembers⟩).imp fun m n hmn => ⟨hs _ _ hmn.2.1,hmn.1 hmn.2.2⟩
    | _ => simp [Alike] at h

section

variable [DecidableEq σ]

@[simp] theorem valueAt_nil (v : Json σ ν) : valueAt [] v = some v := by cases v <;> rfl

@[simp] theorem valueAt_obj (k : σ) (ks : List σ) (ms : List (σ × Json σ ν)) :
    valueAt (k :: ks) (.obj ms) = (lookup k ms).bind (valueAt ks) := rfl

theorem valueAt_cons_eq_some {k : σ} {ks : List σ} {v w : Json σ ν} (h : valueAt (k :: ks) v = some w) :
    ∃ ms u, v = .obj ms ∧ lookup k ms = some u ∧ valueAt ks u = some w := by
  cases v with
  | obj ms =>
    obtain ⟨u,hu,hw⟩ := Option.bind_eq_some_iff.mp h
    exact ⟨ms,u,rfl,hu,hw⟩
  | _ => cases h

/-- Documents with other numbers have other numbers at the ends of their paths. -/
theorem valueAt_map_id (g : ν → μ) (ks : List σ) (v : Json σ ν) :
    valueAt ks (map id g v) = (valueAt ks v).map (map id g) := by
  induction ks generalizing v with
  | nil => simp
  | cons k ks ih =>
    cases v with
    | obj ms =>
      have hlook := lookup_mapMembers (g := g) Function.injective_id k ms
      rw [id] at hlook
      rw [map,valueAt_obj,valueAt_obj,hlook]
      cases lookup k ms with
      | none => rfl
      | some u => exact ih u
    | _ => rfl

theorem valueAt_framed {ks : List σ} {v w u : Json σ ν} (h : Framed [] v w) (hu : valueAt ks v = some u)
    (hleaf : IsLeaf u) : valueAt ks w = some u := by
  induction ks generalizing v w with
  | nil =>
    rw [valueAt_nil,Option.some.injEq] at hu ⊢
    subst hu
    cases h with
    | listed h => cases h
    | arr _ _ => cases hleaf
    | obj _ _ => cases hleaf
    | _ => rfl
  | cons k ks ih =>
    obtain ⟨ms,a,rfl,ha,hrest⟩ := valueAt_cons_eq_some hu
    cases h with
    | listed h => cases h
    | @obj _ _ ns hkeys hvals =>
      obtain ⟨b,hb⟩ := Option.isSome_iff_exists.mp ((hkeys k).symm.trans (by rw [ha]; rfl))
      rw [valueAt_obj,hb]
      exact ih (hvals k a b ha hb) hrest

/-- Documents that are alike have values that are alike at the ends of their paths. -/
theorem valueAt_alike {rn : ν → μ → Prop} {ks : List σ} {v u : Json σ ν} {w : Json σ μ} (h : Alike Eq rn v w)
    (hu : valueAt ks v = some u) : ∃ a, valueAt ks w = some a ∧ Alike Eq rn u a := by
  induction ks generalizing v w with
  | nil =>
    rw [valueAt_nil,Option.some.injEq] at hu
    subst hu
    exact ⟨w,valueAt_nil w,h⟩
  | cons k ks ih =>
    obtain ⟨ms,a,rfl,ha,hrest⟩ := valueAt_cons_eq_some hu
    cases w with
    | obj ns =>
      have hmembers := (alikeMembers_iff Eq rn ms ns).mp h
      obtain ⟨hkeys,hvals⟩ := lookup_forall₂ (r := Alike Eq rn) hmembers k
      rw [ha] at hkeys
      obtain ⟨b,hb⟩ := Option.isSome_iff_exists.mp hkeys.symm
      rw [valueAt_obj,hb]
      exact ih (hvals a b ha hb) hrest
    | _ => simp [Alike] at h

end

end Json
end Clearvoiance
