import Clearvoiance.JsonRoundTrip

/-! Documents that agree but for the values at listed paths.  A path leads through objects only; two documents are
compared as `Equal` compares them, except below the end of a path. -/
namespace Clearvoiance
namespace Json

variable {σ τ ν μ : Type}

/-- What is left of the paths that begin with a key. -/
def under [DecidableEq σ] (k : σ) (ps : List (List σ)) : List (List σ) :=
  ps.filterMap fun
    | [] => none
    | l :: q => if l = k then some q else none

/-- Documents that agree but for the values at the paths. -/
inductive Framed [DecidableEq σ] : List (List σ) → Json σ ν → Json σ ν → Prop
  | listed {ps : List (List σ)} {v w : Json σ ν} (h : [] ∈ ps) : Framed ps v w
  | null {ps : List (List σ)} : Framed ps .null .null
  | bool {ps : List (List σ)} (b : Bool) : Framed ps (.bool b) (.bool b)
  | num {ps : List (List σ)} (x : ν) : Framed ps (.num x) (.num x)
  | str {ps : List (List σ)} (s : σ) : Framed ps (.str s) (.str s)
  | arr {ps : List (List σ)} {vs ws : List (Json σ ν)} (hlen : vs.length = ws.length)
      (h : ∀ p ∈ vs.zip ws, Framed [] p.1 p.2) : Framed ps (.arr vs) (.arr ws)
  | obj {ps : List (List σ)} {ms ns : List (σ × Json σ ν)}
      (hkeys : ∀ k, (lookup k ms).isSome = (lookup k ns).isSome)
      (h : ∀ k v w, lookup k ms = some v → lookup k ns = some w → Framed (under k ps) v w) :
      Framed ps (.obj ms) (.obj ns)

/-- Outside the paths, a document has strings of one kind and numbers of one kind only. -/
inductive Within [DecidableEq σ] (S : σ → Prop) (N : ν → Prop) : List (List σ) → Json σ ν → Prop
  | listed {ps : List (List σ)} {v : Json σ ν} (h : [] ∈ ps) : Within S N ps v
  | null {ps : List (List σ)} : Within S N ps .null
  | bool {ps : List (List σ)} (b : Bool) : Within S N ps (.bool b)
  | num {ps : List (List σ)} {x : ν} (h : N x) : Within S N ps (.num x)
  | str {ps : List (List σ)} {s : σ} (h : S s) : Within S N ps (.str s)
  | arr {ps : List (List σ)} {vs : List (Json σ ν)} (h : ∀ v ∈ vs, Within S N [] v) : Within S N ps (.arr vs)
  | obj {ps : List (List σ)} {ms : List (σ × Json σ ν)} (hkeys : ∀ k, (lookup k ms).isSome = true → S k)
      (h : ∀ k v, lookup k ms = some v → Within S N (under k ps) v) : Within S N ps (.obj ms)

/-- The members with the value under one key replaced. -/
def update [DecidableEq σ] (k : σ) (f : Json σ ν → Json σ ν) (ms : List (σ × Json σ ν)) : List (σ × Json σ ν) :=
  ms.map fun m => if m.1 = k then (m.1,f m.2) else m

theorem isSome_lookup_iff [DecidableEq σ] (k : σ) (ms : List (σ × Json σ ν)) :
    (lookup k ms).isSome = true ↔ k ∈ ms.map Prod.fst := by
  rw [← not_iff_not,Bool.not_eq_true,Option.isSome_eq_false_iff,Option.isNone_iff_eq_none,lookup_eq_none_iff]

theorem key_of_lookup_mapMembers [DecidableEq τ] {f : σ → τ} {g : ν → μ} {l : τ}
    {ms : List (σ × Json σ ν)} (h : (lookup l (mapMembers f g ms)).isSome = true) :
    ∃ k, f k = l := by
  rw [isSome_lookup_iff,mapMembers_eq,List.map_map] at h
  obtain ⟨m,-,hm⟩ := List.mem_map.mp h
  exact ⟨m.1,hm⟩

theorem within_map [DecidableEq τ] {f : σ → τ} {g : ν → μ} {S : τ → Prop} {N : μ → Prop}
    (hS : ∀ s, S (f s)) (hN : ∀ n, N (g n)) (ps : List (List τ))
    (v : Json σ ν) : Within S N ps (map f g v) := by
  induction v using induction generalizing ps with
  | null => exact .null
  | bool b => exact .bool b
  | num x => exact .num (hN x)
  | str s => exact .str (hS s)
  | arr vs ih =>
    rw [map,mapList_eq]
    refine .arr fun v hv => ?_
    obtain ⟨u,hu,rfl⟩ := List.mem_map.mp hv
    exact ih u hu []
  | obj ms ih =>
    rw [map]
    refine .obj (fun l hl => ?_) fun l v hv => ?_
    · obtain ⟨k,rfl⟩ := key_of_lookup_mapMembers hl
      exact hS k
    · have hmem := mem_of_lookup hv
      rw [mapMembers_eq] at hmem
      obtain ⟨m,hm,hmv⟩ := List.mem_map.mp hmem
      cases hmv
      exact ih m hm _

section Frame

variable [DecidableEq σ]

theorem mem_under_iff {k : σ} {q : List σ} {ps : List (List σ)} : q ∈ under k ps ↔ k :: q ∈ ps := by
  unfold under
  rw [List.mem_filterMap]
  constructor
  · rintro ⟨p,hp,h⟩
    cases p with
    | nil => cases h
    | cons l p =>
      simp only [Option.ite_none_right_eq_some,Option.some.injEq] at h
      obtain ⟨rfl,rfl⟩ := h
      exact hp
  · intro h
    exact ⟨_,h,by simp⟩

@[simp] theorem under_nil (k : σ) : under k [] = [] := rfl

theorem Framed.refl (ps : List (List σ)) (v : Json σ ν) : Framed ps v v := by
  induction v using induction generalizing ps with
  | null => exact .null
  | bool b => exact .bool b
  | num x => exact .num x
  | str s => exact .str s
  | arr vs ih =>
    refine .arr rfl fun p hp => ?_
    obtain ⟨i,hi,rfl⟩ := List.mem_iff_getElem.mp hp
    rw [List.getElem_zip]
    exact ih _ (List.getElem_mem _) []
  | obj ms ih =>
    refine .obj (fun _ => rfl) fun k v w hv hw => ?_
    obtain rfl : v = w := Option.some.inj (hv.symm.trans hw)
    exact ih (k,v) (mem_of_lookup hv) _

theorem Framed.symm {ps : List (List σ)} {v w : Json σ ν} (h : Framed ps v w) : Framed ps w v := by
  induction h with
  | listed h => exact .listed h
  | null => exact .null
  | bool b => exact .bool b
  | num x => exact .num x
  | str s => exact .str s
  | arr hlen _ ih =>
    refine .arr hlen.symm fun p hp => ?_
    apply ih (p.2,p.1)
    rw [← List.zip_swap]
    exact List.mem_map.mpr ⟨p,hp,rfl⟩
  | obj hkeys _ ih => exact .obj (fun k => (hkeys k).symm) fun k v w hv hw => ih k w v hw hv

theorem Framed.trans {ps : List (List σ)} {u v w : Json σ ν} (h : Framed ps u v) (h' : Framed ps v w) :
    Framed ps u w := by
  induction h generalizing w with
  | listed h => exact .listed h
  | null => exact h'
  | bool b => exact h'
  | num x => exact h'
  | str s => exact h'
  | @arr ps vs ws hlen h ih =>
    cases h' with
    | listed h => exact .listed h
    | @arr _ _ us hlen' h' =>
      refine .arr (hlen.trans hlen') fun p hp => ?_
      obtain ⟨i,hi,rfl⟩ := List.mem_iff_getElem.mp hp
      rw [List.length_zip] at hi
      rw [List.getElem_zip]
      have hmid : i < ws.length := by omega
      have h₁ : (vs[i],ws[i]) ∈ vs.zip ws := List.mem_iff_getElem.mpr ⟨i,by simp; omega,List.getElem_zip⟩
      have h₂ : (ws[i],us[i]) ∈ ws.zip us := List.mem_iff_getElem.mpr ⟨i,by simp; omega,List.getElem_zip⟩
      exact ih _ h₁ (h' _ h₂)
  | @obj ps ms ns hkeys h ih =>
    cases h' with
    | listed h => exact .listed h
    | obj hkeys' h' =>
      refine .obj (fun k => (hkeys k).trans (hkeys' k)) fun k u w hu hw => ?_
      have hsome : (lookup k ns).isSome = true := by rw [← hkeys k,hu]; rfl
      obtain ⟨v,hv⟩ := Option.isSome_iff_exists.mp hsome
      exact ih k u v hu hv (h' k v w hv hw)

theorem Framed.mono {ps qs : List (List σ)} (hsub : ps ⊆ qs) {v w : Json σ ν} (h : Framed ps v w) : Framed qs v w := by
  induction h generalizing qs with
  | listed h => exact .listed (hsub h)
  | null => exact .null
  | bool b => exact .bool b
  | num x => exact .num x
  | str s => exact .str s
  | arr hlen h _ => exact .arr hlen h
  | obj hkeys _ ih =>
    refine .obj hkeys fun k v w hv hw => ih k v w hv hw fun q hq => ?_
    exact mem_under_iff.mpr (hsub (mem_under_iff.mp hq))

theorem lookup_update (k l : σ) (f : Json σ ν → Json σ ν) (ms : List (σ × Json σ ν)) :
    lookup l (update k f ms) = if l = k then (lookup l ms).map f else lookup l ms := by
  induction ms with
  | nil => simp [update,lookup]
  | cons m ms ih =>
    obtain ⟨j,v⟩ := m
    have hcons : update k f ((j,v) :: ms) = (if j = k then (j,f v) else (j,v)) :: update k f ms := rfl
    rw [hcons]
    by_cases hj : j = k
    · rw [if_pos hj,lookup,lookup,ih]
      by_cases hl : l = k
      · subst hl
        subst hj
        cases lookup j ms <;> simp
      · have hne : j ≠ l := fun h => hl (h.symm.trans hj)
        simp [hl,hne]
    · rw [if_neg hj,lookup,lookup,ih]
      by_cases hl : l = k
      · simp [hl,hj]
      · simp [hl]

theorem framed_update {ps : List (List σ)} {k : σ} {f : Json σ ν → Json σ ν} (hf : ∀ v, Framed (under k ps) v (f v))
    (ms : List (σ × Json σ ν)) : Framed ps (.obj ms) (.obj (update k f ms)) := by
  refine .obj (fun l => ?_) fun l v w hv hw => ?_
  · rw [lookup_update]
    split_ifs <;> simp
  · rw [lookup_update,hv] at hw
    split_ifs at hw with hl
    · cases hw
      rw [hl]
      exact hf v
    · cases hw
      exact .refl _ v

/-- What agrees with a document of one kind is of the kind. -/
theorem within_of_framed {S : σ → Prop} {N : ν → Prop} {ps : List (List σ)} {v w : Json σ ν} (h : Framed ps v w)
    (hw : Within S N [] w) : Within S N ps v := by
  induction h with
  | listed h => exact .listed h
  | null => exact .null
  | bool b => exact .bool b
  | num x =>
    cases hw with
    | listed h => cases h
    | num h => exact .num h
  | str s =>
    cases hw with
    | listed h => cases h
    | str h => exact .str h
  | @arr ps vs ws hlen _ ih =>
    cases hw with
    | listed h => cases h
    | arr hws =>
      refine .arr fun v hv => ?_
      obtain ⟨i,hi,rfl⟩ := List.mem_iff_getElem.mp hv
      have hmem : (vs[i],ws[i]) ∈ vs.zip ws := List.mem_iff_getElem.mpr ⟨i,by simp; omega,List.getElem_zip⟩
      exact ih _ hmem (hws _ (List.getElem_mem _))
  | @obj ps ms ns hkeys _ ih =>
    cases hw with
    | listed h => cases h
    | obj hkeys' hns =>
      refine .obj (fun k hk => hkeys' k ((hkeys k).symm.trans hk)) fun k v hv => ?_
      have hsome : (lookup k ns).isSome = true := by rw [← hkeys k,hv]; rfl
      obtain ⟨w,hw⟩ := Option.isSome_iff_exists.mp hsome
      exact ih k v w hv hw (hns k w hw)

/-- Bringing an object into order does not change what it holds. -/
theorem framed_arrange (lt : σ → σ → Bool) (ps : List (List σ)) (v : Json σ ν) : Framed ps v (arrange lt v) := by
  induction v using induction generalizing ps with
  | null => exact .null
  | bool b => exact .bool b
  | num x => exact .num x
  | str s => exact .str s
  | arr vs ih =>
    rw [arrange,arrangeList_eq]
    refine .arr (by simp) fun p hp => ?_
    obtain ⟨i,hi,rfl⟩ := List.mem_iff_getElem.mp hp
    rw [List.getElem_zip,List.getElem_map]
    exact ih _ (List.getElem_mem _) []
  | obj ms ih =>
    rw [arrange]
    refine .obj (fun k => ?_) fun k v w hv hw => ?_
    · rw [Bool.eq_iff_iff,isSome_lookup_iff k (sortMembers _ _),mem_arranged_keys_iff]
    · obtain ⟨u,hu,rfl⟩ := (mem_arranged_iff k w ms).mp (mem_of_lookup hw)
      obtain rfl : u = v := Option.some.inj (hu.symm.trans hv)
      exact ih (k,u) (mem_of_lookup hu) _

variable [DecidableEq τ] {f : σ → τ} {g : ν → μ}

theorem lookup_mapMembers (hf : Function.Injective f) (k : σ) (ms : List (σ × Json σ ν)) :
    lookup (f k) (mapMembers f g ms) = (lookup k ms).map (map f g) := by
  induction ms with
  | nil => rfl
  | cons m ms ih =>
    obtain ⟨l,v⟩ := m
    rw [mapMembers,lookup,lookup,ih]
    cases lookup k ms with
    | some w => rfl
    | none => by_cases hl : l = k <;> simp [hl,hf.eq_iff]

def renamed (f : σ → τ) (ps : List (List σ)) : List (List τ) := ps.map (List.map f)

theorem renamed_under_subset (k : σ) (ps : List (List σ)) : renamed f (under k ps) ⊆ under (f k) (renamed f ps) := by
  intro q hq
  obtain ⟨r,hr,rfl⟩ := List.mem_map.mp hq
  exact mem_under_iff.mpr (List.mem_map.mpr ⟨k :: r,mem_under_iff.mp hr,rfl⟩)

theorem Framed.map (hf : Function.Injective f) {ps : List (List σ)} {v w : Json σ ν} (h : Framed ps v w) :
    Framed (renamed f ps) (Json.map f g v) (Json.map f g w) := by
  induction h with
  | listed h => exact .listed (List.mem_map.mpr ⟨[],h,rfl⟩)
  | null => exact .null
  | bool b => exact .bool b
  | num x => exact .num (g x)
  | str s => exact .str (f s)
  | arr hlen _ ih =>
    rw [Json.map,Json.map,mapList_eq,mapList_eq]
    refine .arr (by simpa using hlen) fun p hp => ?_
    rw [List.zip_map] at hp
    obtain ⟨q,hq,rfl⟩ := List.mem_map.mp hp
    exact ih q hq
  | @obj ps ms ns hkeys _ ih =>
    rw [Json.map,Json.map]
    have hsame : ∀ k, (lookup (f k) (mapMembers f g ms)).isSome = (lookup (f k) (mapMembers f g ns)).isSome := by
      intro k
      rw [lookup_mapMembers hf,lookup_mapMembers hf,Option.isSome_map,Option.isSome_map,hkeys k]
    refine .obj (fun l => ?_) fun l v w hv hw => ?_
    · rw [Bool.eq_iff_iff]
      constructor
      · intro h
        obtain ⟨k,rfl⟩ := key_of_lookup_mapMembers h
        rwa [← hsame k]
      · intro h
        obtain ⟨k,rfl⟩ := key_of_lookup_mapMembers h
        rwa [hsame k]
    · obtain ⟨k,rfl⟩ := key_of_lookup_mapMembers (l := l) (by rw [hv]; rfl)
      rw [lookup_mapMembers hf,Option.map_eq_some_iff] at hv hw
      obtain ⟨v',hv',rfl⟩ := hv
      obtain ⟨w',hw',rfl⟩ := hw
      exact (ih k v' w' hv' hw').mono (renamed_under_subset k ps)

end Frame

section Agreement

variable [DecidableEq τ] {σ' ν' : Type}

theorem lookup_forall₂ {r : Json τ μ → Json τ ν' → Prop} {ms : List (τ × Json τ μ)} {ns : List (τ × Json τ ν')}
    (h : List.Forall₂ (fun m n => m.1 = n.1 ∧ r m.2 n.2) ms ns) (k : τ) :
    (lookup k ms).isSome = (lookup k ns).isSome ∧ ∀ v w, lookup k ms = some v → lookup k ns = some w → r v w := by
  induction h with
  | nil => exact ⟨rfl,nofun⟩
  | @cons m n ms ns hmn _ ih =>
    obtain ⟨l,u⟩ := m
    obtain ⟨l',u'⟩ := n
    obtain ⟨rfl,hr⟩ := hmn
    obtain ⟨hsome,hvals⟩ := ih
    rw [lookup,lookup]
    cases hms : lookup k ms with
    | some v =>
      rw [hms] at hsome
      obtain ⟨w,hw⟩ := Option.isSome_iff_exists.mp hsome.symm
      rw [hw]
      refine ⟨rfl,fun a b ha hb => ?_⟩
      cases ha
      cases hb
      exact hvals v w hms hw
    | none =>
      rw [hms] at hsome
      rw [Option.isNone_iff_eq_none.mp (Option.isSome_eq_false_iff.mp hsome.symm)]
      by_cases hl : l = k
      · simp only [hl,if_true,Option.none_or]
        refine ⟨rfl,fun a b ha hb => ?_⟩
        cases ha
        cases hb
        exact hr
      · simp [hl]

/-- Two readings of a document agree where its strings and numbers are of the kind on which the readings agree. -/
theorem framed_of_within {S : τ → Prop} {N : μ → Prop} {rs : σ → σ' → Prop} {rn : ν → ν' → Prop} {f : σ → τ}
    {g : ν → μ} {f' : σ' → τ} {g' : ν' → μ} (hs : ∀ s t, rs s t → S (f s) → f s = f' t)
    (hn : ∀ x y, rn x y → N (g x) → g x = g' y) {ps : List (List τ)} {v : Json σ ν} {w : Json σ' ν'}
    (hvw : Alike rs rn v w) (h : Within S N ps (map f g v)) : Framed ps (map f g v) (map f' g' w) := by
  induction v using induction generalizing w ps with
  | null =>
    cases w with
    | null => exact .null
    | _ => simp [Alike] at hvw
  | bool b =>
    cases w with
    | bool b' =>
      obtain rfl : b = b' := hvw
      exact .bool b
    | _ => simp [Alike] at hvw
  | num x =>
    cases w with
    | num y =>
      rw [map] at h ⊢
      rw [map]
      cases h with
      | listed h => exact .listed h
      | num h =>
        rw [hn x y hvw h]
        exact .num _
    | _ => simp [Alike] at hvw
  | str s =>
    cases w with
    | str t =>
      rw [map] at h ⊢
      rw [map]
      cases h with
      | listed h => exact .listed h
      | str h =>
        rw [hs s t hvw h]
        exact .str _
    | _ => simp [Alike] at hvw
  | arr vs ih =>
    cases w with
    | arr ws =>
      rw [map,mapList_eq] at h ⊢
      rw [map,mapList_eq]
      obtain ⟨hlen,hall⟩ := (alikeList_iff rs rn vs ws).mp hvw
      cases h with
      | listed h => exact .listed h
      | arr h =>
        refine .arr (by simpa using hlen) fun p hp => ?_
        rw [List.zip_map] at hp
        obtain ⟨q,hq,rfl⟩ := List.mem_map.mp hp
        have hmem := (List.of_mem_zip hq).1
        exact ih q.1 hmem (hall q hq) (h _ (List.mem_map.mpr ⟨q.1,hmem,rfl⟩))
    | _ => simp [Alike] at hvw
  | obj ms ih =>
    cases w with
    | obj ns =>
      rw [map] at h ⊢
      rw [map]
      cases h with
      | listed h => exact .listed h
      | obj hkeys hvals =>
        have hmembers := (alikeMembers_iff rs rn ms ns).mp hvw
        have hmem : ∀ m ∈ ms, S (f m.1) ∧ ∀ qs w, Alike rs rn m.2 w → Within S N qs (map f g m.2) →
            Framed qs (map f g m.2) (map f' g' w) := by
          intro m hm
          refine ⟨hkeys _ ?_,fun qs w hw hwithin => ih m hm hw hwithin⟩
          rw [isSome_lookup_iff,mapMembers_eq,List.map_map]
          exact List.mem_map.mpr ⟨m,hm,rfl⟩
        have hpairs : List.Forall₂ (fun m n => m.1 = n.1 ∧ ∀ qs, Within S N qs m.2 → Framed qs m.2 n.2)
            (mapMembers f g ms) (mapMembers f' g' ns) := by
          rw [mapMembers_eq,mapMembers_eq,List.forall₂_map_left_iff,List.forall₂_map_right_iff]
          refine ((List.forall₂_and_left ms ns).mpr ⟨hmem,hmembers⟩).imp fun m n hmn => ?_
          obtain ⟨⟨hS,hframe⟩,hkey,hval⟩ := hmn
          exact ⟨hs _ _ hkey hS,fun qs hq => hframe qs n.2 hval hq⟩
        have hlook := lookup_forall₂ (r := fun v w => ∀ qs, Within S N qs v → Framed qs v w) hpairs
        exact .obj (fun k => (hlook k).1) fun k v w hv hw => (hlook k).2 v w hv hw _ (hvals k v hv)
    | _ => simp [Alike] at hvw

end Agreement

end Json
end Clearvoiance
