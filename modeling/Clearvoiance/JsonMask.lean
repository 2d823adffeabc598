import Clearvoiance.JsonFrame

/-! Documents whose values under some keys are hidden.  Two documents that agree once a value is put in the place of
the hidden ones differ in these at most. -/
namespace Clearvoiance
namespace Json

variable {σ τ ν μ : Type}

mutual

/-- The document with one value under all the keys, at every depth. -/
def mask (p : σ → Bool) (x : Json σ ν) : Json σ ν → Json σ ν
  | .arr vs => .arr (maskList p x vs)
  | .obj ms => .obj (maskMembers p x ms)
  | .null => .null
  | .bool b => .bool b
  | .num n => .num n
  | .str s => .str s
termination_by structural v => v

def maskList (p : σ → Bool) (x : Json σ ν) : List (Json σ ν) → List (Json σ ν)
  | [] => []
  | v :: vs => mask p x v :: maskList p x vs
termination_by structural vs => vs

def maskMembers (p : σ → Bool) (x : Json σ ν) : List (σ × Json σ ν) → List (σ × Json σ ν)
  | [] => []
  | (k,v) :: ms => (k,if p k then x else mask p x v) :: maskMembers p x ms
termination_by structural ms => ms

end

mutual

/-- The document has one of the keys, at some depth. -/
def hasKey (p : σ → Bool) : Json σ ν → Bool
  | .arr vs => hasKeyList p vs
  | .obj ms => hasKeyMembers p ms
  | _ => false
termination_by structural v => v

def hasKeyList (p : σ → Bool) : List (Json σ ν) → Bool
  | [] => false
  | v :: vs => hasKey p v || hasKeyList p vs
termination_by structural vs => vs

def hasKeyMembers (p : σ → Bool) : List (σ × Json σ ν) → Bool
  | [] => false
  | (k,v) :: ms => p k || hasKey p v || hasKeyMembers p ms
termination_by structural ms => ms

end

section Mask

variable (p : σ → Bool)

theorem maskList_eq (x : Json σ ν) (vs : List (Json σ ν)) : maskList p x vs = vs.map (mask p x) := by
  induction vs with
  | nil => rfl
  | cons v vs ih => rw [maskList,ih,List.map_cons]

theorem maskMembers_eq (x : Json σ ν) (ms : List (σ × Json σ ν)) :
    maskMembers p x ms = ms.map fun m => (m.1,if p m.1 then x else mask p x m.2) := by
  induction ms with
  | nil => rfl
  | cons m ms ih => rw [maskMembers,ih,List.map_cons]

theorem hasKeyList_eq (vs : List (Json σ ν)) : hasKeyList p vs = vs.any (hasKey p) := by
  induction vs with
  | nil => rfl
  | cons v vs ih => rw [hasKeyList,ih,List.any_cons]

theorem hasKeyMembers_eq (ms : List (σ × Json σ ν)) : hasKeyMembers p ms = ms.any fun m => p m.1 || hasKey p m.2 := by
  induction ms with
  | nil => rfl
  | cons m ms ih => rw [hasKeyMembers,ih,List.any_cons]

theorem mask_mask (x y v : Json σ ν) : mask p x (mask p y v) = mask p x v := by
  induction v using induction with
  | arr vs ih =>
    rw [mask,mask,mask,maskList_eq,maskList_eq,maskList_eq,List.map_map]
    exact congrArg Json.arr (List.map_congr_left ih)
  | obj ms ih =>
    rw [mask,mask,mask,maskMembers_eq,maskMembers_eq,maskMembers_eq,List.map_map]
    refine congrArg Json.obj (List.map_congr_left fun m hm => ?_)
    cases hp : p m.1 with
    | true => simp [hp]
    | false => simp [hp,ih m hm]
  | _ => rfl

/-- Nothing is hidden in a document that has none of the keys. -/
theorem mask_of_clear (x : Json σ ν) {v : Json σ ν} (h : hasKey p v = false) : mask p x v = v := by
  induction v using induction with
  | arr vs ih =>
    rw [hasKey,hasKeyList_eq,List.any_eq_false] at h
    rw [mask,maskList_eq]
    refine congrArg Json.arr ((List.map_congr_left fun v hv => ?_).trans (List.map_id _))
    exact ih v hv (Bool.not_eq_true _ ▸ h v hv)
  | obj ms ih =>
    rw [hasKey,hasKeyMembers_eq,List.any_eq_false] at h
    rw [mask,maskMembers_eq]
    refine congrArg Json.obj ((List.map_congr_left fun m hm => ?_).trans (List.map_id _))
    obtain ⟨hk,hv⟩ : p m.1 = false ∧ hasKey p m.2 = false := by simpa using h m hm
    rw [hk,ih m hm hv]
    rfl
  | _ => rfl

theorem hasKey_mask (x v : Json σ ν) : hasKey p (mask p x v) = hasKey p v := by
  induction v using induction with
  | arr vs ih =>
    rw [mask,hasKey,hasKey,hasKeyList_eq,hasKeyList_eq,maskList_eq,List.any_map,Bool.eq_iff_iff,List.any_eq_true,
      List.any_eq_true]
    exact exists_congr fun v => and_congr_right fun hv => by rw [Function.comp_apply,ih v hv]
  | obj ms ih =>
    rw [mask,hasKey,hasKey,hasKeyMembers_eq,hasKeyMembers_eq,maskMembers_eq,List.any_map,Bool.eq_iff_iff,
      List.any_eq_true,List.any_eq_true]
    refine exists_congr fun m => and_congr_right fun hm => ?_
    cases hp : p m.1 with
    | true => simp [hp]
    | false => simp [hp,ih m hm]
  | _ => rfl

/-- A document in which different values can be hidden has one of the keys. -/
theorem clear_of_mask_eq {x y : Json σ ν} (hxy : x ≠ y) {v : Json σ ν} (h : mask p x v = mask p y v) :
    hasKey p v = false := by
  induction v using induction with
  | arr vs ih =>
    rw [mask,mask,Json.arr.injEq,maskList_eq,maskList_eq,List.map_inj_left] at h
    rw [hasKey,hasKeyList_eq,List.any_eq_false]
    exact fun v hv => Bool.not_eq_true _ ▸ ih v hv (h v hv)
  | obj ms ih =>
    rw [mask,mask,Json.obj.injEq,maskMembers_eq,maskMembers_eq,List.map_inj_left] at h
    rw [hasKey,hasKeyMembers_eq,List.any_eq_false]
    intro m hm
    have hvalue := (Prod.mk.inj (h m hm)).2
    cases hp : p m.1 with
    | true =>
      rw [hp] at hvalue
      exact absurd hvalue hxy
    | false =>
      rw [hp] at hvalue
      rw [ih m hm hvalue]
      decide
  | _ => rfl

theorem depth_mask_le {x : Json σ ν} (hx : depth x = 0) (v : Json σ ν) : depth (mask p x v) ≤ depth v := by
  induction v using induction with
  | arr vs ih =>
    rw [mask,depth,depth]
    refine Nat.succ_le_succ ?_
    induction vs with
    | nil => exact le_refl _
    | cons v vs ihvs => exact max_le_max (ih v (by simp)) (ihvs fun u hu => ih u (by simp [hu]))
  | obj ms ih =>
    rw [mask,depth,depth]
    refine Nat.succ_le_succ ?_
    induction ms with
    | nil => exact le_refl _
    | cons m ms ihms =>
      refine max_le_max ?_ (ihms fun u hu => ih u (by simp [hu]))
      split_ifs
      · exact hx ▸ Nat.zero_le _
      · exact ih m (by simp)
  | _ => exact le_refl _

end Mask

section Order

variable [DecidableEq σ] {lt : σ → σ → Bool}

theorem lastWins_map (f : σ → Json σ ν → Json σ ν) (ms : List (σ × Json σ ν)) :
    lastWins (ms.map fun m => (m.1,f m.1 m.2)) = (lastWins ms).map fun m => (m.1,f m.1 m.2) := by
  induction ms with
  | nil => rfl
  | cons m ms ih =>
    have hkeys : ((lastWins ms).map fun m => (m.1,f m.1 m.2)).map Prod.fst = (lastWins ms).map Prod.fst := by
      rw [List.map_map]
      rfl
    rw [List.map_cons,lastWins_cons,lastWins_cons,ih,hkeys]
    split_ifs <;> rfl

omit [DecidableEq σ] in
theorem sortMembers_map (f : σ → Json σ ν → Json σ ν) (ms : List (σ × Json σ ν)) :
    sortMembers lt (ms.map fun m => (m.1,f m.1 m.2)) = (sortMembers lt ms).map fun m => (m.1,f m.1 m.2) := by
  let r : σ × Json σ ν → σ × Json σ ν → Prop := fun a b => lt b.1 a.1 = false
  exact (List.map_insertionSort r r (fun m => (m.1,f m.1 m.2)) ms fun _ _ _ _ => Iff.rfl).symm

theorem arrange_mask (p : σ → Bool) {x : Json σ ν} (hx : arrange lt x = x) (v : Json σ ν) :
    arrange lt (mask p x v) = mask p x (arrange lt v) := by
  induction v using induction with
  | arr vs ih =>
    rw [mask,arrange,arrange,mask,maskList_eq,maskList_eq,arrangeList_eq,arrangeList_eq,List.map_map,List.map_map]
    exact congrArg Json.arr (List.map_congr_left ih)
  | obj ms ih =>
    have hmembers : arrangeMembers lt (maskMembers p x ms) = maskMembers p x (arrangeMembers lt ms) := by
      induction ms with
      | nil => rfl
      | cons m ms ihms =>
        rw [maskMembers,arrangeMembers,arrangeMembers,maskMembers,ihms fun u hu => ih u (by simp [hu])]
        split_ifs
        · rw [hx]
        · rw [ih m (by simp)]
    rw [mask,arrange,arrange,mask,hmembers,maskMembers_eq,maskMembers_eq,
      lastWins_map (fun k v => if p k then x else mask p x v),
      sortMembers_map (fun k v => if p k then x else mask p x v)]
  | _ => rfl

theorem Framed.removeKeys {v w : Json σ ν} (p : σ → Bool) (h : Framed [] v w) :
    Framed [] (removeKeys p v) (removeKeys p w) := by
  generalize hps : ([] : List (List σ)) = ps at h
  induction h with
  | listed h =>
    rw [← hps] at h
    cases h
  | null => exact .null
  | bool b => exact .bool b
  | num x => exact .num x
  | str s => exact .str s
  | arr hlen _ ih =>
    rw [Json.removeKeys,Json.removeKeys,removeKeysList_eq,removeKeysList_eq]
    refine .arr (by simpa using hlen) fun q hq => ?_
    rw [List.zip_map] at hq
    obtain ⟨r,hr,rfl⟩ := List.mem_map.mp hq
    exact ih r hr rfl
  | obj hkeys _ ih =>
    subst hps
    rw [Json.removeKeys,Json.removeKeys]
    refine .obj (fun k => ?_) fun k a b ha hb => ?_
    · rw [isSome_lookup_removeKeysMembers,isSome_lookup_removeKeysMembers,hkeys k]
    · rw [lookup_removeKeysMembers] at ha hb
      split_ifs at ha hb with hp
      obtain ⟨v,hv,rfl⟩ := Option.map_eq_some_iff.mp ha
      obtain ⟨w,hw,rfl⟩ := Option.map_eq_some_iff.mp hb
      exact ih k v w hv hw rfl

end Order

section Remove

theorem removeKeys_map (q : τ → Bool) (f : σ → τ) (g : ν → μ) (v : Json σ ν) :
    removeKeys q (map f g v) = map f g (removeKeys (q ∘ f) v) := by
  induction v using induction with
  | arr vs ih =>
    rw [map,removeKeys,removeKeys,map,mapList_eq,mapList_eq,removeKeysList_eq,removeKeysList_eq,List.map_map,
      List.map_map]
    exact congrArg Json.arr (List.map_congr_left ih)
  | obj ms ih =>
    rw [map,removeKeys,removeKeys,map]
    congr 1
    induction ms with
    | nil => rfl
    | cons m ms ihms =>
      have hrest := ihms fun u hu => ih u (by simp [hu])
      rw [mapMembers,removeKeysMembers,removeKeysMembers]
      cases hq : q (f m.1) with
      | true => simpa [hq] using hrest
      | false => simp [hq,hrest,ih m (by simp),mapMembers]
  | _ => rfl

theorem alike_removeKeys {rs : σ → τ → Prop} {rn : ν → μ → Prop} {q : σ → Bool} {p : τ → Bool}
    (hkeys : ∀ s t, rs s t → q s = p t) {v : Json σ ν} {w : Json τ μ} (h : Alike rs rn v w) :
    Alike rs rn (removeKeys q v) (removeKeys p w) := by
  induction v using induction generalizing w with
  | arr vs ih =>
    cases w with
    | arr ws =>
      rw [removeKeys,removeKeys,Alike]
      rw [Alike] at h
      induction vs generalizing ws with
      | nil =>
        cases ws with
        | nil => trivial
        | cons w ws => cases h
      | cons v vs ihvs =>
        cases ws with
        | nil => cases h
        | cons w ws => exact ⟨ih v (by simp) h.1,ihvs (fun u hu => ih u (by simp [hu])) ws h.2⟩
    | _ => simp [Alike] at h
  | obj ms ih =>
    cases w with
    | obj ns =>
      rw [removeKeys,removeKeys,Alike]
      rw [Alike] at h
      induction ms generalizing ns with
      | nil =>
        cases ns with
        | nil => trivial
        | cons n ns => cases h
      | cons m ms ihms =>
        cases ns with
        | nil => cases h
        | cons n ns =>
          obtain ⟨hk,hv,hrest⟩ := h
          have htail := ihms (fun u hu => ih u (by simp [hu])) ns hrest
          rw [removeKeysMembers,removeKeysMembers,hkeys _ _ hk]
          split_ifs
          · exact htail
          · exact ⟨hk,ih m (by simp) hv,htail⟩
    | _ => simp [Alike] at h
  | _ => cases w <;> exact h

theorem depth_alike {rs : σ → τ → Prop} {rn : ν → μ → Prop} {v : Json σ ν} {w : Json τ μ} (h : Alike rs rn v w) :
    depth v = depth w := by
  induction v using induction generalizing w with
  | arr vs ih =>
    cases w with
    | arr ws =>
      rw [depth,depth]
      rw [Alike] at h
      congr 1
      induction vs generalizing ws with
      | nil =>
        cases ws with
        | nil => rfl
        | cons w ws => cases h
      | cons v vs ihvs =>
        cases ws with
        | nil => cases h
        | cons w ws => rw [depthList,depthList,ih v (by simp) h.1,ihvs (fun u hu => ih u (by simp [hu])) ws h.2]
    | _ => simp [Alike] at h
  | obj ms ih =>
    cases w with
    | obj ns =>
      rw [depth,depth]
      rw [Alike] at h
      congr 1
      induction ms generalizing ns with
      | nil =>
        cases ns with
        | nil => rfl
        | cons n ns => cases h
      | cons m ms ihms =>
        cases ns with
        | nil => cases h
        | cons n ns =>
          obtain ⟨-,hv,hrest⟩ := h
          rw [depthMembers,depthMembers,ih m (by simp) hv,ihms (fun u hu => ih u (by simp [hu])) ns hrest]
    | _ => simp [Alike] at h
  | _ => cases w <;> first | rfl | simp [Alike] at h

end Remove

end Json
end Clearvoiance
