import Clearvoiance.Transition

/-! Functions that are replaced in place.  Installing a patch puts a new function over the one in each slot that it
touches and keeps what it found; uninstalling writes back what was kept, whatever is in the slot by then.  A
function is known by the patches it was put together from, outermost first. -/
namespace Clearvoiance
namespace Patches

open Transition

variable {κ τ : Type*}

abbrev Chain := List ℕ

structure Patch (κ τ : Type*) where
  kind : τ
  saved : κ → Chain

/-- `live` are the patches that were not uninstalled, newest first. -/
structure State (κ τ : Type*) where
  slots : κ → Chain
  patches : List (Patch κ τ)
  live : List ℕ

inductive Label (τ : Type*)
  | install (kind : τ)
  | uninstall (i : ℕ)
  deriving DecidableEq

def init : State κ τ := ⟨fun _ => [],[],[]⟩

variable (touches : τ → κ → Bool)

def State.install (s : State κ τ) (kind : τ) : State κ τ where
  slots k := if touches kind k then s.patches.length :: s.slots k else s.slots k
  patches := s.patches ++ [⟨kind,s.slots⟩]
  live := s.patches.length :: s.live

def State.uninstall (s : State κ τ) (i : ℕ) (p : Patch κ τ) : State κ τ :=
  { s with
    slots := fun k => if touches p.kind k then p.saved k else s.slots k
    live := s.live.filter (· ≠ i) }

def step (s : State κ τ) : Label τ → Option (State κ τ)
  | .install kind => some (s.install touches kind)
  | .uninstall i => (s.patches[i]?).map (s.uninstall touches i)

def State.touching (s : State κ τ) (k : κ) (i : ℕ) : Bool := (s.patches[i]?).any fun p => touches p.kind k

/-- The live patches that touch the slot, newest first. -/
def State.liveOn (s : State κ τ) (k : κ) : Chain := s.live.filter (s.touching touches k)

/-- Every slot holds its own function under the live patches, the newest outermost. -/
def Tidy (s : State κ τ) : Prop := ∀ k, s.slots k = s.liveOn touches k

/-- A patch is uninstalled while each of its slots holds the function it put there or the one it found. -/
def InPlace (s : State κ τ) : Label τ → Prop
  | .install _ => True
  | .uninstall i => ∀ p ∈ s.patches[i]?, ∀ k, touches p.kind k = true →
      s.slots k = i :: p.saved k ∨ s.slots k = p.saved k

/-- Below a patch in a chain is what it found. -/
def State.Follows (s : State κ τ) (k : κ) (c : Chain) : Prop :=
  ∀ (newer : Chain) (i : ℕ) (rest : Chain), c = newer ++ i :: rest →
    ∃ p : Patch κ τ, s.patches[i]? = some p ∧ touches p.kind k = true ∧ rest = p.saved k

structure Linked (s : State κ τ) : Prop where
  nodup : s.live.Nodup
  known : ∀ i ∈ s.live, i < s.patches.length
  slots : ∀ k, s.Follows touches k (s.slots k)
  saved : ∀ p ∈ s.patches, ∀ k, s.Follows touches k (p.saved k)

variable {touches} {s t : State κ τ} {k : κ} {c : Chain}

theorem init_linked : Linked touches (init : State κ τ) :=
  ⟨List.nodup_nil,by simp [init],by simp [init,State.Follows],by simp [init]⟩

theorem init_tidy : Tidy touches (init : State κ τ) := fun _ => rfl

theorem State.Follows.install (h : s.Follows touches k c) (kind : τ) :
    (s.install touches kind).Follows touches k c := by
  intro newer i rest hc
  obtain ⟨p,hp,htouches,hrest⟩ := h newer i rest hc
  have hi : i < s.patches.length := (List.getElem?_eq_some_iff.mp hp).1
  exact ⟨p,by rw [State.install,List.getElem?_append_left hi,hp],htouches,hrest⟩

theorem follows_installed (h : s.Follows touches k (s.slots k)) {kind : τ} (htouches : touches kind k = true) :
    (s.install touches kind).Follows touches k (s.patches.length :: s.slots k) := by
  intro newer i rest hc
  cases newer with
  | nil =>
    obtain ⟨rfl,rfl⟩ := List.cons.inj hc
    exact ⟨⟨kind,s.slots⟩,by simp [State.install],htouches,rfl⟩
  | cons j newer => exact h.install kind newer i rest (List.cons.inj hc).2

theorem slots_installed {kind : τ} (h : touches kind k = true) :
    (s.install touches kind).slots k = s.patches.length :: s.slots k := if_pos h

theorem slots_install_other {kind : τ} (h : touches kind k ≠ true) : (s.install touches kind).slots k = s.slots k :=
  if_neg h

theorem slots_uninstalled {i : ℕ} {p : Patch κ τ} (h : touches p.kind k = true) :
    (s.uninstall touches i p).slots k = p.saved k := if_pos h

theorem slots_uninstall_other {i : ℕ} {p : Patch κ τ} (h : touches p.kind k ≠ true) :
    (s.uninstall touches i p).slots k = s.slots k := if_neg h

theorem linked_install (h : Linked touches s) (kind : τ) : Linked touches (s.install touches kind) where
  nodup := List.nodup_cons.mpr ⟨fun hmem => lt_irrefl _ (h.known _ hmem),h.nodup⟩
  known i hi := by
    simp only [State.install,List.length_append,List.length_singleton]
    rcases List.mem_cons.mp hi with rfl | hi
    · exact Nat.lt_succ_self _
    · exact Nat.lt_succ_of_lt (h.known i hi)
  slots k := by
    by_cases htouches : touches kind k = true
    · rw [slots_installed htouches]
      exact follows_installed (h.slots k) htouches
    · rw [slots_install_other htouches]
      exact (h.slots k).install kind
  saved p hp k := by
    rcases List.mem_append.mp hp with hp | hp
    · exact (h.saved p hp k).install kind
    · rw [List.mem_singleton.mp hp]
      exact (h.slots k).install kind

theorem linked_uninstall (h : Linked touches s) {i : ℕ} {p : Patch κ τ} (hp : s.patches[i]? = some p) :
    Linked touches (s.uninstall touches i p) where
  nodup := h.nodup.filter _
  known j hj := h.known j (List.mem_of_mem_filter hj)
  slots k := by
    by_cases htouches : touches p.kind k = true
    · rw [slots_uninstalled htouches]
      exact h.saved p (List.mem_of_getElem? hp) k
    · rw [slots_uninstall_other htouches]
      exact h.slots k
  saved := h.saved

theorem linked_step {l : Label τ} (h : Linked touches s) (hst : step touches s l = some t) : Linked touches t := by
  cases l with
  | install kind =>
    cases hst
    exact linked_install h kind
  | uninstall i =>
    obtain ⟨p,hp,rfl⟩ := Option.map_eq_some_iff.mp hst
    exact linked_uninstall h hp

theorem liveOn_install (h : Linked touches s) (kind : τ) (k : κ) : (s.install touches kind).liveOn touches k =
    if touches kind k then s.patches.length :: s.liveOn touches k else s.liveOn touches k := by
  have hold : s.live.filter ((s.install touches kind).touching touches k) = s.liveOn touches k := by
    refine List.filter_congr fun i hi => ?_
    simp only [State.touching,State.install,List.getElem?_append_left (h.known i hi)]
  have hnew : (s.install touches kind).touching touches k s.patches.length = touches kind k := by
    simp [State.touching,State.install]
  have hlive : (s.install touches kind).live = s.patches.length :: s.live := rfl
  rw [State.liveOn,hlive,List.filter_cons,hnew,hold]

theorem liveOn_uninstall (i : ℕ) (p : Patch κ τ) (k : κ) :
    (s.uninstall touches i p).liveOn touches k = (s.liveOn touches k).filter (· ≠ i) :=
  List.filter_comm _ _ s.live

theorem tidy_install (h : Linked touches s) (htidy : Tidy touches s) (kind : τ) :
    Tidy touches (s.install touches kind) := by
  intro k
  rw [liveOn_install h,← htidy k]
  rfl

/-- Writing back what a patch found takes the patch out of a chain exactly when it is outermost or not there. -/
theorem filter_eq_saved_iff (hnodup : c.Nodup) (hfollows : s.Follows touches k c) {i : ℕ} {p : Patch κ τ}
    (hp : s.patches[i]? = some p) : p.saved k = c.filter (· ≠ i) ↔ c = i :: p.saved k ∨ c = p.saved k := by
  by_cases hi : i ∈ c
  · obtain ⟨newer,rest,rfl⟩ := List.append_of_mem hi
    obtain ⟨q,hq,-,rfl⟩ := hfollows newer i rest rfl
    obtain rfl := Option.some.inj (hp.symm.trans hq)
    have hnone := (List.nodup_cons.mp (List.nodup_middle.mp hnodup)).1
    have hfilter : (newer ++ i :: p.saved k).filter (· ≠ i) = newer ++ p.saved k := by
      rw [List.filter_append,List.filter_cons_of_neg (by simp),← List.filter_append,List.filter_eq_self]
      exact fun j hj => decide_eq_true fun hji => hnone (hji ▸ hj)
    rw [hfilter]
    constructor
    · intro hsaved
      rw [List.self_eq_append_left.mp hsaved]
      exact .inl rfl
    · rintro (houter | hshort)
      · rw [List.append_left_eq_self.mp houter,List.nil_append]
      · have hlength := congrArg List.length hshort
        simp at hlength
        omega
  · have hfilter : c.filter (· ≠ i) = c :=
      List.filter_eq_self.mpr fun j hj => decide_eq_true fun hji => hi (hji ▸ hj)
    rw [hfilter]
    constructor
    · exact fun hsaved => .inr hsaved.symm
    · rintro (houter | hsame)
      · exact absurd (houter ▸ List.mem_cons_self) hi
      · exact hsame.symm

theorem tidy_uninstall_iff (h : Linked touches s) (htidy : Tidy touches s) {i : ℕ} {p : Patch κ τ}
    (hp : s.patches[i]? = some p) : Tidy touches (s.uninstall touches i p) ↔
      ∀ k, touches p.kind k = true → s.slots k = i :: p.saved k ∨ s.slots k = p.saved k := by
  have hslot : ∀ k, (s.uninstall touches i p).slots k = (s.uninstall touches i p).liveOn touches k ↔
      (touches p.kind k = true → s.slots k = i :: p.saved k ∨ s.slots k = p.saved k) := by
    intro k
    have hnodup : (s.slots k).Nodup := htidy k ▸ h.nodup.filter _
    rw [liveOn_uninstall,← htidy k]
    by_cases htouches : touches p.kind k = true
    · rw [slots_uninstalled htouches,filter_eq_saved_iff hnodup (h.slots k) hp]
      exact ⟨fun hplace _ => hplace,fun hplace => hplace htouches⟩
    · rw [slots_uninstall_other htouches]
      refine ⟨fun _ htouches' => absurd htouches' htouches,fun _ => (List.filter_eq_self.mpr fun j hj => ?_).symm⟩
      refine decide_eq_true fun hji => htouches ?_
      rw [htidy k,hji] at hj
      have htouching := List.of_mem_filter hj
      simpa [State.touching,hp] using htouching
  exact forall_congr' hslot

theorem tidy_step_iff {l : Label τ} (h : Linked touches s) (htidy : Tidy touches s)
    (hst : step touches s l = some t) : Tidy touches t ↔ InPlace touches s l := by
  cases l with
  | install kind =>
    cases hst
    exact iff_of_true (tidy_install h htidy kind) trivial
  | uninstall i =>
    obtain ⟨p,hp,rfl⟩ := Option.map_eq_some_iff.mp hst
    rw [tidy_uninstall_iff h htidy hp]
    simp [InPlace,hp]

theorem linked_exec {labels : List (Label τ)} (he : exec (step touches) init labels = some t) : Linked touches t :=
  (Run.of_exec_true he).invariant (Linked touches) (fun _ _ _ h _ hst => linked_step h hst) init_linked

/-- The slots are put together from the live patches in every state exactly when every patch is uninstalled in
place. -/
theorem forall_tidy_iff {labels : List (Label τ)} (he : exec (step touches) init labels = some t) :
    (∀ pre post u, labels = pre ++ post → exec (step touches) init pre = some u → Tidy touches u) ↔
      Along (step touches) (InPlace touches) init labels := by
  rw [← forall_reached_iff (fun u => Linked touches u ∧ Tidy touches u) ?_ he ⟨init_linked,init_tidy⟩]
  · exact forall₅_congr fun pre post u _ hu => (and_iff_right (linked_exec hu)).symm
  · rintro s l t ⟨h,htidy⟩ hst
    rw [and_iff_right (linked_step h hst),tidy_step_iff h htidy hst]

theorem tidy_of_inPlace {labels : List (Label τ)} (he : exec (step touches) init labels = some t)
    (h : Along (step touches) (InPlace touches) init labels) : Tidy touches t :=
  (forall_tidy_iff he).mpr h labels [] t (List.append_nil labels).symm he

end Patches
end Clearvoiance
