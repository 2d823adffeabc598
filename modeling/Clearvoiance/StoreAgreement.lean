import Clearvoiance.StopRollback

/-! The manager's map as a cache of the store.  Calls that run one after the other keep the two in
agreement, while the REST handler that deletes a session takes the row away under the map; and a
store that remembers nothing has no row for any session. -/
namespace Clearvoiance
namespace SequentialCalls

open SessionStore SessionManager Transition

inductive Op
  | call (es : List Env) (c : Call)
  | delete (id : String)
  deriving DecidableEq

/-- `DELETE /sessions/{id}` and its status code. -/
def deleteSession (m : Manager) (id : String) : Manager × ℕ :=
  match m.store.delete id with
  | .ok st => (m.withStore st,204)
  | .error .sessionNotFound => (m,404)
  | .error _ => (m,500)

/-- Calls run to their end, and no store call fails. -/
def step (m : Manager) : Op → Option Manager
  | .call es c => if es.all fun e => e.fault.isNone then (finish es m (entry c)).map (·.1) else none
  | .delete id => some (deleteSession m id).1

/-- What `Get` returns when the store works. -/
def getResult (m : Manager) (id : String) : Option Result := (finish [{},{},{}] m (.getLookup id)).map (·.2)

def Result.isActive : Result → Bool
  | .session s => s.status = .active
  | _ => false

/-- `StreamEvents` accepts a handshake for the session. -/
def accepts (m : Manager) (id : String) : Bool := (getResult m id).any Result.isActive

def Agreement (m : Manager) : Prop := ∀ id, (getResult m id).any Result.isActive = true ↔ rowStatus m id = some .active

/-- The step leads to a state of agreement, and a deleted session is not found. -/
def Lawful (m : Manager) (op : Op) : Prop :=
  ∀ m' ∈ step m op, Agreement m' ∧ ∀ id, op = .delete id → (deleteSession m id).2 = 204 →
    getResult m' id = some (.error .notFound) ∧ accepts m' id = false

/-- Sessions are started with a store that keeps them, and deleted while they are not in memory. -/
def Admitted (m : Manager) : Op → Prop
  | .call _ (.start _) => m.store.backend = .postgres
  | .call _ _ => True
  | .delete id => (deleteSession m id).2 = 204 → lookup m id = none

instance (m : Manager) (op : Op) : Decidable (Admitted m op) := by
  unfold Admitted
  split <;> infer_instance

def entryStatus (m : Manager) (id : String) : Option Status := (lookup m id).map (·.status)

def Valid (m : Manager) : Prop := ∀ id p, m.sessions id = some p → ∃ s, m.heap[p]? = some s ∧ s.id = id

/-- Every session in memory has a row of the same status. -/
structure Agreed (m : Manager) : Prop where
  valid : Valid m
  same : ∀ id, entryStatus m id = none ∨ entryStatus m id = rowStatus m id
  noop : m.store.backend = .noop → ∀ id, m.sessions id = none

theorem agreed_boot (st : Store) : Agreed (boot st) := by
  refine ⟨fun id p h => ?_,fun id => .inl rfl,fun _ id => rfl⟩
  cases h

theorem Agreed.postgres {m : Manager} (h : Agreed m) {id : String} (hid : m.sessions id ≠ none) :
    m.store.backend = .postgres := by
  cases hb : m.store.backend with
  | postgres => rfl
  | noop => exact absurd (h.noop hb id) hid

theorem sessions_of_entry {m : Manager} {id : String} (h : entryStatus m id ≠ none) : m.sessions id ≠ none := by
  intro hs
  exact h (by simp [entryStatus,lookup,hs])

theorem lookup_install {m : Manager} (hv : Valid m) (s : Session) (id : String) :
    lookup (m.install s) id = if id = s.id then some s else lookup m id := by
  unfold lookup Manager.install
  by_cases hid : id = s.id
  · simp [hid]
  · simp only [Function.update_of_ne hid,if_neg hid]
    cases hp : m.sessions id with
    | none => rfl
    | some p =>
      obtain ⟨s',hs',-⟩ := hv id p hp
      simp only [Option.bind_some]
      exact List.getElem?_append_left (List.getElem?_eq_some_iff.mp hs').1

/-- A session is put into memory under a row of its status. -/
theorem Agreed.install {m : Manager} (h : Agreed m) (hb : m.store.backend = .postgres) {s : Session}
    (hrow : rowStatus m s.id = some s.status) : Agreed (m.install s) := by
  refine ⟨fun id p hp => ?_,fun id => ?_,fun hn => ?_⟩
  · unfold Manager.install at hp ⊢
    by_cases hid : id = s.id
    · subst hid
      have : p = m.heap.length := by simpa using hp.symm
      exact ⟨s,by simp [this],rfl⟩
    · simp only [Function.update_of_ne hid] at hp
      obtain ⟨s',hs',hid'⟩ := h.valid id p hp
      refine ⟨s',?_,hid'⟩
      rw [List.getElem?_append_left (List.getElem?_eq_some_iff.mp hs').1]
      exact hs'
  · rw [entryStatus,lookup_install h.valid]
    by_cases hid : id = s.id
    · rw [if_pos hid,hid]
      exact .inr hrow.symm
    · rw [if_neg hid]
      exact h.same id
  · rw [show (m.install s).store = m.store from rfl,hb] at hn
    cases hn

theorem lookup_assign {m : Manager} (hv : Valid m) {i : String} {p : ℕ} (hp : m.sessions i = some p) (f : Session → Session) (id : String) :
    lookup (m.assign p f) id = if id = i then (lookup m id).map f else lookup m id := by
  unfold lookup Manager.assign
  by_cases hid : id = i
  · subst hid
    simp [hp]
  · rw [if_neg hid]
    cases hq : m.sessions id with
    | none => rfl
    | some q =>
      have hne : p ≠ q := by
        rintro rfl
        obtain ⟨s,hs,hsi⟩ := hv i p hp
        obtain ⟨s',hs',hsid⟩ := hv id p hq
        rw [hs] at hs'
        cases hs'
        exact hid (hsid.symm.trans hsi)
      simp [hne]

theorem valid_assign {m : Manager} (hv : Valid m) (q : ℕ)
    {f : Session → Session} (hf : ∀ s, (f s).id = s.id) :
    Valid (m.assign q f) := by
  intro id p hp
  obtain ⟨s,hs,hid⟩ := hv id p hp
  by_cases hq : q = p
  · subst hq
    exact ⟨f s,by simp [Manager.assign,hs],(hf s).trans hid⟩
  · exact ⟨s,by simp [Manager.assign,hq,hs],hid⟩

theorem Agreed.assign {m : Manager} (h : Agreed m) (q : ℕ) {f : Session → Session} (hf : ∀ s, (f s).id = s.id)
    (hst : ∀ s, (f s).status = s.status) : Agreed (m.assign q f) := by
  refine ⟨valid_assign h.valid q hf,fun id => ?_,h.noop⟩
  have hsame : entryStatus (m.assign q f) id = entryStatus m id := by
    unfold entryStatus lookup Manager.assign
    cases hp : m.sessions id with
    | none => rfl
    | some p =>
      by_cases hq : q = p
      · subst hq
        cases hs : m.heap[q]? with
        | none => simp [hs]
        | some s => simp [hs,hst]
      · simp [hq]
  rw [hsame]
  exact h.same id

theorem sweepMap_entry (now : ℕ) {m : Manager} (hv : Valid m) (ids : List String) :
    Valid (sweepMap now m ids) ∧
    (sweepMap now m ids).sessions = m.sessions ∧
    ∀ id, entryStatus (sweepMap now m ids) id =
      if id ∈ ids then (entryStatus m id).map fun _ => .stopped else entryStatus m id := by
  induction ids generalizing m with
  | nil => exact ⟨hv,rfl,fun id => by simp [sweepMap]⟩
  | cons i ids ih =>
    cases hp : m.sessions i with
    | none =>
      simp only [sweepMap,hp]
      obtain ⟨hv',hs,hent⟩ := ih hv
      refine ⟨hv',hs,fun id => ?_⟩
      rw [hent id]
      by_cases hid : id = i
      · have hnone : entryStatus m id = none := by simp [entryStatus,lookup,hid,hp]
        simp [hnone]
      · simp [hid]
    | some p =>
      simp only [sweepMap,hp]
      obtain ⟨hv',hs,hent⟩ := ih (valid_assign hv p (f := markSwept now) fun _ => rfl)
      refine ⟨hv',hs,fun id => ?_⟩
      rw [hent id]
      have hone : entryStatus (m.assign p (markSwept now)) id =
          if id = i then (entryStatus m id).map fun _ => .stopped else entryStatus m id := by
        unfold entryStatus
        rw [lookup_assign hv hp]
        split
        · rw [Option.map_map,Option.map_map]
          rfl
        · rfl
      rw [hone]
      cases entryStatus m id with
      | none => simp
      | some st => by_cases hid : id = i <;> by_cases hmem : id ∈ ids <;> simp [hid,hmem]

/-- A statement that leaves the statuses of the sessions in memory alone. -/
theorem Agreed.withStore {m : Manager} (h : Agreed m) {st : Store} (hb : st.backend = m.store.backend)
    (hrow : ∀ id, entryStatus m id ≠ none → (st.find id).map (·.status) = (m.store.find id).map (·.status)) :
    Agreed (m.withStore st) := by
  refine ⟨h.valid,fun id => ?_,fun hn => h.noop (hb.symm.trans hn)⟩
  by_cases hent : entryStatus m id = none
  · exact .inl hent
  · have hpg := h.postgres (sessions_of_entry hent)
    right
    rw [rowStatus_eq (hb.trans hpg)]
    show entryStatus m id = (st.find id).map (·.status)
    rw [hrow id hent,← rowStatus_eq hpg]
    exact (h.same id).resolve_left hent

/-- What has to hold where a call stands, for agreement when it returns. -/
def Ready (m : Manager) : Pc → Prop
  | .startLookup _ | .startCheck _ _ | .startFetch _ | .startCreate _ => Agreed m ∧ m.store.backend = .postgres
  | .startHydrate req row => Agreed m ∧ m.store.backend = .postgres ∧ m.store.find req.preferredID = some row
  | .startInstall _ s => Agreed (m.install s)
  | .getInstall id row =>
    Agreed m ∧ m.store.backend = .postgres ∧ m.store.find id = some row ∧ row.status = .active
  | .stopMark id q => (∀ now ev by' st, m.store.markStopped id now ev by' = .ok st → Agreed (m.withStore st)) ∧
      (∀ now ev by', ∃ st, m.store.markStopped id now ev by' = .ok st) ∧ ∃ s, m.heap[q]? = some s
  | .stopFetch id | .stopMarkRow id _ => Agreed m ∧ entryStatus m id = none
  | .sweepMark _ ids => ∀ now, Agreed (sweepMap now m ids)
  | _ => Agreed m

theorem write_none (m : Manager) {e : Env} (he : e.fault = none) (r : Except StoreError Store) :
    (∃ st, r = .ok st ∧ m.write e r = (none,m.withStore st)) ∨ ∃ err, r = .error err ∧ m.write e r = (some err,m) := by
  unfold Manager.write Store.write
  rw [he]
  cases r with
  | ok st => exact .inl ⟨st,rfl,rfl⟩
  | error err => exact .inr ⟨err,rfl,rfl⟩

theorem Agreed.create {m : Manager} (h : Agreed m) (hb : m.store.backend = .postgres) {s : Session} {e : Env} {st : Store}
    (hok : m.store.create (rowOf e s) = .ok st) : Agreed ((m.withStore st).install s) := by
  have hfresh : m.store.find s.id = none := by
    simp only [Store.create,hb] at hok
    split at hok
    · cases hok
    · assumption
  have hst : Agreed (m.withStore st) := by
    refine h.withStore (find_create hok "").1 fun id hent => ?_
    have hrow : m.store.find id ≠ none := by
      intro hnone
      have hsame := (h.same id).resolve_left hent
      rw [rowStatus_eq hb,hnone] at hsame
      exact hent hsame
    rw [(find_create hok id).2.1 hrow]
  refine hst.install ((find_create hok "").1.trans hb) ?_
  have hnew := (find_create hok s.id).2.2 hfresh
  rw [if_pos ⟨hb,rfl⟩] at hnew
  rw [rowStatus_eq ((find_create hok "").1.trans hb)]
  show (st.find s.id).map (·.status) = some s.status
  rw [hnew]
  rfl

/-- `Stop` of a session in memory, once its row is written. -/
theorem Agreed.stop {m : Manager} (h : Agreed m) {id : String} {p : ℕ} (hp : m.sessions id = some p) (t now : ℕ)
    (ev by' : ℤ) {st : Store} (hok : m.store.markStopped id now ev by' = .ok st) :
    Agreed ((m.assign p (markStopped t)).withStore st) := by
  have hid : m.sessions id ≠ none := by simp [hp]
  have hb := h.postgres hid
  have hf := find_markStopped hok
  have hrow : ∀ i, rowStatus ((m.assign p (markStopped t)).withStore st) i = (st.find i).map (·.status) :=
    rowStatus_eq ((hf "").1.trans hb)
  refine ⟨valid_assign h.valid p fun _ => rfl,fun i => ?_,fun hn => ?_⟩
  · have hent : entryStatus ((m.assign p (markStopped t)).withStore st) i =
        if i = id then (entryStatus m i).map fun _ => .stopped else entryStatus m i := by
      have hl := lookup_assign h.valid hp (markStopped t) i
      unfold entryStatus
      rw [show lookup ((m.assign p (markStopped t)).withStore st) i = lookup (m.assign p (markStopped t)) i from rfl,hl]
      split
      · rw [Option.map_map,Option.map_map]
        rfl
      · rfl
    rw [hent]
    by_cases hi : i = id
    · rw [if_pos hi]
      rcases h.same i with hn | hs
      · exact .inl (by rw [hn]; rfl)
      · right
        rw [hrow,(hf i).2,if_pos ⟨hb,hi⟩,hs,rowStatus_eq hb,Option.map_map,Option.map_map]
        rfl
    · rw [if_neg hi]
      refine (h.same i).imp_right fun hs => hs.trans ?_
      rw [hrow,(hf i).2,if_neg (by simp [hi]),rowStatus_eq hb]
  · have hn' : m.store.backend = .noop := (hf "").1.symm.trans hn
    rw [hb] at hn'
    cases hn'

/-- A sweep of the store, once the map is swept too. -/
theorem Agreed.sweep {m : Manager} (h : Agreed m) (idle t now : ℕ) :
    Agreed (sweepMap now (m.withStore (m.store.sweepIdle idle t).1) (m.store.sweepIdle idle t).2) := by
  have hb := (find_sweepIdle m.store idle t "").1
  obtain ⟨hv,hs,hent⟩ := sweepMap_entry now (m := m.withStore (m.store.sweepIdle idle t).1) h.valid
    (m.store.sweepIdle idle t).2
  have hkeep : ∀ id, entryStatus (m.withStore (m.store.sweepIdle idle t).1) id = entryStatus m id := fun _ => rfl
  refine ⟨hv,fun id => ?_,fun hn id => ?_⟩
  · rw [hent id,hkeep]
    by_cases hnone : entryStatus m id = none
    · left
      simp [hnone]
    have hpg := h.postgres (sessions_of_entry hnone)
    have hrow : rowStatus (sweepMap now (m.withStore (m.store.sweepIdle idle t).1) (m.store.sweepIdle idle t).2) id =
        ((m.store.sweepIdle idle t).1.find id).map (·.status) := by
      rw [rowStatus_eq (by rw [sweepMap_store]; exact hb.trans hpg),sweepMap_store]
      rfl
    right
    rw [hrow,(h.same id).resolve_left hnone,rowStatus_eq hpg]
    split
    · rename_i hmem
      obtain ⟨-,r,hr,hst⟩ := find_swept hmem
      rw [hr,Option.map_some,hst]
      have hold := (find_sweepIdle m.store idle t id).2
      rw [hr] at hold
      cases hf : m.store.find id with
      | none => simp [hf] at hold
      | some r₀ => rfl
    · rename_i hmem
      rw [(find_sweepIdle m.store idle t id).2,Option.map_map]
      cases hf : m.store.find id with
      | none => rfl
      | some r =>
        simp only [Option.map_some,Function.comp_apply]
        rw [if_neg]
        rintro ⟨-,hidle⟩
        apply hmem
        rw [sweepIdle_ids]
        simp only [Store.idleIds,hpg]
        exact List.mem_map.mpr ⟨r,List.mem_filter.mpr ⟨List.mem_of_find?_eq_some hf,hidle⟩,find_id hf⟩
  · rw [sweepMap_store] at hn
    rw [hs]
    exact h.noop (hb.symm.trans hn) id

def After (m : Manager) : Pc ⊕ Reply → Prop
  | .inl p => Ready m p
  | .inr _ => Agreed m

theorem ready_startHydrate {m m' : Manager} {e : Env} {req : StartRequest} {row : SessionRow} {o : Pc ⊕ Reply}
    (h : Ready m (.startHydrate req row)) (hadv : advance e m (.startHydrate req row) = (m',o)) : After m' o := by
  obtain ⟨hag,hb,hfind⟩ := h
  have hrow : rowStatus m (hydrate row).id = some (hydrate row).status := by
    rw [rowStatus_eq hb]
    show (m.store.find row.id).map (·.status) = some row.status
    rw [find_id hfind,hfind]
    rfl
  have hag' := hag.install hb hrow
  simp only [advance,goto,reply] at hadv
  split at hadv <;> cases hadv
  · exact hag'
  · exact ⟨hag',hb⟩

theorem ready_startCreate {m m' : Manager} {e : Env} {req : StartRequest} {o : Pc ⊕ Reply}
    (h : Ready m (.startCreate req)) (he : e.fault = none) (hadv : advance e m (.startCreate req) = (m',o)) :
    After m' o := by
  obtain ⟨hag,hb⟩ := h
  simp only [advance,goto,reply] at hadv
  rcases write_none m he (m.store.create (rowOf e (freshSession e req))) with ⟨st,hok,hw⟩ | ⟨err,-,hw⟩
  · rw [hw] at hadv
    cases hadv
    exact hag.create hb hok
  · rw [hw] at hadv
    cases hadv
    exact hag

theorem ready_getInstall {m m' : Manager} {e : Env} {id : String} {row : SessionRow} {o : Pc ⊕ Reply}
    (h : Ready m (.getInstall id row)) (hadv : advance e m (.getInstall id row) = (m',o)) : After m' o := by
  obtain ⟨hag,hb,hfind,hst⟩ := h
  simp only [advance,reply] at hadv
  split at hadv <;> cases hadv
  · exact hag
  · refine hag.install hb ?_
    rw [rowStatus_eq hb]
    show (m.store.find row.id).map (·.status) = some .active
    rw [find_id hfind,hfind,Option.map_some,hst]

/-- A session in the map has a row to mark, where there are rows. -/
theorem Agreed.marks {m : Manager} {id : String} {q : ℕ} {s : Session} (h : Agreed m) (hq : m.sessions id = some q)
    (hs : m.heap[q]? = some s) (now : ℕ) (ev by' : ℤ) : ∃ st, m.store.markStopped id now ev by' = .ok st := by
  have hent : entryStatus m id = some s.status := by simp [entryStatus,lookup,hq,hs]
  have hne : entryStatus m id ≠ none := by simp [hent]
  have hrow : m.store.find id ≠ none := by
    intro hnone
    have hsame := (h.same id).resolve_left hne
    rw [rowStatus_eq (h.postgres (sessions_of_entry hne)),hent,hnone] at hsame
    cases hsame
  obtain ⟨row,hrow⟩ := Option.ne_none_iff_exists'.mp hrow
  unfold Store.markStopped
  cases m.store.backend <;> simp [hrow]

theorem ready_stopLookup {m m' : Manager} {e : Env} {id : String} {o : Pc ⊕ Reply} (h : Agreed m)
    (hadv : advance e m (.stopLookup id) = (m',o)) : After m' o := by
  simp only [advance,goto,reply] at hadv
  split at hadv
  · rename_i hq
    cases hadv
    exact ⟨h,by simp [entryStatus,lookup,hq]⟩
  · rename_i q hq
    split at hadv
    · rename_i hs
      cases hadv
      exact ⟨h,by simp [entryStatus,lookup,hq,hs]⟩
    · rename_i s hs
      split at hadv
      · cases hadv
        exact h
      · cases hadv
        exact ⟨fun now ev by' st hok => h.stop hq e.now now ev by' hok,h.marks hq hs,markStopped e.now s,
          by simp [Manager.assign,hs]⟩

theorem ready_stopMark {m m' : Manager} {e : Env} {id : String} {q : ℕ} {o : Pc ⊕ Reply}
    (h : Ready m (.stopMark id q)) (he : e.fault = none) (hadv : advance e m (.stopMark id q) = (m',o)) :
    After m' o := by
  obtain ⟨hag,hok,s,hs⟩ := h
  obtain ⟨st,hst⟩ := hok (s.stoppedAt.getD 0) s.eventsCaptured s.bytesCaptured
  have hw : m.write e (m.store.markStopped id (s.stoppedAt.getD 0) s.eventsCaptured s.bytesCaptured) =
      (none,m.withStore st) := by
    rw [hst]
    simp [Manager.write,Store.write,he]
  simp only [advance,reply,hs,hw] at hadv
  cases hadv
  exact hag _ _ _ st hst

theorem ready_stopMarkRow {m m' : Manager} {e : Env} {id : String} {row : SessionRow} {o : Pc ⊕ Reply}
    (h : Ready m (.stopMarkRow id row)) (he : e.fault = none) (hadv : advance e m (.stopMarkRow id row) = (m',o)) :
    After m' o := by
  obtain ⟨hag,hnone⟩ := h
  simp only [advance,reply] at hadv
  rcases write_none m he (m.store.markStopped id e.now row.eventsCaptured row.bytesCaptured) with
    ⟨st,hok,hw⟩ | ⟨err,-,hw⟩
  · rw [hw] at hadv
    cases hadv
    refine hag.withStore (find_markStopped hok "").1 fun i hent => ?_
    rw [(find_markStopped hok i).2,if_neg]
    rintro ⟨-,rfl⟩
    exact hent hnone
  · rw [hw] at hadv
    cases hadv
    exact hag

theorem ready_heartbeat {m m' : Manager} {e : Env} {id : String} {o : Pc ⊕ Reply} (h : Agreed m)
    (he : e.fault = none) (hadv : advance e m (.heartbeat id) = (m',o)) : After m' o := by
  simp only [advance,reply] at hadv
  rcases write_none m he (m.store.heartbeat id e.now) with ⟨st,hok,hw⟩ | ⟨err,-,hw⟩
  · rw [hw] at hadv
    cases hadv
    exact h.withStore (find_heartbeat hok "").1 fun i _ => (find_heartbeat hok i).2
  · rw [hw] at hadv
    cases hadv
    exact h

theorem ready_advance {m m' : Manager} {e : Env} {p : Pc} {o : Pc ⊕ Reply} (h : Ready m p) (he : e.fault = none)
    (hadv : advance e m p = (m',o)) : After m' o := by
  cases p with
  | startLookup req =>
    simp only [advance,goto] at hadv
    split at hadv <;> cases hadv <;> exact h
  | startCheck req existing =>
    simp only [advance,goto,reply] at hadv
    split at hadv
    · split at hadv <;> cases hadv
      · exact h.1
      · exact h
    · cases hadv
      exact h
  | startFetch req =>
    simp only [advance,goto,reply] at hadv
    split at hadv
    · cases hadv
      exact h
    · cases hadv
      exact h.1
    · rename_i row hrow
      cases hadv
      exact ⟨h.1,h.2,(fetch_ok hrow).2⟩
  | startHydrate req row => exact ready_startHydrate h hadv
  | startCreate req => exact ready_startCreate h he hadv
  | startInstall req s =>
    cases hadv
    exact h
  | getLookup id =>
    simp only [advance,goto,reply] at hadv
    split at hadv <;> cases hadv <;> exact h
  | getFetch id =>
    simp only [advance,goto,reply] at hadv
    split at hadv
    · cases hadv
      exact h
    · cases hadv
      exact h
    · rename_i row hrow
      split at hadv <;> cases hadv
      · exact ⟨h,(fetch_ok hrow).1,(fetch_ok hrow).2,by assumption⟩
      · exact h
  | getInstall id row => exact ready_getInstall h hadv
  | stopLookup id => exact ready_stopLookup h hadv
  | stopMark id q => exact ready_stopMark h he hadv
  | stopFetch id =>
    simp only [advance,goto,reply] at hadv
    split at hadv
    · cases hadv
      exact h.1
    · cases hadv
      exact h.1
    · split at hadv <;> cases hadv
      · exact h
      · exact h.1
  | stopMarkRow id row => exact ready_stopMarkRow h he hadv
  | recordLookup id count bytes =>
    simp only [advance,goto,reply] at hadv
    split at hadv <;> cases hadv <;> exact h
  | recordAdd id q count bytes | recordAddBytes id q count bytes =>
    cases hadv
    have hag : Agreed m := h
    exact hag.assign q (fun _ => rfl) fun _ => rfl
  | heartbeat id => exact ready_heartbeat h he hadv
  | sweepStore idle =>
    have hag : Agreed m := h
    simp only [advance,goto,he] at hadv
    cases hadv
    exact fun now => hag.sweep idle e.now now
  | sweepMark idle ids =>
    cases hadv
    exact h e.now

theorem finish_agreed {es : List Env} {m m' : Manager} {p : Pc} {r : Result} (h : Ready m p)
    (hes : ∀ e ∈ es, e.fault = none) (hrun : finish es m p = some (m',r)) : Agreed m' := by
  induction es generalizing m p with
  | nil => cases hrun
  | cons e es ih =>
    have he := hes e (by simp)
    have hrest : ∀ e' ∈ es, e'.fault = none := fun e' he' => hes e' (by simp [he'])
    unfold finish at hrun
    split at hrun
    · rename_i m₁ p₁ hadv
      exact ih (ready_advance h he hadv) hrest hrun
    · rename_i m₁ v hadv
      cases hrun
      exact ready_advance h he hadv

theorem getResult_eq {m : Manager} {id : String} : getResult m id = some (match lookup m id with
    | some s => .session s
    | none => match m.store.get id with
      | .error .sessionNotFound => .error .notFound
      | .error err => .error (.store err)
      | .ok row => if row.status = .active then .session (rehydrate row) else .error .alreadyStopped) := by
  cases hl : lookup m id with
  | some s =>
    have hadv : advance {} m (.getLookup id) = (m,.inr ⟨.get id,.session s⟩) := by
      unfold lookup at hl
      simp [advance,reply,hl]
    simp [getResult,finish,hadv]
  | none =>
    have hadv : advance {} m (.getLookup id) = (m,.inl (.getFetch id)) := by
      unfold lookup at hl
      simp [advance,goto,hl]
    simp only [getResult,finish,hadv]
    cases hg : m.store.get id with
    | error err =>
      cases err <;> simp [advance,reply,Manager.fetch,hg]
    | ok row =>
      by_cases hst : row.status = .active
      · unfold lookup at hl
        simp [advance,goto,reply,Manager.fetch,hg,hst,hl]
      · simp [advance,reply,Manager.fetch,hg,hst]

theorem Agreed.agreement {m : Manager} (h : Agreed m) : Agreement m := by
  intro id
  rw [getResult_eq]
  cases hl : lookup m id with
  | some s =>
    have hent : entryStatus m id = some s.status := by simp [entryStatus,hl]
    have hrow : rowStatus m id = some s.status := by
      rcases h.same id with hn | hs
      · rw [hent] at hn
        cases hn
      · rw [← hs,hent]
    simp [Result.isActive,hrow]
  | none =>
    unfold rowStatus
    cases hg : m.store.get id with
    | error err => cases err <;> simp [Result.isActive]
    | ok row => by_cases hst : row.status = .active <;> simp [Result.isActive,rehydrate,hst]

theorem deleteSession_cases (m : Manager) (id : String) :
    (∃ st, m.store.delete id = .ok st ∧ deleteSession m id = (m.withStore st,204)) ∨
      ((deleteSession m id).1 = m ∧ (deleteSession m id).2 ≠ 204) := by
  unfold deleteSession
  cases m.store.delete id with
  | ok st => exact .inl ⟨st,rfl,rfl⟩
  | error err => cases err <;> exact .inr ⟨rfl,by simp⟩

theorem Agreed.delete {m : Manager} (h : Agreed m) {id : String} {st : Store} (hok : m.store.delete id = .ok st)
    (hl : lookup m id = none) : Agreed (m.withStore st) ∧ getResult (m.withStore st) id = some (.error .notFound) := by
  have hf := find_delete hok
  refine ⟨h.withStore (hf "").1 fun i hent => ?_,?_⟩
  · rw [(hf i).2.1]
    rintro rfl
    exact hent (by simp [entryStatus,hl])
  · have hget : (m.withStore st).store.get id = .error .sessionNotFound := by
      show st.get id = _
      unfold Store.get
      rw [(hf id).1]
      cases hb : m.store.backend with
      | noop => rfl
      | postgres => simp [(hf id).2.2.2 hb]
    rw [getResult_eq,show lookup (m.withStore st) id = none from hl,hget]

theorem finish_create_noop {m m' : Manager} (hb : m.store.backend = .noop) {es : List Env} {req : StartRequest}
    {r : Result} (hes : ∀ e ∈ es, e.fault = none) (hrun : finish es m (.startCreate req) = some (m',r)) :
    ∃ s : Session, s.status = .active ∧ m' = m.install s := by
  cases es with
  | nil => cases hrun
  | cons e es =>
    have hadv : advance e m (.startCreate req) = (m,.inl (.startInstall req (freshSession e req))) := by
      simp only [advance,goto,Manager.write,Store.write,Store.create,hb,hes e (by simp)]
      rfl
    simp only [finish,hadv] at hrun
    cases es with
    | nil => cases hrun
    | cons e' es =>
      cases hrun
      exact ⟨freshSession e req,rfl,rfl⟩

/-- A store that remembers nothing lets every `Start` go through, without a row. -/
theorem finish_start_noop {m m' : Manager} (h : Agreed m) (hb : m.store.backend = .noop) {es : List Env}
    {req : StartRequest} {r : Result} (hes : ∀ e ∈ es, e.fault = none)
    (hrun : finish es m (.startLookup req) = some (m',r)) : ∃ s : Session, s.status = .active ∧ m' = m.install s := by
  cases es with
  | nil => cases hrun
  | cons e₀ es =>
    by_cases hpre : req.preferredID = ""
    · have hadv : advance e₀ m (.startLookup req) = (m,.inl (.startCreate req)) := by simp [advance,goto,hpre]
      simp only [finish,hadv] at hrun
      exact finish_create_noop hb (fun e he => hes e (by simp [he])) hrun
    · have hadv : advance e₀ m (.startLookup req) = (m,.inl (.startCheck req none)) := by
        simp [advance,goto,hpre,h.noop hb req.preferredID]
      simp only [finish,hadv] at hrun
      rcases es with _ | ⟨e₁,_ | ⟨e₂,es⟩⟩
      · cases hrun
      · cases hrun
      · have he₂ : e₂.fault = none := hes e₂ (by simp)
        have hcheck : advance e₁ m (.startCheck req none) = (m,.inl (.startFetch req)) := rfl
        have hfetch : advance e₂ m (.startFetch req) = (m,.inl (.startCreate req)) := by
          simp [advance,goto,Manager.fetch,he₂,Store.get,hb]
        simp only [finish,hcheck,hfetch] at hrun
        exact finish_create_noop hb (fun e he => hes e (by simp [he])) hrun

theorem step_call {m m' : Manager} {es : List Env} {c : Call} (h : step m (.call es c) = some m') :
    (∀ e ∈ es, e.fault = none) ∧ ∃ r, finish es m (entry c) = some (m',r) := by
  simp only [step] at h
  split at h
  · rename_i hall
    obtain ⟨⟨m₁,r⟩,hrun,rfl⟩ := Option.map_eq_some_iff.mp h
    exact ⟨by simpa using hall,r,hrun⟩
  · cases h

theorem agreed_step {m m' : Manager} {op : Op} (h : Agreed m) (hok : Admitted m op) (hst : step m op = some m') :
    Agreed m' := by
  cases op with
  | call es c =>
    obtain ⟨hes,r,hrun⟩ := step_call hst
    refine finish_agreed ?_ hes hrun
    cases c with
    | start req => exact ⟨h,hok⟩
    | _ => exact h
  | delete id =>
    cases hst
    rcases deleteSession_cases m id with ⟨st,hdel,heq⟩ | ⟨hsame,-⟩
    · rw [heq]
      exact (h.delete hdel (hok (by rw [heq]))).1
    · rw [hsame]
      exact h

theorem lawful_iff {m m' : Manager} {op : Op} (h : Agreed m) (hst : step m op = some m') :
    Lawful m op ↔ Admitted m op := by
  constructor
  · intro hlaw
    obtain ⟨hag,hdel⟩ := hlaw m' hst
    cases op with
    | call es c =>
      cases c with
      | start req =>
        by_contra hpg
        have hb : m.store.backend = .noop := by
          cases hb : m.store.backend with
          | noop => rfl
          | postgres => exact absurd hb hpg
        obtain ⟨hes,r,hrun⟩ := step_call hst
        obtain ⟨s,hact,rfl⟩ := finish_start_noop h hb hes hrun
        have hrow := (hag s.id).mp (by rw [getResult_eq,lookup_install h.valid]; simp [Result.isActive,hact])
        have hnone : rowStatus (m.install s) s.id = none := by simp [rowStatus,Store.get,Manager.install,hb]
        rw [hnone] at hrow
        cases hrow
      | _ => trivial
    | delete id =>
      intro hcode
      have hgone := (hdel id rfl hcode).1
      have hm' : m' = (deleteSession m id).1 := (Option.some.inj hst).symm
      rcases deleteSession_cases m id with ⟨st,-,heq⟩ | ⟨-,hne⟩
      · rw [hm',heq,getResult_eq] at hgone
        cases hl : lookup m id with
        | none => rfl
        | some s =>
          rw [show lookup (m.withStore st) id = some s from hl] at hgone
          cases hgone
      · exact absurd hcode hne
  · intro hok m₁ hm₁
    obtain rfl : m' = m₁ := Option.some.inj (hst.symm.trans hm₁)
    refine ⟨(agreed_step h hok hst).agreement,?_⟩
    rintro id rfl hcode
    cases hst
    rcases deleteSession_cases m id with ⟨st,hdel,heq⟩ | ⟨-,hne⟩
    · rw [heq]
      have hgone := (h.delete hdel (hok hcode)).2
      exact ⟨hgone,by simp [accepts,hgone,Result.isActive]⟩
    · exact absurd hcode hne

/-- Along every sequence of calls without store errors, from an engine that starts over any store, map and
store agree exactly when sessions are started with a store that keeps them and deleted while they are
not in memory. -/
theorem store_agreement_iff {st : Store} {ops : List Op} {t : Manager} (hrun : exec step (boot st) ops = some t) :
    Along step Lawful (boot st) ops ↔ Along step Admitted (boot st) ops :=
  (Run.of_exec_true hrun).along_congr Agreed (fun _ _ _ h _ hok hst => agreed_step h hok hst)
    (fun _ _ _ h hst => lawful_iff h hst) (agreed_boot st)

def deletedRun : List Op := [.call (List.replicate 5 {}) (.start ⟨"capture",[],"sess_1"⟩),.delete "sess_1"]

/-- The deleted session has no row and still accepts streams. -/
theorem deleted_run_disagrees : (∃ t ∈ exec step (boot (.empty .postgres)) deletedRun,
      rowStatus t "sess_1" = none ∧ accepts t "sess_1" = true) ∧
    ¬ Along step Lawful (boot (.empty .postgres)) deletedRun := by
  have hstart : step (boot (.empty .postgres)) (.call (List.replicate 5 {}) (.start ⟨"capture",[],"sess_1"⟩)) =
      some started := rfl
  refine ⟨by decide +kernel,?_⟩
  intro h
  have hdel : Lawful started (.delete "sess_1") := by
    have h₂ := h.2
    rw [hstart] at h₂
    exact h₂.1
  have hcode : (deleteSession started "sess_1").2 = 204 := by decide +kernel
  have hgone := ((hdel _ rfl).2 "sess_1" rfl hcode).2
  revert hgone
  decide +kernel

/-- An engine deletes the session of an earlier one, and starts it anew. -/
def reusedRun : List Op :=
  [.delete "sess_1",.call (List.replicate 5 {}) (.start ⟨"capture",[],"sess_1"⟩),.call (List.replicate 2 {}) (.stop "sess_1"),
    .call (List.replicate 2 {}) (.sweepIdle 300)]

theorem store_agreement_iff_reusedRun : ∃ t, exec step (boot started.store) reusedRun = some t ∧
    Along step Lawful (boot started.store) reusedRun := by
  obtain ⟨t,ht⟩ : ∃ t, exec step (boot started.store) reusedRun = some t := by
    rw [← Option.isSome_iff_exists]
    decide +kernel
  exact ⟨t,ht,(store_agreement_iff ht).mpr (by decide +kernel)⟩

end SequentialCalls
end Clearvoiance
