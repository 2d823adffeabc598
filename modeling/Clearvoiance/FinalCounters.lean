import Clearvoiance.SessionManager

/-! What a stopped session's row says about its counters.  The counters live in memory; `Stop` writes
them into the row, while the sweeper, a stop of a session that is not in memory and a restart of the
engine know nothing about them.  A ghost field sums up the recorded counts of every session. -/
namespace Clearvoiance
namespace FinalCounters

open SessionStore SessionManager Transition

def RowIs (s : Store) (id : String) (st : Status) : Prop := (s.find id).map (·.status) = some st

instance (s : Store) (id : String) (st : Status) : Decidable (RowIs s id st) :=
  inferInstanceAs (Decidable (_ = _))

/-- The manager's state, and for each id the sums over the `RecordEvents` calls that returned `true`
while the session's row was active.  The sums are exact: an `int64` counter would hold them modulo 2^64. -/
structure World where
  pool : State
  life : String → ℤ × ℤ

abbrev World.mgr (w : World) : Manager := w.pool.shared

abbrev World.store (w : World) : Store := w.pool.shared.store

inductive Label
  | act (a : Action)
  | restart
  deriving DecidableEq

/-- A returning `RecordEvents` counts for the session's life. -/
def credit (s : Store) (life : String → ℤ × ℤ) : Pc → String → ℤ × ℤ
  | .recordAddBytes id _ count bytes =>
    if RowIs s id .active then Function.update life id (life id+(count,bytes)) else life
  | _ => life

def creditAct (t : State) (life : String → ℤ × ℤ) : Action → String → ℤ × ℤ
  | .invoke _ => life
  | .advance i _ =>
    match t.threads[i]? with
    | some p => credit t.shared.store life p
    | none => life

/-- The engine process starts again: the store is all that is left. -/
def restarted (t : State) : State := ⟨⟨t.shared.store,[],fun _ => none⟩,[],t.replies⟩

def step (w : World) : Label → Option World
  | .act a => (SessionManager.step w.pool a).map fun t => ⟨t,creditAct w.pool w.life a⟩
  | .restart => some ⟨restarted w.pool,w.life⟩

def init (b : Backend) : World := ⟨SessionManager.init b,fun _ => 0⟩

/-- Every stopped row has the counters of the session's life. -/
def Final (w : World) : Prop :=
  ∀ id row, w.store.find id = some row → row.status = .stopped →
    (row.eventsCaptured,row.bytesCaptured) = w.life id

/-- The call has added its count to the session, and not yet its bytes. -/
def halfway (id : String) : Pc → Prop
  | .recordAddBytes i _ _ _ => i = id
  | _ => False

instance (id : String) : DecidablePred (halfway id) := fun p => by
  induction p using Pc.casesOn <;> unfold halfway <;> infer_instance

/-- The call has stopped the session in memory and is about to write its row. -/
def marks (id : String) : Pc → Prop
  | .stopMark i _ => i = id
  | _ => False

instance (id : String) : DecidablePred (marks id) := fun p => by
  induction p using Pc.casesOn <;> unfold marks <;> infer_instance

/-- The session of `id` has recorded nothing, and no call is recording. -/
def Untouched (w : World) (id : String) : Prop := w.life id = 0 ∧ ∀ p ∈ w.pool.threads, ¬ halfway id p

instance (w : World) (id : String) : Decidable (Untouched w id) :=
  inferInstanceAs (Decidable (_ ∧ _))

def Agrees (m : Manager) (id : String) (q : ℕ) : Prop :=
  ∀ st ∈ (m.store.find id).map (·.status), ∀ s ∈ m.heap[q]?, s.status = st

instance (m : Manager) (id : String) (q : ℕ) : Decidable (Agrees m id q) := by
  unfold Agrees
  infer_instance

/-- No session is in memory under `id`, and its row is not stopped. -/
def Vacant (m : Manager) (id : String) : Prop := m.sessions id = none ∧ ¬ RowIs m.store id .stopped

instance (m : Manager) (id : String) : Decidable (Vacant m id) := inferInstanceAs (Decidable (_ ∧ _))

/-- Counters are added to only while memory and row agree and no `Stop` is about to write the row; a
session is put into memory only where there is none; and a path that does not write the counters
stops only a session without any. -/
def careful (e : Env) (w : World) : Pc → Prop
  | .recordAdd id q _ _ | .recordAddBytes id q _ _ =>
    Agrees w.mgr id q ∧ ∀ p ∈ w.pool.threads, ¬ marks id p
  | .startHydrate _ row => row.status = .active → Vacant w.mgr row.id
  | .startInstall _ s => Vacant w.mgr s.id
  | .getInstall id _ => ¬ RowIs w.store id .stopped
  | .stopMark id _ => e.fault ≠ some false → ∀ p ∈ w.pool.threads, ¬ halfway id p
  | .stopMarkRow id _ => e.fault ≠ some false → Untouched w id
  | .sweepStore idle => e.fault ≠ some false → ∀ id ∈ w.store.idleIds idle e.now, Untouched w id
  | _ => True

instance (e : Env) (w : World) (p : Pc) : Decidable (careful e w p) := by
  induction p using Pc.casesOn <;> unfold careful <;> infer_instance

/-- A restart finds no active session that has recorded anything. -/
def Careful (w : World) : Label → Prop
  | .restart => ∀ row ∈ w.store.rows, row.status = .active → w.life row.id = 0
  | .act (.invoke _) => True
  | .act (.advance i e) => ∀ p ∈ w.pool.threads[i]?, careful e w p

instance (w : World) (l : Label) : Decidable (Careful w l) := by
  unfold Careful
  split <;> infer_instance

/-- The call is about to add its bytes and return. -/
def records : Pc → Bool
  | .recordAddBytes _ _ _ _ => true
  | _ => false

def carefree : Pc → Bool
  | .startCheck _ _ | .startFetch _ | .startCreate _ | .getFetch _ | .stopFetch _ => true
  | _ => false

/-- Everything an atomic step of the manager can do. -/
inductive Effect (e : Env) (m : Manager) : Pc → Manager → Pc ⊕ Reply → Prop
  | answer (p : Pc) (r : Reply) : records p = false → Effect e m p m (.inr r)
  | goes (p p' : Pc) : records p = false → carefree p' = true → Effect e m p m (.inl p')
  | fetchedStart (req : StartRequest) (row : SessionRow) : m.store.find req.preferredID = some row →
      Effect e m (.startFetch req) m (.inl (.startHydrate req row))
  | fetchedGet (id : String) (row : SessionRow) : m.store.find id = some row → row.status = .active →
      Effect e m (.getFetch id) m (.inl (.getInstall id row))
  | fetchedStop (id : String) (row : SessionRow) : m.store.find id = some row → row.status = .active →
      Effect e m (.stopFetch id) m (.inl (.stopMarkRow id row))
  | found (id : String) (q : ℕ) (count bytes : ℤ) : m.sessions id = some q →
      Effect e m (.recordLookup id count bytes) m (.inl (.recordAdd id q count bytes))
  | add (id : String) (q : ℕ) (count bytes : ℤ) : Effect e m (.recordAdd id q count bytes)
      (m.assign q fun s => { s with eventsCaptured := s.eventsCaptured+count })
      (.inl (.recordAddBytes id q count bytes))
  | addBytes (id : String) (q : ℕ) (count bytes : ℤ) (r : Reply) : Effect e m (.recordAddBytes id q count bytes)
      (m.assign q fun s => { s with bytesCaptured := s.bytesCaptured+bytes }) (.inr r)
  | hydrate (req : StartRequest) (row : SessionRow) (o : Pc ⊕ Reply) :
      ((∃ r, o = .inr r) ∧ row.status = .active ∨ o = .inl (.startCreate req) ∧ row.status = .stopped) →
      Effect e m (.startHydrate req row) (m.install (hydrate row)) o
  | create (req : StartRequest) (s : Store) (o : Pc ⊕ Reply) :
      m.store.create (rowOf e (freshSession e req)) = .ok s →
      (o = .inl (.startInstall req (freshSession e req)) ∨ ∃ r, o = .inr r) →
      Effect e m (.startCreate req) (m.withStore s) o
  | install (req : StartRequest) (s : Session) (r : Reply) : Effect e m (.startInstall req s) (m.install s) (.inr r)
  | rehydrate (id : String) (row : SessionRow) (r : Reply) : (m.sessions id).bind (m.heap[·]?) = none →
      Effect e m (.getInstall id row) (m.install (rehydrate row)) (.inr r)
  | stop (id : String) (q : ℕ) (s : Session) : m.sessions id = some q → m.heap[q]? = some s → s.status = .active →
      Effect e m (.stopLookup id) (m.assign q (markStopped e.now)) (.inl (.stopMark id q))
  | stopWrite (id : String) (q : ℕ) (s : Session) (st : Store) (at' : ℕ) (r : Reply) : m.heap[q]? = some s →
      m.store.markStopped id at' s.eventsCaptured s.bytesCaptured = .ok st → e.fault ≠ some false →
      Effect e m (.stopMark id q) (m.withStore st) (.inr r)
  | stopRowWrite (id : String) (row : SessionRow) (st : Store) (r : Reply) :
      m.store.markStopped id e.now row.eventsCaptured row.bytesCaptured = .ok st → e.fault ≠ some false →
      Effect e m (.stopMarkRow id row) (m.withStore st) (.inr r)
  | heartbeat (id : String) (st : Store) (r : Reply) : m.store.heartbeat id e.now = .ok st →
      Effect e m (.heartbeat id) (m.withStore st) (.inr r)
  | sweep (idle : ℕ) (o : Pc ⊕ Reply) : e.fault ≠ some false →
      (o = .inl (.sweepMark idle (m.store.sweepIdle idle e.now).2) ∨ ∃ r, o = .inr r) →
      Effect e m (.sweepStore idle) (m.withStore (m.store.sweepIdle idle e.now).1) o
  | sweepMap (idle : ℕ) (ids : List String) (r : Reply) :
      Effect e m (.sweepMark idle ids) (sweepMap e.now m ids) (.inr r)

/-- A write either commits its statement or leaves the manager alone. -/
theorem written {m m' : Manager} {e : Env} {o : Option StoreError} {r : Except StoreError Store}
    (hw : m.write e r = (o,m')) :
    (∃ s, r = .ok s ∧ e.fault ≠ some false ∧ m' = m.withStore s) ∨ o ≠ none ∧ m' = m := by
  by_cases hf : e.fault = some false
  · unfold Manager.write Store.write at hw
    rw [hf] at hw
    cases r <;> cases hw <;> exact .inr ⟨by simp,rfl⟩
  · rcases write_cases hw with ⟨s,hs,hm⟩ | hm
    · exact .inl ⟨s,hs,hf,hm⟩
    · exact .inr hm

/-- A call whose last step is a write either commits it or leaves the manager alone. -/
theorem effect_written {e : Env} {m m' : Manager} {p : Pc} {oe : Option StoreError} {w : Except StoreError Store}
    {r : Reply} (hw : m.write e w = (oe,m')) (hp : records p = false)
    (hok : ∀ s, w = .ok s → e.fault ≠ some false → Effect e m p (m.withStore s) (.inr r)) :
    Effect e m p m' (.inr r) := by
  rcases written hw with ⟨s,hs,hf,rfl⟩ | ⟨-,rfl⟩
  · exact hok s hs hf
  · exact .answer _ _ hp

theorem effect_startHydrate {e : Env} {m m' : Manager} {req : StartRequest} {row : SessionRow} {o : Pc ⊕ Reply}
    (h : advance e m (.startHydrate req row) = (m',o)) : Effect e m (.startHydrate req row) m' o := by
  simp only [advance,goto,reply] at h
  split at h <;> rename_i hst <;> cases h
  · exact .hydrate req row _ (.inl ⟨⟨_,rfl⟩,hst⟩)
  · refine .hydrate req row _ (.inr ⟨rfl,?_⟩)
    cases hs : row.status with
    | active => exact absurd hs hst
    | stopped => rfl

theorem effect_startCreate {e : Env} {m m' : Manager} {req : StartRequest} {o : Pc ⊕ Reply}
    (h : advance e m (.startCreate req) = (m',o)) : Effect e m (.startCreate req) m' o := by
  simp only [advance,goto,reply] at h
  split at h <;> rename_i hw <;> cases h
  · exact effect_written hw rfl fun s hs _ => .create req s _ hs (.inr ⟨_,rfl⟩)
  · rcases written hw with ⟨s,hs,-,rfl⟩ | ⟨hne,-⟩
    · exact .create req s _ hs (.inl rfl)
    · exact absurd rfl hne

theorem effect_stopLookup {e : Env} {m m' : Manager} {id : String} {o : Pc ⊕ Reply}
    (h : advance e m (.stopLookup id) = (m',o)) : Effect e m (.stopLookup id) m' o := by
  simp only [advance,goto,reply] at h
  split at h
  · cases h
    exact .goes _ _ rfl rfl
  · rename_i q hq
    split at h
    · cases h
      exact .goes _ _ rfl rfl
    · rename_i s hs
      split at h <;> rename_i hst <;> cases h
      · exact .answer _ _ rfl
      · refine .stop id q s hq hs ?_
        cases hst' : s.status with
        | active => rfl
        | stopped => exact absurd hst' hst

theorem effect_stopMark {e : Env} {m m' : Manager} {id : String} {q : ℕ} {o : Pc ⊕ Reply}
    (h : advance e m (.stopMark id q) = (m',o)) : Effect e m (.stopMark id q) m' o := by
  simp only [advance,reply] at h
  split at h
  · cases h
    exact .answer _ _ rfl
  · rename_i s hs
    split at h <;> rename_i hw <;> cases h <;>
      exact effect_written hw rfl fun st hst hf => .stopWrite id q s st _ _ hs hst hf

theorem effect_of_advance {e : Env} {m m' : Manager} {p : Pc} {o : Pc ⊕ Reply} (h : advance e m p = (m',o)) :
    Effect e m p m' o := by
  cases p with
  | startLookup req =>
    simp only [advance,goto] at h
    split at h <;> cases h
    · exact .goes _ _ rfl rfl
    · exact .goes _ _ rfl rfl
  | startCheck req existing =>
    simp only [advance,goto,reply] at h
    split at h
    · split at h <;> cases h
      · exact .answer _ _ rfl
      · exact .goes _ _ rfl rfl
    · cases h
      exact .goes _ _ rfl rfl
  | startFetch req =>
    simp only [advance,goto,reply] at h
    split at h
    · cases h
      exact .goes _ _ rfl rfl
    · cases h
      exact .answer _ _ rfl
    · rename_i row hrow
      cases h
      exact .fetchedStart req row (fetch_ok hrow).2
  | startHydrate req row => exact effect_startHydrate h
  | startCreate req => exact effect_startCreate h
  | startInstall req s =>
    cases h
    exact .install req s _
  | getLookup id =>
    simp only [advance,goto,reply] at h
    split at h <;> cases h
    · exact .answer _ _ rfl
    · exact .goes _ _ rfl rfl
  | getFetch id =>
    simp only [advance,goto,reply] at h
    split at h
    · cases h
      exact .answer _ _ rfl
    · cases h
      exact .answer _ _ rfl
    · rename_i row hrow
      split at h <;> rename_i hst <;> cases h
      · exact .fetchedGet id row (fetch_ok hrow).2 hst
      · exact .answer _ _ rfl
  | getInstall id row =>
    simp only [advance,reply] at h
    split at h <;> rename_i hbind <;> cases h
    · exact .answer _ _ rfl
    · exact .rehydrate id row _ hbind
  | stopLookup id => exact effect_stopLookup h
  | stopMark id q => exact effect_stopMark h
  | stopFetch id =>
    simp only [advance,goto,reply] at h
    split at h
    · cases h
      exact .answer _ _ rfl
    · cases h
      exact .answer _ _ rfl
    · rename_i row hrow
      split at h <;> rename_i hst <;> cases h
      · exact .fetchedStop id row (fetch_ok hrow).2 hst
      · exact .answer _ _ rfl
  | stopMarkRow id row =>
    simp only [advance,reply] at h
    split at h <;> rename_i hw <;> cases h <;>
      exact effect_written hw rfl fun st hst hf => .stopRowWrite id row st _ hst hf
  | recordLookup id count bytes =>
    simp only [advance,goto,reply] at h
    split at h <;> rename_i hq <;> cases h
    · exact .answer _ _ rfl
    · exact .found id _ count bytes hq
  | recordAdd id q count bytes =>
    cases h
    exact .add id q count bytes
  | recordAddBytes id q count bytes =>
    cases h
    exact .addBytes id q count bytes _
  | heartbeat id =>
    simp only [advance,reply] at h
    split at h <;> rename_i hw <;> cases h <;> exact effect_written hw rfl fun st hst _ => .heartbeat id st _ hst
  | sweepStore idle =>
    simp only [advance,goto,reply] at h
    split at h <;> rename_i hf <;> cases h
    · exact .sweep idle _ (by simp [hf]) (.inl rfl)
    · exact .sweep idle _ (by simp [hf]) (.inr ⟨_,rfl⟩)
    · exact .answer _ _ rfl
  | sweepMark idle ids =>
    cases h
    exact .sweepMap idle ids _

def counts (s : Session) : ℤ × ℤ := (s.eventsCaptured,s.bytesCaptured)

def rowCounts (row : SessionRow) : ℤ × ℤ := (row.eventsCaptured,row.bytesCaptured)

/-- What a call has added to the counters of `id` without having returned. -/
def owed (id : String) : Pc → ℤ × ℤ
  | .recordAddBytes i _ count _ => if i = id then (count,0) else 0
  | _ => 0

def owedBy (threads : List Pc) (id : String) : ℤ × ℤ := (threads.map (owed id)).sum

abbrev World.owed (w : World) (id : String) : ℤ × ℤ := owedBy w.pool.threads id

/-- The session can still record: its row or its entry in memory is active. -/
def Open (m : Manager) (id : String) : Prop :=
  m.store.find id ≠ none ∧
    (RowIs m.store id .active ∨ ∃ q s, m.sessions id = some q ∧ m.heap[q]? = some s ∧ s.status = .active)

def Local (w : World) : Pc → Prop
  | .recordAdd id q _ _ | .recordAddBytes id q _ _ =>
    (∃ s, w.mgr.heap[q]? = some s ∧ s.id = id) ∧
    (w.store.backend = .postgres → w.store.find id ≠ none) ∧
    (Open w.mgr id → w.mgr.sessions id = some q)
  | .stopMark id q =>
    (w.store.backend = .postgres → w.store.find id ≠ none) ∧
    ∃ s, w.mgr.heap[q]? = some s ∧ s.id = id ∧
      (w.store.find id ≠ none → counts s = w.life id+w.owed id)
  | .stopMarkRow _ row => rowCounts row = 0
  | .startHydrate _ row => w.store.find row.id ≠ none ∧ (row.status = .active → rowCounts row = 0) ∧
    (row.status = .stopped → RowIs w.store row.id .stopped)
  | .getInstall id row => row.id = id ∧ w.store.find id ≠ none
  | .startInstall _ s => counts s = 0 ∧
    (w.store.backend = .postgres → w.store.find s.id ≠ none)
  | _ => True

/-- The counters in memory are those of the session's life, as long as it can record. -/
structure Kept (w : World) : Prop where
  rooted : ∀ id, w.store.find id ≠ none → w.store.backend = .postgres
  zero : ∀ id row, w.store.find id = some row → row.status = .active → rowCounts row = 0
  final : Final w
  unborn : ∀ id, w.store.find id = none → w.life id = 0
  pointed : ∀ id q, w.mgr.sessions id = some q → ∃ s, w.mgr.heap[q]? = some s ∧ s.id = id ∧
    (w.store.backend = .postgres → w.store.find id ≠ none)
  entry : ∀ id q s, w.mgr.sessions id = some q → w.mgr.heap[q]? = some s →
    Open w.mgr id → counts s = w.life id+w.owed id
  absent : ∀ id, RowIs w.store id .active → w.mgr.sessions id = none → w.life id = 0
  threads : ∀ p ∈ w.pool.threads, Local w p

/-- What a row can become: itself up to what the counters do not depend on, a new active row, or a
stopped row with the counters of the session's life. -/
def Rewritten (w w' : World) (id : String) (row' : SessionRow) : Prop :=
  (∃ row, w.store.find id = some row ∧ row'.status = row.status ∧ rowCounts row' = rowCounts row) ∨
  (w.store.find id = none ∧ row'.status = .active ∧ rowCounts row' = 0) ∨
  (row'.status = .stopped ∧ rowCounts row' = w'.life id)

/-- What every step leaves alone; `calm` holds of the ids whose counters it does not touch. -/
structure Carries (calm : String → Prop) (w w' : World) : Prop where
  backend : w'.store.backend = w.store.backend
  rooted : ∀ id, w'.store.find id ≠ none → w.store.backend = .postgres
  rows : ∀ id, w.store.find id ≠ none → w'.store.find id ≠ none
  row : ∀ id row', w'.store.find id = some row' → Rewritten w w' id row'
  stopped : ∀ id, RowIs w.store id .stopped → RowIs w'.store id .stopped
  heap : ∀ (q : ℕ) (s : Session), w.mgr.heap[q]? = some s → ∃ s' : Session, w'.mgr.heap[q]? = some s' ∧ s'.id = s.id ∧
    (calm s.id → counts s' = counts s)
  opens : ∀ id, w.store.find id ≠ none → Open w'.mgr id → Open w.mgr id ∧
    ∀ q, w.mgr.sessions id = some q → w'.mgr.sessions id = some q
  life : ∀ id, w'.life id = w.life id ∨ ¬ calm id ∧ RowIs w.store id .active
  owed : ∀ id, calm id → w'.owed id = w.owed id

theorem RowIs.find {s : Store} {id : String} {st : Status} (h : RowIs s id st) :
    ∃ row, s.find id = some row ∧ row.status = st := by
  simpa [RowIs] using h

theorem rowIs_of {s : Store} {id : String} {row : SessionRow} (h : s.find id = some row) :
    RowIs s id row.status := by
  simp [RowIs,h]

namespace Carries

variable {calm : String → Prop} {w w' : World}

theorem life_of_calm (hc : Carries calm w w') {id : String} (h : calm id) : w'.life id = w.life id := by
  rcases hc.life id with hl | hl
  · exact hl
  · exact absurd h hl.1

theorem active (hc : Carries calm w w') {id : String} (h : RowIs w'.store id .active) :
    RowIs w.store id .active ∨ w.store.find id = none := by
  obtain ⟨row',hrow',hst⟩ := h.find
  rcases hc.row id row' hrow' with ⟨row,hrow,hstat,-⟩ | ⟨hnone,-⟩ | ⟨hstopped,-⟩
  · left
    rw [← hst,hstat]
    exact rowIs_of hrow
  · exact .inr hnone
  · simp [hstopped] at hst

/-- What a call relies on survives a step of another call. -/
theorem preserves (hc : Carries calm w w') {p : Pc} (h : Local w p) (hm : ∀ id, marks id p → calm id) :
    Local w' p := by
  have hnone : ∀ id, (w.store.backend = .postgres → w.store.find id ≠ none) →
      w'.store.backend = .postgres → w'.store.find id ≠ none := by
    intro id hid hb
    exact hc.rows id (hid (hc.backend ▸ hb))
  have hopen : ∀ id q, (w.store.backend = .postgres → w.store.find id ≠ none) →
      (Open w.mgr id → w.mgr.sessions id = some q) →
      Open w'.mgr id → w'.mgr.sessions id = some q := by
    intro id q hid hq ho
    obtain ⟨ho',hs⟩ := hc.opens id (hid (hc.rooted id ho.1)) ho
    exact hs q (hq ho')
  cases p with
  | recordAdd id q count bytes =>
    obtain ⟨⟨s,hs,hid⟩,hrow,ho⟩ := h
    obtain ⟨s',hs',hid',-⟩ := hc.heap q s hs
    exact ⟨⟨s',hs',hid'.trans hid⟩,hnone id hrow,hopen id q hrow ho⟩
  | recordAddBytes id q count bytes =>
    obtain ⟨⟨s,hs,hid⟩,hrow,ho⟩ := h
    obtain ⟨s',hs',hid',-⟩ := hc.heap q s hs
    exact ⟨⟨s',hs',hid'.trans hid⟩,hnone id hrow,hopen id q hrow ho⟩
  | stopMark id q =>
    obtain ⟨hrow,s,hs,hid,hcount⟩ := h
    obtain ⟨s',hs',hid',hcount'⟩ := hc.heap q s hs
    have hcalm := hm id rfl
    refine ⟨hnone id hrow,s',hs',hid'.trans hid,fun hfind => ?_⟩
    have hold := hrow (hc.rooted id hfind)
    rw [hcount' (hid ▸ hcalm),hcount hold,hc.life_of_calm hcalm,hc.owed id hcalm]
  | stopMarkRow id row => exact h
  | startHydrate req row => exact ⟨hc.rows _ h.1,h.2.1,fun hst => hc.stopped _ (h.2.2 hst)⟩
  | getInstall id row => exact ⟨h.1,hc.rows _ h.2⟩
  | startInstall req s => exact ⟨h.1,hnone _ h.2⟩
  | _ => trivial

end Carries

/-- The invariant after a step, from what the step leaves alone and what it puts in place. -/
theorem Kept.carry {calm : String → Prop} {w w' : World} (h : Kept w) (hc : Carries calm w w')
    (hpointed : ∀ id q, w'.mgr.sessions id = some q → w.mgr.sessions id = some q ∨
      ∃ s, w'.mgr.heap[q]? = some s ∧ s.id = id ∧ (w'.store.backend = .postgres → w'.store.find id ≠ none))
    (hentry : ∀ id q s, w'.mgr.sessions id = some q → w'.mgr.heap[q]? = some s → Open w'.mgr id →
      calm id ∧ w.mgr.sessions id = some q ∨ counts s = w'.life id+w'.owed id)
    (hbusy : ∀ id, ¬ calm id → Open w'.mgr id → w'.mgr.sessions id ≠ none)
    (hthreads : ∀ p ∈ w'.pool.threads, (p ∈ w.pool.threads ∧ ∀ id, marks id p → calm id) ∨ Local w' p) : Kept w' where
  rooted id hid := hc.backend.trans (hc.rooted id hid)
  zero id row hrow hst := by
    rcases hc.row id row hrow with ⟨row₀,hrow₀,hst₀,hcount⟩ | ⟨-,-,hcount⟩ | ⟨hstopped,-⟩
    · exact hcount.trans (h.zero id row₀ hrow₀ (hst₀ ▸ hst))
    · exact hcount
    · simp [hstopped] at hst
  final id row hrow hst := by
    rcases hc.row id row hrow with ⟨row₀,hrow₀,hst₀,hcount⟩ | ⟨-,hactive,-⟩ | ⟨-,hcount⟩
    · have hstopped : row₀.status = .stopped := hst₀ ▸ hst
      have hlife : w'.life id = w.life id := by
        rcases hc.life id with hl | ⟨-,hl⟩
        · exact hl
        · simp [RowIs,hrow₀,hstopped] at hl
      rw [hlife,← h.final id row₀ hrow₀ hstopped]
      exact hcount
    · simp [hactive] at hst
    · exact hcount
  unborn id hid := by
    have hold : w.store.find id = none := by
      by_contra hne
      exact hc.rows id hne hid
    rcases hc.life id with hl | ⟨-,hl⟩
    · exact hl.trans (h.unborn id hold)
    · simp [RowIs,hold] at hl
  pointed id q hq := by
    rcases hpointed id q hq with hold | hnew
    · obtain ⟨s,hs,hid,hrow⟩ := h.pointed id q hold
      obtain ⟨s',hs',hid',-⟩ := hc.heap q s hs
      exact ⟨s',hs',hid'.trans hid,fun hb => hc.rows id (hrow (hc.backend ▸ hb))⟩
    · exact hnew
  entry id q s hq hs ho := by
    rcases hentry id q s hq hs ho with ⟨hcalm,hold⟩ | hcount
    · obtain ⟨s₀,hs₀,hid,hrow⟩ := h.pointed id q hold
      obtain ⟨s',hs',-,hcount⟩ := hc.heap q s₀ hs₀
      obtain rfl : s' = s := Option.some.inj (hs'.symm.trans hs)
      have hold' := (hc.opens id (hrow (hc.rooted id ho.1)) ho).1
      rw [hcount (hid ▸ hcalm),h.entry id q s₀ hold hs₀ hold',hc.life_of_calm hcalm,hc.owed id hcalm]
    · exact hcount
  absent id hactive hnone := by
    have ho : Open w'.mgr id := by
      obtain ⟨row,hrow,-⟩ := hactive.find
      exact ⟨by simp [hrow],.inl hactive⟩
    have hcalm : calm id := by
      by_contra hcalm
      exact hbusy id hcalm ho hnone
    rw [hc.life_of_calm hcalm]
    rcases hc.active hactive with hold | hold
    · have hsessions : w.mgr.sessions id = none := by
        by_contra hne
        obtain ⟨q,hq⟩ := Option.ne_none_iff_exists'.mp hne
        obtain ⟨row,hrow,-⟩ := hold.find
        have hq' := (hc.opens id (by simp [hrow]) ho).2 q hq
        simp [hnone] at hq'
      exact h.absent id hold hsessions
    · exact h.unborn id hold
  threads p hp := by
    rcases hthreads p hp with ⟨hold,hm⟩ | hnew
    · exact hc.preserves (h.threads p hold) hm
    · exact hnew

/-- The calls in flight after one of them moved. -/
def resumed (l : List Pc) (o : Pc ⊕ Reply) (r : List Pc) : List Pc :=
  match o with
  | .inl p' => l ++ p' :: r
  | .inr _ => l ++ r

theorem mem_resumed {l r : List Pc} {o : Pc ⊕ Reply} {p : Pc} (h : p ∈ resumed l o r) : p ∈ l ++ r ∨ o = .inl p := by
  cases o with
  | inr v => exact .inl h
  | inl p' =>
    simp only [resumed,List.mem_append,List.mem_cons] at h
    rcases h with h | rfl | h
    · exact .inl (List.mem_append_left r h)
    · exact .inr rfl
    · exact .inl (List.mem_append_right l h)

/-- What the rest of a call owes after its step. -/
def owedAfter (id : String) : Pc ⊕ Reply → ℤ × ℤ
  | .inl p' => FinalCounters.owed id p'
  | .inr _ => 0

section Step

variable {w : World} {l r : List Pc} {p : Pc} {o : Pc ⊕ Reply} {m' : Manager} {life' : String → ℤ × ℤ} {rs : List Reply}

theorem owed_resumed (hp : w.pool.threads = l ++ p :: r) (id : String) :
    owedBy (resumed l o r) id+FinalCounters.owed id p = w.owed id+owedAfter id o := by
  cases o with
  | inl p' =>
    simp only [World.owed,owedBy,hp,resumed,owedAfter,List.map_append,List.map_cons,List.sum_append,List.sum_cons]
    abel
  | inr v =>
    simp only [World.owed,owedBy,hp,resumed,owedAfter,List.map_append,List.map_cons,List.sum_append,List.sum_cons]
    abel

theorem owed_of_not_records {p : Pc} (h : records p = false) (id : String) : FinalCounters.owed id p = 0 := by
  cases p with
  | recordAddBytes => cases h
  | _ => rfl

theorem owed_quiet (hp : w.pool.threads = l ++ p :: r) (hrec : records p = false)
    (hnew : ∀ p', o = .inl p' → records p' = false) (id : String) :
    owedBy (resumed l o r) id = w.owed id := by
  have hsum := owed_resumed (o := o) hp id
  have hafter : owedAfter id o = 0 := by
    cases o with
    | inl p' => exact owed_of_not_records (hnew p' rfl) id
    | inr v => rfl
  simpa [owed_of_not_records hrec id,hafter] using hsum

theorem mem_others (hp : w.pool.threads = l ++ p :: r) {p' : Pc} (h : p' ∈ l ++ r) : p' ∈ w.pool.threads := by
  rw [hp]
  simp only [List.mem_append,List.mem_cons] at h ⊢
  rcases h with h | h
  · exact .inl h
  · exact .inr (.inr h)

theorem carries_same (h : Kept w) (ho : ∀ id, owedBy (resumed l o r) id = w.owed id) :
    Carries (fun _ => True) w ⟨⟨w.mgr,resumed l o r,rs⟩,w.life⟩ where
  backend := rfl
  rooted := h.rooted
  rows _ hid := hid
  row _ row hrow := .inl ⟨row,hrow,rfl,rfl⟩
  stopped _ hst := hst
  heap _ s hs := ⟨s,hs,rfl,fun _ => rfl⟩
  opens _ _ hop := ⟨hop,fun _ hq => hq⟩
  life _ := .inl rfl
  owed id _ := ho id

theorem kept_quiet (h : Kept w) (hp : w.pool.threads = l ++ p :: r) (hrec : records p = false)
    (hnew : ∀ p', o = .inl p' → records p' = false ∧ Local ⟨⟨w.mgr,resumed l o r,rs⟩,w.life⟩ p') :
    Kept ⟨⟨w.mgr,resumed l o r,rs⟩,w.life⟩ := by
  refine h.carry (carries_same h (owed_quiet hp hrec fun p' hp' => (hnew p' hp').1)) ?_ ?_ ?_ ?_
  · exact fun id q hq => .inl hq
  · exact fun id q s hq hs hop => .inl ⟨trivial,hq⟩
  · exact fun id hcalm => absurd trivial hcalm
  · intro p' hp'
    rcases mem_resumed hp' with hold | hnew'
    · exact .inl ⟨mem_others hp hold,fun _ _ => trivial⟩
    · exact .inr (hnew p' hnew').2

theorem kept_store (h : Kept w) (hp : w.pool.threads = l ++ p :: r) (hrec : records p = false) {st : Store}
    (hb : st.backend = w.store.backend) (hrooted : ∀ id, st.find id ≠ none → w.store.backend = .postgres)
    (hrows : ∀ id, w.store.find id ≠ none → st.find id ≠ none)
    (hrow : ∀ id row', st.find id = some row' →
      Rewritten w ⟨⟨w.mgr.withStore st,resumed l o r,rs⟩,w.life⟩ id row')
    (hstopped : ∀ id, RowIs w.store id .stopped → RowIs st id .stopped)
    (hnew : ∀ p', o = .inl p' →
      records p' = false ∧ Local ⟨⟨w.mgr.withStore st,resumed l o r,rs⟩,w.life⟩ p') :
    Kept ⟨⟨w.mgr.withStore st,resumed l o r,rs⟩,w.life⟩ := by
  have hcarries : Carries (fun _ => True) w ⟨⟨w.mgr.withStore st,resumed l o r,rs⟩,w.life⟩ := by
    refine ⟨hb,hrooted,hrows,hrow,hstopped,?_,?_,fun _ => .inl rfl,?_⟩
    · exact fun _ s hs => ⟨s,hs,rfl,fun _ => rfl⟩
    · intro id hid hop
      refine ⟨⟨hid,?_⟩,fun _ hq => hq⟩
      rcases hop.2 with hactive | hentry
      · left
        obtain ⟨row',hrow',hst⟩ := hactive.find
        rcases hrow id row' hrow' with ⟨row,hold,hstat,-⟩ | ⟨hnone,-⟩ | ⟨hstop,-⟩
        · rw [← hst,hstat]
          exact rowIs_of hold
        · exact absurd hnone hid
        · simp [hstop] at hst
      · exact .inr hentry
    · exact fun id _ => owed_quiet hp hrec (fun p' hp' => (hnew p' hp').1) id
  refine h.carry hcarries ?_ ?_ ?_ ?_
  · exact fun id q hq => .inl hq
  · exact fun id q s hq hs hop => .inl ⟨trivial,hq⟩
  · exact fun id hcalm => absurd trivial hcalm
  · intro p' hp'
    rcases mem_resumed hp' with hold | hnew'
    · exact .inl ⟨mem_others hp hold,fun _ _ => trivial⟩
    · exact .inr (hnew p' hnew').2

theorem open_heap (h : Kept w) {heap' : List Session}
    (hheap : ∀ (q : ℕ) (s : Session), w.mgr.heap[q]? = some s →
      ∃ s' : Session, heap'[q]? = some s' ∧ (s.status = .stopped → s'.status = .stopped))
    {id : String} (ho : Open { w.mgr with heap := heap' } id) : Open w.mgr id := by
  refine ⟨ho.1,?_⟩
  rcases ho.2 with hactive | ⟨q,s',hq,hs',hst⟩
  · exact .inl hactive
  · right
    obtain ⟨s,hs,-⟩ := h.pointed id q hq
    obtain ⟨s₁,hs₁,hstopped⟩ := hheap q s hs
    obtain rfl : s₁ = s' := Option.some.inj (hs₁.symm.trans hs')
    refine ⟨q,s,hq,hs,?_⟩
    cases hstat : s.status with
    | active => rfl
    | stopped => simp [hstopped hstat] at hst

theorem kept_heap (calm : String → Prop) (h : Kept w) (hp : w.pool.threads = l ++ p :: r) {heap' : List Session}
    (hheap : ∀ (q : ℕ) (s : Session), w.mgr.heap[q]? = some s → ∃ s' : Session, heap'[q]? = some s' ∧ s'.id = s.id ∧
      (s.status = .stopped → s'.status = .stopped) ∧ (calm s.id → counts s' = counts s))
    (hlife : ∀ id, life' id = w.life id ∨ ¬ calm id ∧ RowIs w.store id .active)
    (howed : ∀ id, calm id →
      owedBy (resumed l o r) id = w.owed id)
    (hentry : ∀ id q s', ¬ calm id → w.mgr.sessions id = some q → heap'[q]? = some s' → Open w.mgr id →
      counts s' = life' id+owedBy (resumed l o r) id)
    (hbusy : ∀ id, ¬ calm id → Open w.mgr id → w.mgr.sessions id ≠ none)
    (hmarks : ∀ p' ∈ l ++ r, ∀ id, marks id p' → calm id)
    (hnew : ∀ p', o = .inl p' → Local ⟨⟨{ w.mgr with heap := heap' },resumed l o r,rs⟩,life'⟩ p') :
    Kept ⟨⟨{ w.mgr with heap := heap' },resumed l o r,rs⟩,life'⟩ := by
  have hopen : ∀ id, Open { w.mgr with heap := heap' } id → Open w.mgr id := by
    intro id
    refine open_heap h fun q s hs => ?_
    obtain ⟨s',hs',-,hst,-⟩ := hheap q s hs
    exact ⟨s',hs',hst⟩
  have hcarries : Carries calm w ⟨⟨{ w.mgr with heap := heap' },resumed l o r,rs⟩,life'⟩ := by
    refine ⟨rfl,h.rooted,fun _ hid => hid,?_,fun _ hst => hst,?_,?_,hlife,howed⟩
    · exact fun _ row hrow => .inl ⟨row,hrow,rfl,rfl⟩
    · intro q s hs
      obtain ⟨s',hs',hid,-,hcount⟩ := hheap q s hs
      exact ⟨s',hs',hid,hcount⟩
    · exact fun id _ hop => ⟨hopen id hop,fun _ hq => hq⟩
  refine h.carry hcarries ?_ ?_ ?_ ?_
  · exact fun id q hq => .inl hq
  · intro id q s hq hs hop
    by_cases hcalm : calm id
    · exact .inl ⟨hcalm,hq⟩
    · exact .inr (hentry id q s hcalm hq hs (hopen id hop))
  · exact fun id hcalm hop => hbusy id hcalm (hopen id hop)
  · intro p' hp'
    rcases mem_resumed hp' with hold | hnew'
    · exact .inl ⟨mem_others hp hold,hmarks p' hold⟩
    · exact .inr (hnew p' hnew')

theorem owed_zero {id : String} (h : ∀ p ∈ w.pool.threads, ¬ halfway id p) : w.owed id = 0 := by
  apply List.sum_eq_zero
  intro x hx
  obtain ⟨p,hp,rfl⟩ := List.mem_map.mp hx
  cases p with
  | recordAddBytes i q count bytes =>
    have hne : i ≠ id := h _ hp
    simp [FinalCounters.owed,hne]
  | _ => rfl

/-- A session that is not in memory has no call that records for it. -/
theorem Kept.not_halfway (h : Kept w) {id : String} (hs : w.mgr.sessions id = none) (ho : Open w.mgr id) :
    ∀ p ∈ w.pool.threads, ¬ halfway id p := by
  intro p hp hhalf
  cases p with
  | recordAddBytes i q count bytes =>
    obtain rfl : i = id := hhalf
    have hq := (h.threads _ hp).2.2 ho
    simp [hs] at hq
  | _ => exact hhalf

theorem local_of_carefree (w : World) {p : Pc} (h : carefree p = true) : Local w p := by
  cases p <;> trivial

theorem not_records_of_carefree {p : Pc} (h : carefree p = true) : records p = false := by
  cases p <;> trivial

/-- A session is put into memory where there was none, or as a stopped one. -/
theorem kept_install (h : Kept w) (hp : w.pool.threads = l ++ p :: r) (hrec : records p = false) {s : Session}
    (hrow : w.store.backend = .postgres → w.store.find s.id ≠ none)
    (hfresh : Vacant w.mgr s.id ∧ counts s = 0 ∨ s.status = .stopped ∧ RowIs w.store s.id .stopped)
    (hnew : ∀ p', o = .inl p' → carefree p' = true) : Kept ⟨⟨w.mgr.install s,resumed l o r,rs⟩,w.life⟩ := by
  have hrecs : ∀ p', o = .inl p' → records p' = false := fun p' hp' => not_records_of_carefree (hnew p' hp')
  have howed := owed_quiet hp hrec hrecs
  have hself : (w.mgr.install s).sessions s.id = some w.mgr.heap.length := by simp [Manager.install]
  have hother : ∀ id, id ≠ s.id → (w.mgr.install s).sessions id = w.mgr.sessions id := by
    intro id hid
    simp [Manager.install,hid]
  have hheap : ∀ (q : ℕ) (s' : Session), w.mgr.heap[q]? = some s' → (w.mgr.install s).heap[q]? = some s' := by
    intro q s' hs'
    have hq := (List.getElem?_eq_some_iff.mp hs').1
    simpa [Manager.install,List.getElem?_append_left hq] using hs'
  have hlast : (w.mgr.install s).heap[w.mgr.heap.length]? = some s := by simp [Manager.install]
  have hactive : w.store.find s.id ≠ none → Vacant w.mgr s.id → RowIs w.store s.id .active := by
    intro hfind hvac
    obtain ⟨row,hr⟩ := Option.ne_none_iff_exists'.mp hfind
    cases hst : row.status with
    | active => exact hst ▸ rowIs_of hr
    | stopped => exact absurd (hst ▸ rowIs_of hr) hvac.2
  have hclosed : s.status = .stopped → RowIs w.store s.id .stopped → ¬ Open (w.mgr.install s) s.id := by
    intro hst hrowst hop
    rcases hop.2 with hact | ⟨q,s',hq,hs',hst'⟩
    · have hsame : some Status.active = some Status.stopped := hact.symm.trans hrowst
      cases hsame
    · obtain rfl : q = w.mgr.heap.length := Option.some.inj (hq.symm.trans hself)
      obtain rfl : s = s' := Option.some.inj (hlast.symm.trans hs')
      simp [hst] at hst'
  have hopen : ∀ id, w.store.find id ≠ none → Open (w.mgr.install s) id → Open w.mgr id ∧
      ∀ q, w.mgr.sessions id = some q → (w.mgr.install s).sessions id = some q := by
    intro id hid hop
    by_cases hi : id = s.id
    · subst hi
      rcases hfresh with ⟨hvac,-⟩ | ⟨hst,hrowst⟩
      · refine ⟨⟨hid,.inl (hactive hid hvac)⟩,fun q hq => ?_⟩
        simp [hvac.1] at hq
      · exact absurd hop (hclosed hst hrowst)
    · refine ⟨⟨hid,?_⟩,fun q hq => (hother id hi).trans hq⟩
      rcases hop.2 with hact | ⟨q,s',hq,hs',hst'⟩
      · exact .inl hact
      · rw [hother id hi] at hq
        obtain ⟨s₀,hs₀,-⟩ := h.pointed id q hq
        obtain rfl : s₀ = s' := Option.some.inj ((hheap q s₀ hs₀).symm.trans hs')
        exact .inr ⟨q,s₀,hq,hs₀,hst'⟩
  have hcarries : Carries (fun _ => True) w ⟨⟨w.mgr.install s,resumed l o r,rs⟩,w.life⟩ := by
    refine ⟨rfl,h.rooted,fun _ hid => hid,?_,fun _ hst => hst,?_,hopen,fun _ => .inl rfl,fun id _ => howed id⟩
    · exact fun _ row hrow => .inl ⟨row,hrow,rfl,rfl⟩
    · exact fun q s' hs' => ⟨s',hheap q s' hs',rfl,fun _ => rfl⟩
  refine h.carry hcarries ?_ ?_ ?_ ?_
  · intro id q hq
    by_cases hi : id = s.id
    · subst hi
      obtain rfl : q = w.mgr.heap.length := Option.some.inj (hq.symm.trans hself)
      exact .inr ⟨s,hlast,rfl,hrow⟩
    · exact .inl ((hother id hi).symm.trans hq)
  · intro id q s' hq hs' hop
    by_cases hi : id = s.id
    · right
      subst hi
      obtain rfl : q = w.mgr.heap.length := Option.some.inj (hq.symm.trans hself)
      obtain rfl : s = s' := Option.some.inj (hlast.symm.trans hs')
      have hop' := (hopen s.id hop.1 hop).1
      rcases hfresh with ⟨hvac,hcount⟩ | ⟨hst,hrowst⟩
      · have hlife := h.absent s.id (hactive hop.1 hvac) hvac.1
        have hzero := owed_zero (h.not_halfway hvac.1 hop')
        show counts s = w.life s.id+owedBy (resumed l o r) s.id
        rw [hcount,howed,hzero,hlife,add_zero]
      · exact absurd hop (hclosed hst hrowst)
    · exact .inl ⟨trivial,(hother id hi).symm.trans hq⟩
  · exact fun id hcalm => absurd trivial hcalm
  · intro p' hp'
    rcases mem_resumed hp' with hold | hnew'
    · exact .inl ⟨mem_others hp hold,fun _ _ => trivial⟩
    · exact .inr (local_of_carefree _ (hnew p' hnew'))

/-- The row of a stopped session takes the counters of its life. -/
theorem kept_stopped (h : Kept w) (hp : w.pool.threads = l ++ p :: r) (hrec : records p = false) {st : Store}
    {id : String} {at' : ℕ} {events bytes : ℤ} (hst : w.store.markStopped id at' events bytes = .ok st)
    (hcount : w.store.find id ≠ none → (events,bytes) = w.life id) (v : Reply) :
    Kept ⟨⟨w.mgr.withStore st,resumed l (.inr v) r,rs⟩,w.life⟩ := by
  have hfind := find_markStopped hst
  have hnone : ∀ i, st.find i ≠ none → w.store.find i ≠ none := by
    intro i hi hn
    apply hi
    rw [(hfind i).2,hn]
    split <;> rfl
  refine kept_store h hp hrec (hfind id).1 (fun i hi => h.rooted i (hnone i hi)) ?_ ?_ ?_ (by simp)
  · intro i hi
    rw [(hfind i).2]
    split <;> simp [hi]
  · intro i row' hrow'
    rw [(hfind i).2] at hrow'
    split at hrow'
    · rename_i hcond
      obtain ⟨row,hrow,rfl⟩ := Option.map_eq_some_iff.mp hrow'
      rw [hcond.2] at hrow ⊢
      exact .inr (.inr ⟨rfl,hcount (by simp [hrow])⟩)
    · exact .inl ⟨row',hrow',rfl,rfl⟩
  · intro i hi
    obtain ⟨row,hrow,hstat⟩ := hi.find
    unfold RowIs
    rw [(hfind i).2,hrow]
    split
    · rfl
    · simp [hstat]

theorem kept_create (h : Kept w) (hp : w.pool.threads = l ++ p :: r) (hrec : records p = false) {st : Store}
    {row : SessionRow} (hst : w.store.create row = .ok st) (hactive : row.status = .active) (hzero : rowCounts row = 0)
    (hnew : ∀ p', o = .inl p' →
      records p' = false ∧ Local ⟨⟨w.mgr.withStore st,resumed l o r,rs⟩,w.life⟩ p') :
    Kept ⟨⟨w.mgr.withStore st,resumed l o r,rs⟩,w.life⟩ := by
  have hfind := find_create hst
  refine kept_store h hp hrec (hfind "").1 ?_ ?_ ?_ ?_ hnew
  · intro i hi
    by_contra hb
    have hn : w.store.find i = none := by
      by_contra hne
      exact hb (h.rooted i hne)
    apply hi
    rw [(hfind i).2.2 hn,if_neg (fun hc => hb hc.1)]
  · intro i hi
    rw [(hfind i).2.1 hi]
    exact hi
  · intro i row' hrow'
    by_cases hn : w.store.find i = none
    · rw [(hfind i).2.2 hn] at hrow'
      split at hrow' <;> cases hrow'
      exact .inr (.inl ⟨hn,hactive,hzero⟩)
    · rw [(hfind i).2.1 hn] at hrow'
      exact .inl ⟨row',hrow',rfl,rfl⟩
  · intro i hi
    obtain ⟨row₀,hrow₀,hstat⟩ := hi.find
    unfold RowIs
    rw [(hfind i).2.1 (by simp [hrow₀]),hrow₀,← hstat]
    rfl

theorem find_heartbeat_counts {s s' : Store} {id : String} {now : ℕ} (h : s.heartbeat id now = .ok s') (i : String) :
    s'.find i = s.find i ∨ s'.find i = (s.find i).map fun row => { row with lastHeartbeatAt := now } := by
  obtain ⟨b,rows,hk⟩ := s
  cases b with
  | noop =>
    cases h
    exact .inl rfl
  | postgres =>
    simp only [Store.heartbeat] at h
    split at h
    · split at h
      · cases h
        rw [find_update]
        split
        · exact .inr rfl
        · exact .inl rfl
      · cases h
    · cases h

theorem kept_heartbeat (h : Kept w) (hp : w.pool.threads = l ++ p :: r) (hrec : records p = false) {st : Store}
    {id : String} {now : ℕ} (hst : w.store.heartbeat id now = .ok st) (v : Reply) :
    Kept ⟨⟨w.mgr.withStore st,resumed l (.inr v) r,rs⟩,w.life⟩ := by
  have hfind := find_heartbeat_counts hst
  have hnone : ∀ i, st.find i = none ↔ w.store.find i = none := by
    intro i
    rcases hfind i with hf | hf <;> simp [hf]
  refine kept_store h hp hrec (find_heartbeat hst id).1 ?_ ?_ ?_ ?_ (by simp)
  · exact fun i hi => h.rooted i (fun hn => hi ((hnone i).mpr hn))
  · exact fun i hi hn => hi ((hnone i).mp hn)
  · intro i row' hrow'
    rcases hfind i with hf | hf
    · exact .inl ⟨row',hf ▸ hrow',rfl,rfl⟩
    · rw [hf] at hrow'
      obtain ⟨row,hrow,rfl⟩ := Option.map_eq_some_iff.mp hrow'
      exact .inl ⟨row,hrow,rfl,rfl⟩
  · intro i hi
    exact (find_heartbeat hst i).2.trans hi

theorem kept_sweep (h : Kept w) (hp : w.pool.threads = l ++ p :: r) (hrec : records p = false) {idle now : ℕ}
    (hzero : ∀ id ∈ w.store.idleIds idle now, w.life id = 0)
    (hnew : ∀ p', o = .inl p' → ∃ ids, p' = .sweepMark idle ids) :
    Kept ⟨⟨w.mgr.withStore (w.store.sweepIdle idle now).1,resumed l o r,rs⟩,w.life⟩ := by
  have hfind := find_sweepIdle w.store idle now
  refine kept_store h hp hrec (hfind "").1 ?_ ?_ ?_ ?_ ?_
  · intro i hi
    rw [(hfind i).2] at hi
    exact h.rooted i (fun hn => hi (by simp [hn]))
  · intro i hi
    rw [(hfind i).2]
    simp [hi]
  · intro i row' hrow'
    rw [(hfind i).2] at hrow'
    obtain ⟨row,hrow,rfl⟩ := Option.map_eq_some_iff.mp hrow'
    split
    · rename_i hcond
      have hactive : row.status = .active := by
        have hidle := hcond.2
        simp only [SessionRow.idleSince,Bool.and_eq_true,decide_eq_true_eq] at hidle
        exact hidle.1
      have hmem : i ∈ w.store.idleIds idle now := by
        unfold Store.idleIds
        rw [hcond.1]
        refine List.mem_map.mpr ⟨row,List.mem_filter.mpr ⟨?_,hcond.2⟩,find_id hrow⟩
        exact List.mem_of_find?_eq_some hrow
      exact .inr (.inr ⟨rfl,(h.zero i row hrow hactive).trans (hzero i hmem).symm⟩)
    · exact .inl ⟨row,hrow,rfl,rfl⟩
  · intro i hi
    obtain ⟨row,hrow,hstat⟩ := hi.find
    unfold RowIs
    rw [(hfind i).2,hrow]
    simp only [Option.map_some]
    split
    · rfl
    · rw [hstat]
  · intro p' hp'
    obtain ⟨ids,rfl⟩ := hnew p' hp'
    exact ⟨rfl,trivial⟩

theorem assign_get {m : Manager} {q : ℕ} {s : Session} (f : Session → Session) (hs : m.heap[q]? = some s) (q' : ℕ)
    {s' : Session} (hs' : m.heap[q']? = some s') :
    (m.assign q f).heap[q']? = some (if q' = q then f s else s') := by
  by_cases hq : q' = q
  · subst hq
    simp [Manager.assign,hs]
  · have hne : ¬ q = q' := fun h => hq h.symm
    simp [Manager.assign,hne,hq,hs']

/-- `Stop` stops a session in memory, and is about to write the counters it has there. -/
theorem kept_stop (h : Kept w) {id : String} (hp : w.pool.threads = l ++ .stopLookup id :: r) {q now : ℕ} {s : Session}
    (hq : w.mgr.sessions id = some q) (hs : w.mgr.heap[q]? = some s) (hst : s.status = .active) :
    Kept ⟨⟨w.mgr.assign q (markStopped now),resumed l (.inl (.stopMark id q)) r,rs⟩,w.life⟩ := by
  have howed := owed_quiet (o := .inl (.stopMark id q)) hp rfl (by simp [records])
  obtain ⟨s₀,hs₀,hid,hrow⟩ := h.pointed id q hq
  obtain rfl : s₀ = s := Option.some.inj (hs₀.symm.trans hs)
  refine kept_heap (fun _ => True) h hp ?_ (fun _ => .inl rfl) (fun i _ => howed i) ?_ ?_ ?_ ?_
  · intro q' s' hs'
    refine ⟨_,assign_get (markStopped now) hs q' hs',?_⟩
    split
    · rename_i hq'
      subst hq'
      obtain rfl : s₀ = s' := Option.some.inj (hs.symm.trans hs')
      exact ⟨rfl,fun _ => rfl,fun _ => rfl⟩
    · exact ⟨rfl,fun hst => hst,fun _ => rfl⟩
  · exact fun _ _ _ hcalm => absurd trivial hcalm
  · exact fun _ hcalm => absurd trivial hcalm
  · exact fun _ _ _ _ => trivial
  · intro p' hp'
    cases hp'
    refine ⟨hrow,markStopped now s₀,?_,hid,fun hfind => ?_⟩
    · have hget := assign_get (markStopped now) hs q hs
      rwa [if_pos rfl] at hget
    · show counts s₀ = w.life id+owedBy _ id
      rw [howed]
      exact h.entry id q s₀ hq hs ⟨hfind,.inr ⟨q,s₀,hq,hs,hst⟩⟩

theorem sweepMap_spec (now : ℕ) (m : Manager) (ids : List String) : ∃ heap', sweepMap now m ids = { m with heap := heap' } ∧
    ∀ (q : ℕ) (s : Session), m.heap[q]? = some s → ∃ s' : Session, heap'[q]? = some s' ∧ s'.id = s.id ∧
      (s.status = .stopped → s'.status = .stopped) ∧ counts s' = counts s := by
  induction ids generalizing m with
  | nil => exact ⟨m.heap,rfl,fun q s hs => ⟨s,hs,rfl,fun hst => hst,rfl⟩⟩
  | cons id ids ih =>
    simp only [sweepMap]
    split
    · exact ih m
    · rename_i q hq
      obtain ⟨heap',heq,hheap⟩ := ih (m.assign q (markSwept now))
      refine ⟨heap',heq,fun q' s hs => ?_⟩
      have hget : (m.assign q (markSwept now)).heap[q']? = some (if q = q' then markSwept now s else s) := by
        by_cases hqq : q = q' <;> simp [Manager.assign,hqq,hs]
      obtain ⟨s',hs',hid,hst,hcount⟩ := hheap q' _ hget
      refine ⟨s',hs',?_,?_,?_⟩
      · rw [hid]
        split <;> rfl
      · intro hstopped
        apply hst
        split
        · rfl
        · exact hstopped
      · rw [hcount]
        split <;> rfl

theorem kept_sweepMap (h : Kept w) (hp : w.pool.threads = l ++ p :: r) (hrec : records p = false) (now : ℕ)
    (ids : List String) (v : Reply) : Kept ⟨⟨sweepMap now w.mgr ids,resumed l (.inr v) r,rs⟩,w.life⟩ := by
  obtain ⟨heap',heq,hheap⟩ := sweepMap_spec now w.mgr ids
  rw [heq]
  refine kept_heap (fun _ => True) h hp ?_ (fun _ => .inl rfl) ?_ ?_ ?_ ?_ (by simp)
  · intro q s hs
    obtain ⟨s',hs',hid,hst,hcount⟩ := hheap q s hs
    exact ⟨s',hs',hid,hst,fun _ => hcount⟩
  · exact fun i _ => owed_quiet hp hrec (by simp) i
  · exact fun _ _ _ hcalm => absurd trivial hcalm
  · exact fun _ hcalm => absurd trivial hcalm
  · exact fun _ _ _ _ => trivial

/-- Only the session that a call records for sees its additions. -/
theorem add_heap {id : String} {q : ℕ} {s : Session} (hs : w.mgr.heap[q]? = some s) (hid : s.id = id)
    {f : Session → Session} (hf : (f s).id = s.id ∧ (f s).status = s.status) :
    ∀ (q' : ℕ) (s' : Session), w.mgr.heap[q']? = some s' → ∃ s'' : Session, (w.mgr.assign q f).heap[q']? = some s'' ∧
      s''.id = s'.id ∧ (s'.status = .stopped → s''.status = .stopped) ∧ (s'.id ≠ id → counts s'' = counts s') := by
  intro q' s' hs'
  refine ⟨_,assign_get f hs q' hs',?_⟩
  split
  · rename_i hq'
    subst hq'
    obtain rfl : s = s' := Option.some.inj (hs.symm.trans hs')
    exact ⟨hf.1,fun hst => hf.2.trans hst,fun hne => absurd hid hne⟩
  · exact ⟨rfl,fun hst => hst,fun _ => rfl⟩

theorem kept_add (h : Kept w) {id : String} {q : ℕ} {count bytes : ℤ}
    (hp : w.pool.threads = l ++ .recordAdd id q count bytes :: r) (hmarks : ∀ p ∈ w.pool.threads, ¬ marks id p) :
    Kept ⟨⟨w.mgr.assign q fun s => { s with eventsCaptured := s.eventsCaptured+count },
      resumed l (.inl (.recordAddBytes id q count bytes)) r,rs⟩,w.life⟩ := by
  obtain ⟨⟨s,hs,hid⟩,hrow,hopen⟩ := h.threads (.recordAdd id q count bytes) (by simp [hp])
  have howed := owed_resumed (o := .inl (.recordAddBytes id q count bytes)) hp
  have hheap := add_heap (f := fun s => { s with eventsCaptured := s.eventsCaptured+count }) hs hid ⟨rfl,rfl⟩
  refine kept_heap (fun i => i ≠ id) h hp hheap (fun _ => .inl rfl) ?_ ?_ ?_ ?_ ?_
  · intro i hi
    have hsum := howed i
    have hne : ¬ id = i := fun heq => hi heq.symm
    simpa [FinalCounters.owed,owedAfter,hne] using hsum
  · intro i q' s' hi hq' hs' hop
    obtain rfl : i = id := by simpa using hi
    obtain rfl : q = q' := Option.some.inj ((hopen hop).symm.trans hq')
    have hget := assign_get (fun s => { s with eventsCaptured := s.eventsCaptured+count }) hs q hs
    rw [if_pos rfl] at hget
    obtain rfl := Option.some.inj (hget.symm.trans hs')
    have hsum := howed i
    simp only [FinalCounters.owed,owedAfter,if_true,add_zero] at hsum
    have hold := h.entry i q s hq' hs hop
    rw [hsum,← add_assoc,← hold]
    simp [counts]
  · intro i hi hop
    obtain rfl : i = id := by simpa using hi
    simp [hopen hop]
  · intro p' hp' i hm
    rintro rfl
    exact hmarks p' (mem_others hp hp') hm
  · intro p' hp'
    cases hp'
    refine ⟨?_,hrow,fun hop => hopen ?_⟩
    · obtain ⟨s'',hs'',hid'',-⟩ := hheap q s hs
      exact ⟨s'',hs'',hid''.trans hid⟩
    · refine open_heap h (fun q' s' hs' => ?_) hop
      obtain ⟨s'',hs'',-,hst,-⟩ := hheap q' s' hs'
      exact ⟨s'',hs'',hst⟩

theorem kept_addBytes (h : Kept w) {id : String} {q : ℕ} {count bytes : ℤ}
    (hp : w.pool.threads = l ++ .recordAddBytes id q count bytes :: r) (hagree : Agrees w.mgr id q)
    (hmarks : ∀ p ∈ w.pool.threads, ¬ marks id p) (v : Reply) :
    Kept ⟨⟨w.mgr.assign q fun s => { s with bytesCaptured := s.bytesCaptured+bytes },resumed l (.inr v) r,rs⟩,
      credit w.store w.life (.recordAddBytes id q count bytes)⟩ := by
  obtain ⟨⟨s,hs,hid⟩,hrow,hopen⟩ := h.threads (.recordAddBytes id q count bytes) (by simp [hp])
  have howed := owed_resumed (o := .inr v) hp
  have hheap := add_heap (f := fun s => { s with bytesCaptured := s.bytesCaptured+bytes }) hs hid ⟨rfl,rfl⟩
  refine kept_heap (fun i => i ≠ id) h hp hheap ?_ ?_ ?_ ?_ ?_ (by simp)
  · intro i
    by_cases hactive : RowIs w.store id .active
    · by_cases hi : i = id
      · subst hi
        exact .inr ⟨by simp,hactive⟩
      · exact .inl (by simp [credit,hactive,hi])
    · exact .inl (by simp [credit,hactive])
  · intro i hi
    have hsum := howed i
    have hne : ¬ id = i := fun heq => hi heq.symm
    simpa [FinalCounters.owed,owedAfter,hne] using hsum
  · intro i q' s' hi hq' hs' hop
    obtain rfl : i = id := by simpa using hi
    obtain rfl : q = q' := Option.some.inj ((hopen hop).symm.trans hq')
    have hget := assign_get (fun s => { s with bytesCaptured := s.bytesCaptured+bytes }) hs q hs
    rw [if_pos rfl] at hget
    obtain rfl := Option.some.inj (hget.symm.trans hs')
    have hactive : RowIs w.store i .active := by
      rcases hop.2 with hact | ⟨q₁,s₁,hq₁,hs₁,hst₁⟩
      · exact hact
      · obtain rfl : q = q₁ := Option.some.inj (hq'.symm.trans hq₁)
        obtain rfl : s = s₁ := Option.some.inj (hs.symm.trans hs₁)
        obtain ⟨row,hrow'⟩ := Option.ne_none_iff_exists'.mp hop.1
        have hsame := hagree row.status (by simp [hrow']) s (by simp [hs])
        rw [hst₁] at hsame
        exact hsame ▸ rowIs_of hrow'
    have hsum := howed i
    simp only [FinalCounters.owed,owedAfter,if_true,add_zero] at hsum
    have hold := h.entry i q s hq' hs hop
    have hcredit : credit w.store w.life (.recordAddBytes i q count bytes) i = w.life i+(count,bytes) := by
      simp [credit,hactive]
    rw [hcredit]
    rw [← hsum] at hold
    have hpair : ((count,bytes) : ℤ × ℤ) = (count,0)+(0,bytes) := by simp
    have hcounts : counts { s with bytesCaptured := s.bytesCaptured+bytes } = counts s+(0,bytes) := by simp [counts]
    rw [hcounts,hold,hpair]
    abel
  · intro i hi hop
    obtain rfl : i = id := by simpa using hi
    simp [hopen hop]
  · intro p' hp' i hm
    rintro rfl
    exact hmarks p' (mem_others hp hp') hm

theorem credit_of_not_records (st : Store) (life : String → ℤ × ℤ) {p : Pc} (h : records p = false) :
    credit st life p = life := by
  cases p with
  | recordAddBytes => cases h
  | _ => rfl

theorem kept_effect {e : Env} (h : Kept w) (hp : w.pool.threads = l ++ p :: r) (hok : careful e w p)
    (he : Effect e w.mgr p m' o) : Kept ⟨⟨m',resumed l o r,rs⟩,credit w.store w.life p⟩ := by
  have hlocal : Local w p := h.threads p (by simp [hp])
  cases he with
  | answer p v hrec =>
    rw [credit_of_not_records _ _ hrec]
    exact kept_quiet h hp hrec (by simp)
  | goes p p' hrec hfree =>
    rw [credit_of_not_records _ _ hrec]
    refine kept_quiet h hp hrec fun p'' hp'' => ?_
    cases hp''
    exact ⟨not_records_of_carefree hfree,local_of_carefree _ hfree⟩
  | fetchedStart req row hrow =>
    refine kept_quiet h hp rfl fun p' hp' => ?_
    cases hp'
    have hid := find_id hrow
    refine ⟨rfl,?_,h.zero _ row hrow,fun hst => ?_⟩
    · rw [hid]
      simp [hrow]
    · rw [hid,← hst]
      exact rowIs_of hrow
  | fetchedGet id row hrow hst =>
    refine kept_quiet h hp rfl fun p' hp' => ?_
    cases hp'
    exact ⟨rfl,find_id hrow,by simp [hrow]⟩
  | fetchedStop id row hrow hst =>
    refine kept_quiet h hp rfl fun p' hp' => ?_
    cases hp'
    exact ⟨rfl,h.zero id row hrow hst⟩
  | found id q count bytes hq =>
    refine kept_quiet h hp rfl fun p' hp' => ?_
    cases hp'
    obtain ⟨s,hs,hid,hrow⟩ := h.pointed id q hq
    exact ⟨rfl,⟨s,hs,hid⟩,hrow,fun _ => hq⟩
  | add id q count bytes => exact kept_add h hp hok.2
  | addBytes id q count bytes v => exact kept_addBytes h hp hok.1 hok.2 v
  | hydrate req row o ho =>
    obtain ⟨hfind,hzero,hstopped⟩ := hlocal
    refine kept_install h hp rfl (fun _ => hfind) ?_ ?_
    · rcases ho with ⟨-,hst⟩ | ⟨-,hst⟩
      · have hrow : rowCounts row = 0 := hzero hst
        refine .inl ⟨hok hst,?_⟩
        simp only [rowCounts,Prod.mk_eq_zero] at hrow
        simp [counts,SessionManager.hydrate,hrow.1,hrow.2]
      · exact .inr ⟨hst,hstopped hst⟩
    · intro p' hp'
      rcases ho with ⟨⟨v,rfl⟩,-⟩ | ⟨rfl,-⟩
      · cases hp'
      · cases hp'
        rfl
  | create req st o hst ho =>
    refine kept_create h hp rfl hst rfl rfl fun p' hp' => ?_
    rcases ho with rfl | ⟨v,rfl⟩
    · cases hp'
      refine ⟨rfl,rfl,fun hb hn => ?_⟩
      have hfind := find_create hst (freshSession e req).id
      have hpg : w.store.backend = .postgres := hfind.1 ▸ hb
      have hn' : st.find (freshSession e req).id = none := hn
      by_cases hold : w.store.find (freshSession e req).id = none
      · have hnew := hfind.2.2 hold
        rw [hn',if_pos ⟨hpg,rfl⟩] at hnew
        cases hnew
      · rw [hfind.2.1 hold] at hn'
        exact hold hn'
    · cases hp'
  | install req s v =>
    exact kept_install h hp rfl hlocal.2 (.inl ⟨hok,hlocal.1⟩) (by simp)
  | rehydrate id row v hnone =>
    obtain ⟨hid,hfind⟩ := hlocal
    have hvac : w.mgr.sessions id = none := by
      by_contra hne
      obtain ⟨q,hq⟩ := Option.ne_none_iff_exists'.mp hne
      obtain ⟨s,hs,-⟩ := h.pointed id q hq
      simp [hq,hs] at hnone
    have hvacant : Vacant w.mgr (SessionManager.rehydrate row).id := by
      show Vacant w.mgr row.id
      rw [hid]
      exact ⟨hvac,hok⟩
    refine kept_install h hp rfl (fun _ => ?_) (.inl ⟨hvacant,rfl⟩) (by simp)
    simpa [SessionManager.rehydrate,hid] using hfind
  | stop id q s hq hs hst => exact kept_stop h hp hq hs hst
  | stopWrite id q s st at' v hs hst hf =>
    refine kept_stopped h hp rfl hst (fun hfind => ?_) v
    obtain ⟨-,s',hs',-,hcount⟩ := hlocal
    obtain rfl : s = s' := Option.some.inj (hs.symm.trans hs')
    have hzero := owed_zero (hok hf)
    have hlife := hcount hfind
    rw [hzero,add_zero] at hlife
    exact hlife
  | stopRowWrite id row st v hst hf =>
    refine kept_stopped h hp rfl hst (fun _ => ?_) v
    have hrow : rowCounts row = 0 := hlocal
    exact hrow.trans (hok hf).1.symm
  | heartbeat id st v hst => exact kept_heartbeat h hp rfl hst v
  | sweep idle o hf ho =>
    refine kept_sweep h hp rfl (fun id hid => (hok hf id hid).1) fun p' hp' => ?_
    rcases ho with rfl | ⟨v,rfl⟩
    · cases hp'
      exact ⟨_,rfl⟩
    · cases hp'
  | sweepMap idle ids v => exact kept_sweepMap h hp rfl e.now ids v

end Step

theorem kept_init (b : Backend) : Kept (init b) := by
  have hfind : ∀ id, (init b).store.find id = none := fun _ => rfl
  refine ⟨?_,?_,?_,?_,?_,?_,?_,?_⟩
  · exact fun id hid => absurd (hfind id) hid
  · exact fun id row hrow => by simp [hfind] at hrow
  · exact fun id row hrow => by simp [hfind] at hrow
  · exact fun id _ => rfl
  · exact fun id q hq => by cases hq
  · exact fun id q s hq => by cases hq
  · exact fun id _ _ => rfl
  · exact fun p hp => by cases hp

theorem kept_restart {w : World} (h : Kept w) (hok : Careful w .restart) : Kept ⟨restarted w.pool,w.life⟩ := by
  refine ⟨h.rooted,h.zero,h.final,h.unborn,?_,?_,?_,?_⟩
  · exact fun id q hq => by cases hq
  · exact fun id q s hq => by cases hq
  · intro id hactive _
    obtain ⟨row,hrow,hst⟩ := hactive.find
    have hlife := hok row (List.mem_of_find?_eq_some hrow) hst
    rwa [find_id hrow] at hlife
  · exact fun p hp => by cases hp

theorem kept_invoke {w : World} (h : Kept w) (c : Call) :
    Kept ⟨{ w.pool with threads := w.pool.threads ++ [entry c] },w.life⟩ := by
  have hrec : ∀ id, owed id (entry c) = 0 := by
    intro id
    cases c <;> rfl
  have howed : ∀ id, owedBy (w.pool.threads ++ [entry c]) id = w.owed id := by
    intro id
    simp [owedBy,hrec]
  have hcarries : Carries (fun _ => True) w ⟨{ w.pool with threads := w.pool.threads ++ [entry c] },w.life⟩ :=
    ⟨rfl,h.rooted,fun _ hid => hid,fun _ row hrow => .inl ⟨row,hrow,rfl,rfl⟩,fun _ hst => hst,
      fun _ s hs => ⟨s,hs,rfl,fun _ => rfl⟩,fun _ _ hop => ⟨hop,fun _ hq => hq⟩,fun _ => .inl rfl,fun id _ => howed id⟩
  refine h.carry hcarries ?_ ?_ ?_ ?_
  · exact fun id q hq => .inl hq
  · exact fun id q s hq hs hop => .inl ⟨trivial,hq⟩
  · exact fun id hcalm => absurd trivial hcalm
  · intro p hp
    simp only [List.mem_append,List.mem_singleton] at hp
    rcases hp with hp | rfl
    · exact .inl ⟨hp,fun _ _ => trivial⟩
    · right
      cases c <;> trivial

theorem kept_step {w w' : World} {a : Label} (h : Kept w) (hok : Careful w a) (hst : step w a = some w') : Kept w' := by
  cases a with
  | restart =>
    cases hst
    exact kept_restart h hok
  | act a =>
    obtain ⟨t,ht,rfl⟩ := Option.map_eq_some_iff.mp hst
    rcases Pool.step_cases ht with ⟨c,rfl,rfl⟩ | ⟨i,e,l,r,p,m',p',rfl,hl,hi,hadv,rfl⟩ |
      ⟨i,e,l,r,p,m',v,rfl,hl,hi,hadv,rfl⟩
    · exact kept_invoke h c
    · have hkept : Kept ⟨⟨m',l ++ p' :: r,w.pool.replies⟩,credit w.store w.life p⟩ :=
        kept_effect h hl (hok p (by simp [hi])) (effect_of_advance hadv)
      simpa [creditAct,hi] using hkept
    · have hkept : Kept ⟨⟨m',l ++ r,v :: w.pool.replies⟩,credit w.store w.life p⟩ :=
        kept_effect h hl (hok p (by simp [hi])) (effect_of_advance hadv)
      simpa [creditAct,hi] using hkept

/-- In every run of careful steps, whatever stops a session, its row has the counters of its life. -/
theorem careful_run_final {b : Backend} {as : List Label} {w : World} (hr : Run step Careful (init b) as w) :
    Final w := by
  refine (hr.invariant Kept ?_ (kept_init b)).final
  intro w a w' h hok hst
  exact kept_step h hok hst

/-- A session records three events and is then swept. -/
def sweptRun : List Label :=
  [.act (.invoke (.start ⟨"s",[],"sess_1"⟩)),.act (.advance 0 {}),.act (.advance 0 {}),.act (.advance 0 {}),
    .act (.advance 0 {}),.act (.advance 0 {}),.act (.invoke (.recordEvents "sess_1" 3 100)),.act (.advance 0 {}),
    .act (.advance 0 {}),.act (.advance 0 {}),.act (.invoke (.sweepIdle 0)),.act (.advance 0 { now := 5 }),
    .act (.advance 0 { now := 5 })]

theorem swept_run_not_final : ∃ w ∈ exec step (init .postgres) sweptRun, ∃ row ∈ w.store.find "sess_1",
    row.status = .stopped ∧ (row.eventsCaptured,row.bytesCaptured) = (0,0) ∧ w.life "sess_1" = (3,100) := by
  decide +kernel

def stoppedRun : List Label :=
  sweptRun.take 10 ++ ([.act (.invoke (.stop "sess_1")),.act (.advance 0 {}),.act (.advance 0 {})] : List Label)

theorem careful_run_final_stopped : ∃ w ∈ exec step (init .postgres) stoppedRun, ∃ row ∈ w.store.find "sess_1",
    row.status = .stopped ∧ w.life "sess_1" = (3,100) ∧ (row.eventsCaptured,row.bytesCaptured) = w.life "sess_1" := by
  have h : ∃ w ∈ exec step (init .postgres) stoppedRun, ∃ row ∈ w.store.find "sess_1",
      row.status = .stopped ∧ w.life "sess_1" = (3,100) := by
    decide +kernel
  obtain ⟨w,hw,row,hrow,hst,hlife⟩ := h
  have hfinal := careful_run_final (Run.of_exec (by decide +kernel) (Option.mem_def.mp hw))
  exact ⟨w,hw,row,hrow,hst,hlife,hfinal "sess_1" row (Option.mem_def.mp hrow) hst⟩

end FinalCounters
end Clearvoiance
