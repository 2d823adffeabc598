import Clearvoiance.SessionManager

/-! Calls of the session manager that run alone, and a `Stop` whose store call fails.  A session that is
only in the store is left as it was; one in memory is stopped there before the store is asked, and
every later `Stop` takes it for stopped. -/
namespace Clearvoiance
namespace SequentialCalls

open SessionStore SessionManager

/-- A call from where it stands to its reply, with the environment of each atomic step. -/
def finish : List Env → Manager → Pc → Option (Manager × Result)
  | [],_,_ => none
  | e :: es,m,p =>
    match advance e m p with
    | (m',.inl p') => finish es m' p'
    | (m',.inr r) => some (m',r.result)

def lookup (m : Manager) (id : String) : Option Session := (m.sessions id).bind (m.heap[·]?)

/-- The status of the row that the store holds. -/
def rowStatus (m : Manager) (id : String) : Option Status :=
  match m.store.get id with
  | .ok row => some row.status
  | .error _ => none

/-- An active session of the store that is active in memory too, if it is there. -/
structure Live (m : Manager) (id : String) : Prop where
  backend : m.store.backend = .postgres
  row : rowStatus m id = some .active
  entry : ∀ s ∈ lookup m id, s.status = .active

/-- The store call that `Stop` makes first fails, or it was the row that `Stop` asked for and the
second one fails. -/
def StoreFails (m : Manager) (id : String) : List Env → Prop
  | _ :: e₁ :: es => e₁.fault ≠ none ∨ lookup m id = none ∧ ∃ e₂ ∈ es.head?, e₂.fault ≠ none
  | _ => False

instance (m : Manager) (id : String) : DecidablePred (StoreFails m id)
  | [] | [_] => .isFalse not_false
  | _ :: e₁ :: es => inferInstanceAs (Decidable (e₁.fault ≠ none ∨ lookup m id = none ∧ ∃ e₂ ∈ es.head?, e₂.fault ≠ none))

/-- The row was read, and the statement that failed took effect all the same. -/
def Committed : List Env → Prop
  | _ :: e₁ :: e₂ :: _ => e₁.fault = none ∧ e₂.fault = some true
  | _ => False

instance : DecidablePred Committed
  | [] | [_] | [_,_] => .isFalse not_false
  | _ :: e₁ :: e₂ :: _ => inferInstanceAs (Decidable (e₁.fault = none ∧ e₂.fault = some true))

/-- The counters that a `Stop` has to write. -/
def finalCounters (m : Manager) (id : String) : Option (ℤ × ℤ) :=
  match lookup m id with
  | some s => some (s.eventsCaptured,s.bytesCaptured)
  | none => (m.store.find id).map fun r => (r.eventsCaptured,r.bytesCaptured)

/-- The failed `Stop` left the session as it was, and with a working store a later one stops it and
writes its counters. -/
structure RolledBack (m m' : Manager) (id : String) : Prop where
  entry : lookup m' id = lookup m id
  row : m'.store.find id = m.store.find id
  retry : ∃ es m'' s row, (∀ e ∈ es, e.fault = none) ∧
    finish es m' (.stopLookup id) = some (m'',.session s) ∧ m''.store.find id = some row ∧
    row.status = .stopped ∧ some (row.eventsCaptured,row.bytesCaptured) = finalCounters m id

/-- `Stop` returns the store's error and is rolled back. -/
def Atomic (m : Manager) (id : String) (es : List Env) : Prop :=
  ∃ m', finish es m (.stopLookup id) = some (m',.error (.store .unavailable)) ∧ RolledBack m m' id

theorem write_fault (m : Manager) (e : Env) (r : Except StoreError Store) (h : e.fault ≠ none) :
    ∃ st, m.write e r = (some .unavailable,m.withStore st) ∧
      (e.fault = some false → st = m.store) ∧ (e.fault = some true → ∀ s, r = .ok s → st = s) := by
  unfold Manager.write Store.write
  cases hf : e.fault with
  | none => exact absurd hf h
  | some b =>
    cases b <;> cases r <;> exact ⟨_,rfl,by simp,by simp⟩

theorem rowStatus_eq {m : Manager} (hb : m.store.backend = .postgres) (id : String) :
    rowStatus m id = (m.store.find id).map (·.status) := by
  simp only [rowStatus,Store.get,hb]
  cases m.store.find id <;> rfl

theorem Live.find {m : Manager} {id : String} (h : Live m id) : ∃ row, m.store.find id = some row ∧
    row.status = .active := by
  have hrow := h.row
  rw [rowStatus_eq h.backend] at hrow
  exact Option.map_eq_some_iff.mp hrow

theorem Live.get {m : Manager} {id : String} (h : Live m id) {row : SessionRow} (hrow : m.store.find id = some row) :
    m.store.get id = .ok row := by
  simp [Store.get,h.backend,hrow]

theorem Live.markStopped {m : Manager} {id : String} (h : Live m id) {row : SessionRow}
    (hrow : m.store.find id = some row) (now : ℕ) (ev by' : ℤ) : ∃ st, m.store.markStopped id now ev by' = .ok st ∧
      st.find id = some (row.stop now ev by') := by
  have hok : ∃ st, m.store.markStopped id now ev by' = .ok st := by
    simp [Store.markStopped,h.backend,hrow]
  obtain ⟨st,hst⟩ := hok
  have hfind := (find_markStopped hst id).2
  rw [h.backend,hrow] at hfind
  exact ⟨st,hst,by simpa using hfind⟩

/-- `Stop` looks for a session that is not in memory in the store. -/
theorem advance_absent {m : Manager} {id : String} (h : lookup m id = none) (e : Env) :
    advance e m (.stopLookup id) = (m,.inl (.stopFetch id)) := by
  unfold lookup at h
  cases hp : m.sessions id with
  | none => simp [advance,goto,hp]
  | some p =>
    rw [hp,Option.bind_some] at h
    simp [advance,goto,hp,h]

theorem Live.fetch {m : Manager} {id : String} (h : Live m id) {row : SessionRow} (hrow : m.store.find id = some row)
    (hst : row.status = .active) {e : Env} (he : e.fault = none) :
    advance e m (.stopFetch id) = (m,.inl (.stopMarkRow id row)) := by
  simp [advance,goto,Manager.fetch,he,h.get hrow,hst]

/-- With a working store, `Stop` succeeds on a session that is not in memory. -/
theorem Live.retry {m : Manager} {id : String} (h : Live m id) (hnone : lookup m id = none) :
    ∃ es m'' s row, (∀ e ∈ es, e.fault = none) ∧
      finish es m (.stopLookup id) = some (m'',.session s) ∧ m''.store.find id = some row ∧
      row.status = .stopped ∧ some (row.eventsCaptured,row.bytesCaptured) = finalCounters m id := by
  obtain ⟨row,hrow,hst⟩ := h.find
  obtain ⟨st,hmark,hfind⟩ := h.markStopped hrow 0 row.eventsCaptured row.bytesCaptured
  refine ⟨[{},{},{}],m.withStore st,stoppedRow 0 row,_,by simp,?_,hfind,rfl,?_⟩
  · simp only [finish,advance_absent hnone,h.fetch hrow hst]
    simp [advance,reply,Manager.write,Store.write,hmark]
  · simp [finalCounters,hnone,hrow,SessionRow.stop]

/-- A session in memory stays stopped there, whatever the store call did. -/
theorem stop_in_memory {m : Manager} {id : String} {s : Session} (hs : lookup m id = some s)
    (hact : s.status = .active) (e₀ e₁ : Env) (es : List Env) (h : e₁.fault ≠ none) :
    ∃ m', finish (e₀ :: e₁ :: es) m (.stopLookup id) = some (m',.error (.store .unavailable)) ∧
      lookup m' id = some (markStopped e₀.now s) ∧ (e₁.fault = some false → m'.store = m.store) := by
  obtain ⟨p,hp,hheap⟩ := Option.bind_eq_some_iff.mp hs
  have hmod : (m.assign p (markStopped e₀.now)).heap[p]? = some (markStopped e₀.now s) := by
    simp [Manager.assign,hheap]
  obtain ⟨st,hw,hkeep,-⟩ := write_fault (m.assign p (markStopped e₀.now)) e₁
    (m.store.markStopped id e₀.now s.eventsCaptured s.bytesCaptured) h
  refine ⟨(m.assign p (markStopped e₀.now)).withStore st,?_,?_,hkeep⟩
  · have hlook : advance e₀ m (.stopLookup id) = (m.assign p (markStopped e₀.now),.inl (.stopMark id p)) := by
      simp [advance,goto,hp,hheap,hact]
    simp only [finish,hlook]
    simp only [advance,reply,hmod]
    have hw' : (m.assign p (markStopped e₀.now)).write e₁ ((m.assign p (markStopped e₀.now)).store.markStopped id
        ((markStopped e₀.now s).stoppedAt.getD 0) (markStopped e₀.now s).eventsCaptured
        (markStopped e₀.now s).bytesCaptured) = (some .unavailable,(m.assign p (markStopped e₀.now)).withStore st) := hw
    rw [hw']
  · show ((m.sessions id).bind fun q => (m.assign p (markStopped e₀.now)).heap[q]?) = _
    rw [hp,Option.bind_some,hmod]

theorem finish_stopped {m : Manager} {id : String} {s : Session} (hs : lookup m id = some s)
    (hst : s.status = .stopped) (e : Env) (es : List Env) :
    finish (e :: es) m (.stopLookup id) = some (m,.error .alreadyStopped) := by
  obtain ⟨p,hp,hheap⟩ := Option.bind_eq_some_iff.mp hs
  simp [finish,advance,reply,hp,hheap,hst]

/-- Exactly a session that is not in memory, and whose row the failing statement did not change, is
rolled back. -/
theorem stop_atomic_iff {m : Manager} {id : String} {es : List Env} (hlive : Live m id) (hfail : StoreFails m id es) :
    Atomic m id es ↔ lookup m id = none ∧ ¬ Committed es := by
  match es,hfail with
  | e₀ :: e₁ :: es,hfail =>
    cases hs : lookup m id with
    | some s =>
      have he₁ : e₁.fault ≠ none := hfail.resolve_right (by simp [hs])
      obtain ⟨m₁,hrun,hlook,-⟩ := stop_in_memory hs (hlive.entry s hs) e₀ e₁ es he₁
      constructor
      · rintro ⟨m',hrun',hback⟩
        rw [hrun] at hrun'
        cases hrun'
        have heq := hback.entry
        rw [hlook,hs,Option.some.injEq] at heq
        have hact := hlive.entry s hs
        rw [← heq] at hact
        cases hact
      · intro h
        cases h.1
    | none =>
      obtain ⟨row,hrow,hst⟩ := hlive.find
      by_cases he₁ : e₁.fault = none
      · obtain ⟨e₂,hmem,he₂⟩ := (hfail.resolve_left (by simp [he₁])).2
        obtain ⟨rest,rfl⟩ : ∃ rest, es = e₂ :: rest := by
          cases es with
          | nil => cases hmem
          | cons e rest => exact ⟨rest,by simpa using hmem⟩
        obtain ⟨st,hmark,hfind⟩ := hlive.markStopped hrow e₂.now row.eventsCaptured row.bytesCaptured
        obtain ⟨st',hw,hkeep,hcommit⟩ := write_fault m e₂ (m.store.markStopped id e₂.now row.eventsCaptured
          row.bytesCaptured) he₂
        have hrun : finish (e₀ :: e₁ :: e₂ :: rest) m (.stopLookup id) =
            some (m.withStore st',.error (.store .unavailable)) := by
          simp only [finish,advance_absent hs,hlive.fetch hrow hst he₁]
          simp only [advance,reply,hw]
        constructor
        · rintro ⟨m',hrun',hback⟩
          refine ⟨rfl,fun hcom => ?_⟩
          rw [hrun] at hrun'
          cases hrun'
          have hsame : st'.find id = m.store.find id := hback.row
          rw [hcommit hcom.2 st hmark,hfind,hrow,Option.some.injEq] at hsame
          rw [← hsame] at hst
          cases hst
        · rintro ⟨-,hcom⟩
          have hfalse : e₂.fault = some false := by
            cases hf : e₂.fault with
            | none => exact absurd hf he₂
            | some b =>
              cases b with
              | false => rfl
              | true => exact absurd ⟨he₁,hf⟩ hcom
          refine ⟨m,?_,rfl,rfl,hlive.retry hs⟩
          rw [hrun,hkeep hfalse]
          rfl
      · have hrun : finish (e₀ :: e₁ :: es) m (.stopLookup id) = some (m,.error (.store .unavailable)) := by
          simp only [finish,advance_absent hs]
          have hsome : e₁.fault.isSome = true := Option.isSome_iff_ne_none.mpr he₁
          simp [advance,reply,Manager.fetch,hsome]
        constructor
        · intro _
          refine ⟨rfl,fun hcom => ?_⟩
          cases es with
          | nil => exact hcom
          | cons e₂ rest => exact he₁ hcom.1
        · intro _
          exact ⟨m,hrun,rfl,rfl,hlive.retry hs⟩

def started : Manager :=
  ((finish (List.replicate 5 {}) (.new .postgres) (entry (.start ⟨"capture",[],"sess_1"⟩))).map (·.1)).getD (.new .postgres)

theorem live_started : Live started "sess_1" := by
  refine ⟨by decide +kernel,by decide +kernel,?_⟩
  decide +kernel

/-- The store is down for one call: the session stays stopped in memory and active in the store, and a
`Stop` with a working store is refused. -/
theorem stop_in_memory_not_atomic :
    Live started "sess_1" ∧ StoreFails started "sess_1" [{},{ fault := some false }] ∧
    ¬ Atomic started "sess_1" [{},{ fault := some false }] ∧
    ∃ m', finish [{},{ fault := some false }] started (.stopLookup "sess_1") =
        some (m',.error (.store .unavailable)) ∧ rowStatus m' "sess_1" = some .active ∧
      ∀ e es, finish (e :: es) m' (.stopLookup "sess_1") = some (m',.error .alreadyStopped) := by
  obtain ⟨s,hs⟩ : ∃ s, lookup started "sess_1" = some s := by
    rw [← Option.isSome_iff_exists]
    decide +kernel
  have hact := live_started.entry s hs
  obtain ⟨m',hrun,hlook,hstore⟩ := stop_in_memory hs hact {} { fault := some false } [] (by simp)
  refine ⟨live_started,by decide,?_,m',hrun,?_,?_⟩
  · rintro ⟨m'',hrun',hback⟩
    rw [hrun] at hrun'
    cases hrun'
    have heq := hback.entry
    rw [hlook,hs,Option.some.injEq] at heq
    rw [← heq] at hact
    cases hact
  · rw [rowStatus,hstore rfl]
    exact live_started.row
  · intro e es
    exact finish_stopped hlook rfl e es

/-- An engine that starts over the sessions of a store. -/
def boot (st : Store) : Manager := ⟨st,[],fun _ => none⟩

theorem stop_atomic_iff_reopened :
    Live (boot started.store) "sess_1" ∧ StoreFails (boot started.store) "sess_1" [{},{},{ fault := some false }] ∧
    Atomic (boot started.store) "sess_1" [{},{},{ fault := some false }] := by
  have hlive : Live (boot started.store) "sess_1" := ⟨live_started.backend,live_started.row,by simp [lookup,boot]⟩
  have hfail : StoreFails (boot started.store) "sess_1" [{},{},{ fault := some false }] := by decide
  exact ⟨hlive,hfail,(stop_atomic_iff hlive hfail).mpr ⟨rfl,by decide⟩⟩

end SequentialCalls
end Clearvoiance
