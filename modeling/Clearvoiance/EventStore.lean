import Clearvoiance.CapturedEvents

/-! The engine's ClickHouse store.  A batch of captured events is written to the events table; the
database observations and runtime samples among them are written once more, to tables of their own.
Every table is filled by a batch that is prepared, appended to row by row and sent; the sending of one
batch is atomic, and any of these calls may fail. -/
namespace Clearvoiance
namespace EventStore

open CapturedEvents Hex

/-- A row of the events table; `rawPb` is the whole event as protobuf. -/
structure FlatRow where
  id : String
  sessionID : String
  timestampNs : ℤ
  offsetNs : ℤ
  adapter : String
  sdkVersion : String
  eventType : String
  userID : String := ""
  metadata : List (String × String)
  redactions : List String
  httpMethod : String := ""
  httpPath : String := ""
  httpRoute : String := ""
  httpStatus : ℕ := 0
  durationNs : ℤ := 0
  sourceIP : String := ""
  socketID : String := ""
  socketOp : String := ""
  socketEvent : String := ""
  cronJob : String := ""
  cronStatus : String := ""
  bodySize : ℤ := 0
  rawPb : Bytes
  deriving DecidableEq

/-- An `int64`; no two bodies of one event are so long that the sum of their sizes wraps. -/
def bodySize (b : Option Body) : ℤ :=
  match b with
  | none => 0
  | some b => b.sizeBytes

/-- The conversion `uint16(n)`. -/
def toUint16 (n : ℤ) : ℕ := (n % 2^16).toNat

/-- The columns that every payload fills in the same way. -/
def flatRow (sessionID eventType : String) (ev : Event) (raw : Bytes) : FlatRow :=
  { id := ev.id, sessionID, timestampNs := ev.timestampNs, offsetNs := ev.offsetNs, adapter := ev.adapter
    sdkVersion := ev.sdkVersion, eventType, metadata := ev.metadata, redactions := ev.redactionsApplied, rawPb := raw }

/-- The columns of an exchange; a missing one reads as zeros. -/
def exchanged (h : Option HttpEvent) (r : FlatRow) : FlatRow :=
  match h with
  | none => r
  | some h => { r with httpMethod := h.method, httpPath := h.path, httpStatus := toUint16 h.status
                       durationNs := h.durationNs, bodySize := bodySize h.requestBody+bodySize h.responseBody }

def flatten (sessionID : String) (ev : Event) (raw : Bytes) : FlatRow :=
  match ev.payload with
  | some (.http h) =>
    { exchanged (some h) (flatRow sessionID "http" ev raw) with
      httpRoute := h.routeTemplate, sourceIP := h.sourceIp, userID := h.userId }
  | some (.socket s) =>
    { flatRow sessionID "socket" ev raw with
      socketID := s.socketId, socketOp := s.op.toString, socketEvent := s.eventName
      durationNs := s.durationNs, userID := s.userId, bodySize := bodySize s.data }
  | some (.cron c) =>
    { flatRow sessionID "cron" ev raw with
      cronJob := c.jobName, cronStatus := c.status, durationNs := c.durationNs, bodySize := bodySize c.args }
  | some (.webhook h) =>
    { exchanged h (flatRow sessionID "webhook" ev raw) with
      sourceIP := (h.map (·.sourceIp)).getD "" }
  | some (.queue q) =>
    { flatRow sessionID "queue" ev raw with durationNs := q.durationNs, bodySize := bodySize q.payload }
  | some (.outbound h) => exchanged h (flatRow sessionID "outbound" ev raw)
  | some (.db d) => { flatRow sessionID "db" ev raw with durationNs := d.durationNs }
  | some (.runtime _) => flatRow sessionID "runtime" ev raw
  | none => flatRow sessionID "unknown" ev raw

/-- The text before the first colon and the text after it. -/
def cutColon : List Char → Option (List Char × List Char)
  | [] => none
  | c :: s => if c = ':' then some ([],s) else (cutColon s).map fun p => (c :: p.1,p.2)

/-- The replay and the event in `clv:<replayId>:<eventId>`. -/
def parseClvAppName (appName : String) : String × String :=
  match appName.toList with
  | 'c' :: 'l' :: 'v' :: ':' :: rest =>
    match cutColon rest with
    | some (replayID,eventID) => (String.ofList replayID,String.ofList eventID)
    | none => ("",String.ofList rest)
  | _ => ("","")

def observationTypeToString : DbObservationType → String
  | .slowQuery => "slow_query"
  | .lockWait => "lock_wait"
  | .deadlock => "deadlock"
  | .longTransaction => "long_transaction"
  | .unspecified => "slow_query"

structure DbRow where
  observationID : String
  replayID : String
  eventID : String
  observationType : String
  observedAtNs : ℤ
  durationNs : ℤ
  queryText : String
  queryFingerprint : String
  waitEventType : String
  waitEvent : String
  deriving DecidableEq

def dbRow (ev : Event) (d : DbObservationEvent) : DbRow :=
  ⟨ev.id,(parseClvAppName d.applicationName).1,d.causedByEventId,observationTypeToString d.observationType,
    ev.timestampNs,d.durationNs,d.queryText,d.queryFingerprint,"",""⟩

structure SampleRow where
  sampleID : String
  sessionID : String
  sampledAtNs : ℤ
  sample : RuntimeSampleEvent
  deriving DecidableEq

structure Tables where
  events : List FlatRow
  dbObservations : List DbRow
  runtimeSamples : List SampleRow
  deriving DecidableEq

/-- Which calls on one batch fail, and with what message. -/
structure Faults where
  prepare : Option String
  append : ℕ → Option String
  send : Option String

inductive InsertError
  | prepareBatch (err : String)
  | marshalEvent (id err : String)
  | appendEvent (err : String)
  | send (err : String)
  | prepareDbObservations (err : String)
  | appendDbObservation (err : String)
  | prepareRuntimeSamples (err : String)
  | appendRuntimeSample (err : String)
  deriving DecidableEq

def failing (wrap : String → InsertError) (err : Option String) : Except InsertError Unit :=
  match err with
  | none => .ok ()
  | some e => .error (wrap e)

/-- Rows appended in order; `f` makes the row of an element. -/
def appendAll {α ρ : Type} (f : α → Except InsertError ρ) (wrap : String → InsertError) (fault : ℕ → Option String) :
    ℕ → List α → Except InsertError (List ρ)
  | _, [] => .ok []
  | i, a :: as => do
    let row ← f a
    failing wrap (fault i)
    let rows ← appendAll f wrap fault (i+1) as
    return row :: rows

/-- What the store is connected to: the protobuf encoder and a server that fails as told. -/
structure Conn where
  marshal : Event → Except String Bytes
  events : Faults
  dbObservations : Faults
  runtimeSamples : Faults

def eventRow (c : Conn) (sessionID : String) (ev : Event) : Except InsertError FlatRow :=
  match c.marshal ev with
  | .error err => .error (.marshalEvent ev.id err)
  | .ok raw => .ok (flatten sessionID ev raw)

/-- The rows of the events batch, once it is sent. -/
def insertEvents (c : Conn) (sessionID : String) (evs : List Event) : Except InsertError (List FlatRow) := do
  failing .prepareBatch c.events.prepare
  let rows ← appendAll (eventRow c sessionID) .appendEvent c.events.append 0 evs
  failing .send c.events.send
  return rows

/-- The events that a derived table gets a row of, and these rows. -/
def dbRows (evs : List Event) : List DbRow := evs.filterMap fun ev => ev.getDb.map (dbRow ev)

def sampleRows (sessionID : String) (evs : List Event) : List SampleRow :=
  evs.filterMap fun ev => ev.getRuntime.map (SampleRow.mk ev.id sessionID ev.timestampNs)

/-- A derived table is written only when there is a row for it. -/
def insertDerived {ρ : Type} (f : Faults) (prepare append : String → InsertError) (rows : List ρ) :
    Except InsertError (List ρ) :=
  if rows.isEmpty then .ok []
  else do
    failing prepare f.prepare
    let rows ← appendAll Except.ok append f.append 0 rows
    failing .send f.send
    return rows

def insertDbObservations (c : Conn) (evs : List Event) : Except InsertError (List DbRow) :=
  insertDerived c.dbObservations .prepareDbObservations .appendDbObservation (dbRows evs)

def insertRuntimeSamples (c : Conn) (sessionID : String) (evs : List Event) : Except InsertError (List SampleRow) :=
  insertDerived c.runtimeSamples .prepareRuntimeSamples .appendRuntimeSample (sampleRows sessionID evs)

/-- What `InsertBatch` returns, and the tables it leaves. -/
def insertBatch (c : Conn) (sessionID : String) (evs : List Event) (t : Tables) : Except InsertError Unit × Tables :=
  if evs.isEmpty then (.ok (),t)
  else match insertEvents c sessionID evs with
    | .error e => (.error e,t)
    | .ok rows =>
      let t := { t with events := t.events ++ rows }
      match insertDbObservations c evs with
      | .error e => (.error e,t)
      | .ok rows =>
        let t := { t with dbObservations := t.dbObservations ++ rows }
        match insertRuntimeSamples c sessionID evs with
        | .error e => (.error e,t)
        | .ok rows => (.ok (),{ t with runtimeSamples := t.runtimeSamples ++ rows })

/-- What `StreamEvents` answers to a batch: an acknowledgement of all its events, or the end of the
stream without one. -/
inductive Answer
  | batchAck (batchId : String) (eventsPersisted : ℕ)
  | unavailable (err : InsertError)
  deriving DecidableEq

def handleBatch (c : Conn) (sessionID batchId : String) (evs : List Event) (t : Tables) : Answer × Tables :=
  match insertBatch c sessionID evs t with
  | (.error e,t) => (.unavailable e,t)
  | (.ok _,t) => (.batchAck batchId evs.length,t)

/-- The calls for a batch of `n` rows all succeed. -/
def Faults.Passes (f : Faults) (n : ℕ) : Prop := f.prepare = none ∧ (∀ i < n, f.append i = none) ∧ f.send = none

instance (f : Faults) (n : ℕ) : Decidable (f.Passes n) := inferInstanceAs (Decidable (_ ∧ _ ∧ _))

/-- The events can be encoded, and the calls for the events table succeed. -/
def EventsPass (c : Conn) (evs : List Event) : Prop :=
  (∀ ev ∈ evs, (c.marshal ev).isOk = true) ∧ c.events.Passes evs.length

instance (c : Conn) (evs : List Event) : Decidable (EventsPass c evs) := inferInstanceAs (Decidable (_ ∧ _))

/-- The calls for the derived tables that the batch has rows for succeed. -/
def DerivedPass (c : Conn) (sessionID : String) (evs : List Event) : Prop :=
  (dbRows evs ≠ [] → c.dbObservations.Passes (dbRows evs).length) ∧
    (sampleRows sessionID evs ≠ [] → c.runtimeSamples.Passes (sampleRows sessionID evs).length)

instance (c : Conn) (sessionID : String) (evs : List Event) : Decidable (DerivedPass c sessionID evs) :=
  inferInstanceAs (Decidable (_ ∧ _))

/-- An error leaves the events table as it was, and what goes wrong with the derived tables alone is no
error. -/
structure AllOrNothing (c : Conn) (sessionID : String) (evs : List Event) (t : Tables) : Prop where
  kept : ∀ e t', insertBatch c sessionID evs t = (.error e,t') → t'.events = t.events
  derived : EventsPass c evs → (insertBatch c sessionID evs t).1 = .ok ()

theorem failing_ok {wrap : String → InsertError} {err : Option String} : failing wrap err = .ok () ↔ err = none := by
  cases err <;> simp [failing]

theorem failing_cases (wrap : String → InsertError) (err : Option String) :
    (err = none ∧ failing wrap err = .ok ()) ∨ ∃ e, err = some e ∧ failing wrap err = .error (wrap e) := by
  cases err with
  | none => exact .inl ⟨rfl,rfl⟩
  | some e => exact .inr ⟨e,rfl,rfl⟩

section Append

variable {α ρ : Type} {f : α → Except InsertError ρ} {wrap : String → InsertError} {fault : ℕ → Option String}

theorem appendAll_ok {i : ℕ} {as : List α} {rows : List ρ} (h : appendAll f wrap fault i as = .ok rows) :
    rows.length = as.length ∧ (∀ a ∈ as, (f a).isOk = true) ∧ ∀ j < as.length, fault (i+j) = none := by
  induction as generalizing i rows with
  | nil =>
    cases h
    simp
  | cons a as ih =>
    cases hf : f a with
    | error e => simp [appendAll,hf,bind,Except.bind] at h
    | ok row =>
      rcases failing_cases wrap (fault i) with ⟨hi,hok⟩ | ⟨e,-,herr⟩
      · cases hrest : appendAll f wrap fault (i+1) as with
        | error e => simp [appendAll,hf,hok,hrest,bind,Except.bind] at h
        | ok rest =>
          simp only [appendAll,hf,hok,hrest,bind,Except.bind,pure,Except.pure,Except.ok.injEq] at h
          subst h
          obtain ⟨hlen,hall,hfault⟩ := ih hrest
          refine ⟨by simp [hlen],?_,?_⟩
          · intro b hb
            rcases List.mem_cons.mp hb with rfl | hb
            · rw [hf]
              rfl
            · exact hall b hb
          · intro j hj
            cases j with
            | zero => exact hi
            | succ j =>
              have := hfault j (by simpa using hj)
              rwa [Nat.add_right_comm] at this
      · simp [appendAll,hf,herr,bind,Except.bind] at h

variable (wrap) in
theorem appendAll_total {i : ℕ} {as : List α} (hf : ∀ a ∈ as, (f a).isOk = true)
    (hfault : ∀ j < as.length, fault (i+j) = none) : ∃ rows, appendAll f wrap fault i as = .ok rows := by
  induction as generalizing i with
  | nil => exact ⟨[],rfl⟩
  | cons a as ih =>
    have hzero := hfault 0 (by simp)
    have hnext : ∀ j < as.length, fault (i+1+j) = none := by
      intro j hj
      rw [Nat.add_right_comm]
      exact hfault (j+1) (by simpa using hj)
    obtain ⟨rest,hrest⟩ := ih (fun b hb => hf b (by simp [hb])) hnext
    cases ha : f a with
    | error e =>
      have := hf a (by simp)
      simp [ha,Except.isOk,Except.toBool] at this
    | ok row =>
      refine ⟨row :: rest,?_⟩
      rw [Nat.add_zero] at hzero
      simp [appendAll,ha,failing_ok.mpr hzero,hrest,bind,Except.bind,pure,Except.pure]

end Append

theorem eventRow_isOk (c : Conn) (sessionID : String) (ev : Event) :
    (eventRow c sessionID ev).isOk = (c.marshal ev).isOk := by
  unfold eventRow
  cases c.marshal ev <;> rfl

/-- A written events batch has a row for each event, and nothing on its way failed. -/
theorem insertEvents_ok {c : Conn} {sessionID : String} {evs : List Event} {rows : List FlatRow}
    (h : insertEvents c sessionID evs = .ok rows) : rows.length = evs.length ∧ EventsPass c evs := by
  unfold insertEvents at h
  rcases failing_cases .prepareBatch c.events.prepare with ⟨hprep,hok⟩ | ⟨e,-,herr⟩
  · cases hall : appendAll (eventRow c sessionID) .appendEvent c.events.append 0 evs with
    | error e => simp [hok,hall,bind,Except.bind] at h
    | ok rows' =>
      obtain ⟨hlen,hf,hfault⟩ := appendAll_ok hall
      rcases failing_cases .send c.events.send with ⟨hsend,hsent⟩ | ⟨e,-,herr⟩
      · simp only [hok,hall,hsent,bind,Except.bind,pure,Except.pure,Except.ok.injEq] at h
        subst h
        refine ⟨hlen,fun ev hev => ?_,hprep,fun i hi => ?_,hsend⟩
        · rw [← eventRow_isOk c sessionID]
          exact hf ev hev
        · simpa using hfault i hi
      · simp [hok,hall,herr,bind,Except.bind] at h
  · simp [herr,bind,Except.bind] at h

theorem insertEvents_total {c : Conn} {evs : List Event} (h : EventsPass c evs) (sessionID : String) :
    ∃ rows, insertEvents c sessionID evs = .ok rows := by
  obtain ⟨hm,hprep,happend,hsend⟩ := h
  have hf : ∀ ev ∈ evs, (eventRow c sessionID ev).isOk = true := by
    intro ev hev
    rw [eventRow_isOk]
    exact hm ev hev
  have hfault : ∀ j < evs.length, c.events.append (0+j) = none := by simpa using happend
  obtain ⟨rows,hrows⟩ := appendAll_total .appendEvent hf hfault
  refine ⟨rows,?_⟩
  simp [insertEvents,failing_ok.mpr hprep,failing_ok.mpr hsend,hrows,bind,Except.bind,pure,Except.pure]

theorem insertDerived_ok_iff {ρ : Type} (f : Faults) (prepare append : String → InsertError) (rows : List ρ) :
    (∃ rows', insertDerived f prepare append rows = .ok rows') ↔ (rows ≠ [] → f.Passes rows.length) := by
  unfold insertDerived
  by_cases hnil : rows = []
  · simp [hnil]
  rw [if_neg (by simpa using hnil)]
  constructor
  · rintro ⟨rows',h⟩ -
    rcases failing_cases prepare f.prepare with ⟨hprep,hok⟩ | ⟨e,-,herr⟩
    · cases hall : appendAll Except.ok append f.append 0 rows with
      | error e => simp [hok,hall,bind,Except.bind] at h
      | ok rows' =>
        obtain ⟨-,-,hfault⟩ := appendAll_ok hall
        rcases failing_cases .send f.send with ⟨hsend,-⟩ | ⟨e,-,herr⟩
        · exact ⟨hprep,fun i hi => by simpa using hfault i hi,hsend⟩
        · simp [hok,hall,herr,bind,Except.bind] at h
    · simp [herr,bind,Except.bind] at h
  · intro hpass
    obtain ⟨hprep,happend,hsend⟩ := hpass hnil
    have hfault : ∀ j < rows.length, f.append (0+j) = none := by simpa using happend
    obtain ⟨rows',hrows⟩ := appendAll_total (f := Except.ok) append (fun a _ => rfl) hfault
    exact ⟨rows',by simp [failing_ok.mpr hprep,failing_ok.mpr hsend,hrows,bind,Except.bind,pure,Except.pure]⟩

/-- Everything `InsertBatch` can do with a batch that is not empty. -/
inductive Inserts (c : Conn) (sessionID : String) (evs : List Event) (t : Tables) :
    Except InsertError Unit × Tables → Prop
  | refused (e : InsertError) : ¬ EventsPass c evs → Inserts c sessionID evs t (.error e,t)
  | halted (e : InsertError) (t' : Tables) : EventsPass c evs → ¬ DerivedPass c sessionID evs →
      t'.events ≠ t.events → Inserts c sessionID evs t (.error e,t')
  | done (t' : Tables) : EventsPass c evs → DerivedPass c sessionID evs → Inserts c sessionID evs t (.ok (),t')

theorem insertBatch_inserts (c : Conn) (sessionID : String) {evs : List Event} (h : evs ≠ []) (t : Tables) :
    Inserts c sessionID evs t (insertBatch c sessionID evs t) := by
  have hempty : evs.isEmpty = false := by simpa using h
  unfold insertBatch
  simp only [hempty,Bool.false_eq_true,if_false]
  have hdb := insertDerived_ok_iff c.dbObservations .prepareDbObservations .appendDbObservation (dbRows evs)
  have hsamples := insertDerived_ok_iff c.runtimeSamples .prepareRuntimeSamples .appendRuntimeSample
    (sampleRows sessionID evs)
  by_cases hpass : EventsPass c evs
  · obtain ⟨rows,hrows⟩ := insertEvents_total hpass sessionID
    have hgrown : t.events ++ rows ≠ t.events := by
      intro heq
      have hnil : rows = [] := by simpa using heq
      rw [hnil] at hrows
      exact h (List.length_eq_zero_iff.mp (insertEvents_ok hrows).1.symm)
    simp only [hrows]
    cases hd : insertDbObservations c evs with
    | error e =>
      refine .halted e _ hpass (fun hderived => ?_) hgrown
      obtain ⟨rows',hok⟩ := hdb.mpr hderived.1
      exact absurd (hd.symm.trans hok) (by simp)
    | ok dbs =>
      simp only
      cases hs : insertRuntimeSamples c sessionID evs with
      | error e =>
        refine .halted e _ hpass (fun hderived => ?_) hgrown
        obtain ⟨rows',hok⟩ := hsamples.mpr hderived.2
        exact absurd (hs.symm.trans hok) (by simp)
      | ok samples => exact .done _ hpass ⟨hdb.mp ⟨dbs,hd⟩,hsamples.mp ⟨samples,hs⟩⟩
  · cases hi : insertEvents c sessionID evs with
    | error e => exact .refused e hpass
    | ok rows => exact absurd (insertEvents_ok hi).2 hpass

/-- A batch is all or nothing exactly when no derived table fails after its events were written. -/
theorem all_or_nothing_iff (c : Conn) (sessionID : String) (evs : List Event) (t : Tables) :
    AllOrNothing c sessionID evs t ↔ (evs ≠ [] → EventsPass c evs → DerivedPass c sessionID evs) := by
  by_cases hnil : evs = []
  · have hempty : insertBatch c sessionID evs t = (.ok (),t) := by simp [insertBatch,hnil]
    constructor
    · intro _ hne
      exact absurd hnil hne
    · intro _
      refine ⟨fun e t' h => ?_,fun _ => by rw [hempty]⟩
      rw [hempty] at h
      cases h
  have hins := insertBatch_inserts c sessionID hnil t
  generalize hres : insertBatch c sessionID evs t = res at hins
  constructor
  · intro h _ hpass
    cases hins with
    | refused e hno => exact absurd hpass hno
    | halted e t' _ _ hgrown => exact absurd (h.kept e t' hres) hgrown
    | done t' _ hderived => exact hderived
  · intro h
    cases hins with
    | refused e hno =>
      refine ⟨fun e' t' heq => ?_,fun hpass => absurd hpass hno⟩
      rw [hres] at heq
      cases heq
      rfl
    | halted e t' hpass hno _ => exact absurd (h hnil hpass) hno
    | done t' _ _ =>
      refine ⟨fun e' t'' heq => ?_,fun _ => by rw [hres]⟩
      rw [hres] at heq
      cases heq

/-- An observation and a server whose observations table is out of order. -/
def observed : Event :=
  ⟨"ev_1",7,0,"http.express","@clearvoiance/node@0.1.0",[],[],
    some (.db ⟨"fp","SELECT 1",120000000,"clv:rep_1:ev_0","ev_0",.slowQuery⟩)⟩

def reachable : Faults := ⟨none,fun _ => none,none⟩

def halfDown : Conn := ⟨fun _ => .ok [10,4],reachable,⟨none,fun _ => none,some "table is read-only"⟩,reachable⟩

/-- The batch is refused with its event in the table, so the same batch sent again is there twice. -/
theorem observed_not_all_or_nothing :
    ¬ AllOrNothing halfDown "sess_1" [observed] ⟨[],[],[]⟩ ∧
    (handleBatch halfDown "sess_1" "b_1" [observed] ⟨[],[],[]⟩).1 = .unavailable (.send "table is read-only") ∧
    (handleBatch halfDown "sess_1" "b_1" [observed]
      (handleBatch halfDown "sess_1" "b_1" [observed] ⟨[],[],[]⟩).2).2.events.map (·.id) = ["ev_1","ev_1"] := by
  refine ⟨?_,by decide,by decide⟩
  intro h
  have herr : (insertBatch halfDown "sess_1" [observed] ⟨[],[],[]⟩).1 = .error (.send "table is read-only") := by decide
  have hpass : EventsPass halfDown [observed] := by decide
  rw [h.derived hpass] at herr
  cases herr

end EventStore
end Clearvoiance
