import Clearvoiance.Transition
import Clearvoiance.SessionStore

/-! The engine's session manager.
Sessions live behind pointers in an in-memory map and are mirrored to the metadata
store.  Every critical section, every addition to a counter and every store call is one
atomic step; between two steps of a call any other call may run.  A call that returns a session is observed
with the fields the session has at that moment. -/
namespace Clearvoiance
namespace SessionManager

open SessionStore Transition

/-- The counters are `int64`: a session would have to capture 2^63 bytes for one to wrap. -/
structure Session where
  id : String
  name : String
  labels : Labels
  startedAt : ℕ
  stoppedAt : Option ℕ
  status : Status
  eventsCaptured : ℤ
  bytesCaptured : ℤ
  deriving DecidableEq

structure StartRequest where
  name : String
  labels : Labels
  preferredID : String
  deriving DecidableEq

inductive Err
  | notFound | alreadyStopped | store (e : StoreError)
  deriving DecidableEq

/-- Pointers are positions of the heap; the map holds a pointer for each known id. -/
structure Manager where
  store : Store
  heap : List Session
  sessions : String → Option ℕ

def Manager.new (b : Backend) : Manager := ⟨.empty b,[],fun _ => none⟩

/-- Allocate a session and let the map point to it. -/
def Manager.install (m : Manager) (s : Session) : Manager :=
  { m with heap := m.heap ++ [s], sessions := Function.update m.sessions s.id (some m.heap.length) }

def Manager.assign (m : Manager) (p : ℕ) (f : Session → Session) : Manager :=
  { m with heap := m.heap.modify p f }

def Manager.withStore (m : Manager) (s : Store) : Manager := { m with store := s }

def newID (buf : Hex.Bytes) : String := "sess_" ++ String.ofList (Hex.encodeToString buf)

structure Env where
  now : ℕ := 0
  buf : Hex.Bytes := []
  fault : Fault := none
  deriving DecidableEq

inductive Call
  | start (req : StartRequest)
  | get (id : String)
  | stop (id : String)
  | recordEvents (id : String) (count bytes : ℤ)
  | touchHeartbeat (id : String)
  | sweepIdle (idle : ℕ)
  deriving DecidableEq

inductive Result
  | session (s : Session)
  | closed (ids : List String)
  | recorded (ok : Bool)
  | touched
  | error (e : Err)
  deriving DecidableEq

structure Reply where
  call : Call
  result : Result
  deriving DecidableEq

inductive Pc
  | startLookup (req : StartRequest)
  | startCheck (req : StartRequest) (existing : Option ℕ)
  | startFetch (req : StartRequest)
  | startHydrate (req : StartRequest) (row : SessionRow)
  | startCreate (req : StartRequest)
  | startInstall (req : StartRequest) (s : Session)
  | getLookup (id : String)
  | getFetch (id : String)
  | getInstall (id : String) (row : SessionRow)
  | stopLookup (id : String)
  | stopMark (id : String) (p : ℕ)
  | stopFetch (id : String)
  | stopMarkRow (id : String) (row : SessionRow)
  | recordLookup (id : String) (count bytes : ℤ)
  | recordAdd (id : String) (p : ℕ) (count bytes : ℤ)
  | recordAddBytes (id : String) (p : ℕ) (count bytes : ℤ)
  | heartbeat (id : String)
  | sweepStore (idle : ℕ)
  | sweepMark (idle : ℕ) (ids : List String)
  deriving DecidableEq

def entry : Call → Pc
  | .start req => .startLookup req
  | .get id => .getLookup id
  | .stop id => .stopLookup id
  | .recordEvents id count bytes => .recordLookup id count bytes
  | .touchHeartbeat id => .heartbeat id
  | .sweepIdle idle => .sweepStore idle

/-- `Start` copies the row, status included; counters are taken over when positive. -/
def hydrate (row : SessionRow) : Session :=
  ⟨row.id,row.name,row.labels,row.startedAt,none,row.status,
    max row.eventsCaptured 0,max row.bytesCaptured 0⟩

/-- `Get` rehydrates with fresh counters. -/
def rehydrate (row : SessionRow) : Session :=
  ⟨row.id,row.name,row.labels,row.startedAt,none,.active,0,0⟩

def freshSession (e : Env) (req : StartRequest) : Session :=
  ⟨if req.preferredID = "" then newID e.buf else req.preferredID,
    req.name,req.labels,e.now,none,.active,0,0⟩

def rowOf (e : Env) (s : Session) : SessionRow :=
  ⟨s.id,s.name,s.labels,s.status,s.startedAt,none,0,0,e.now⟩

def stoppedRow (now : ℕ) (row : SessionRow) : Session :=
  ⟨row.id,row.name,row.labels,row.startedAt,some now,.stopped,0,0⟩

def markStopped (now : ℕ) (s : Session) : Session :=
  { s with status := .stopped, stoppedAt := some now }

/-- The sweeper keeps an earlier stop time. -/
def markSwept (now : ℕ) (s : Session) : Session :=
  { s with status := .stopped, stoppedAt := some (s.stoppedAt.getD now) }

def sweepMap (now : ℕ) (m : Manager) : List String → Manager
  | [] => m
  | id :: ids => match m.sessions id with
    | none => sweepMap now m ids
    | some p => sweepMap now (m.assign p (markSwept now)) ids

abbrev Next := Manager × (Pc ⊕ Reply)

def goto (m : Manager) (p : Pc) : Next := (m,.inl p)
def reply (m : Manager) (c : Call) (r : Result) : Next := (m,.inr ⟨c,r⟩)

def Manager.fetch (m : Manager) (e : Env) (id : String) : Except StoreError SessionRow :=
  if e.fault.isSome then .error .unavailable else m.store.get id

/-- A store write under a possible fault, with the store it leaves. -/
def Manager.write (m : Manager) (e : Env) (r : Except StoreError Store) :
    Option StoreError × Manager :=
  match m.store.write e.fault r with
  | (.ok _,s) => (none,m.withStore s)
  | (.error err,s) => (some err,m.withStore s)

/-- One atomic step of a call of the manager. -/
def advance (e : Env) (m : Manager) : Pc → Next
  | .startLookup req =>
    if req.preferredID = "" then goto m (.startCreate req)
    else goto m (.startCheck req (m.sessions req.preferredID))
  | .startCheck req existing =>
    match existing.bind (m.heap[·]?) with
    | some s => if s.status = .active then reply m (.start req) (.session s)
      else goto m (.startFetch req)
    | none => goto m (.startFetch req)
  | .startFetch req =>
    match m.fetch e req.preferredID with
    | .error .sessionNotFound => goto m (.startCreate req)
    | .error err => reply m (.start req) (.error (.store err))
    | .ok row => goto m (.startHydrate req row)
  | .startHydrate req row =>
    if row.status = .active then reply (m.install (hydrate row)) (.start req) (.session (hydrate row))
    else goto (m.install (hydrate row)) (.startCreate req)
  | .startCreate req =>
    match m.write e (m.store.create (rowOf e (freshSession e req))) with
    | (some err,m') => reply m' (.start req) (.error (.store err))
    | (none,m') => goto m' (.startInstall req (freshSession e req))
  | .startInstall req s => reply (m.install s) (.start req) (.session s)
  | .getLookup id =>
    match (m.sessions id).bind (m.heap[·]?) with
    | some s => reply m (.get id) (.session s)
    | none => goto m (.getFetch id)
  | .getFetch id =>
    match m.fetch e id with
    | .error .sessionNotFound => reply m (.get id) (.error .notFound)
    | .error err => reply m (.get id) (.error (.store err))
    | .ok row => if row.status = .active then goto m (.getInstall id row)
      else reply m (.get id) (.error .alreadyStopped)
  | .getInstall id row =>
    match (m.sessions id).bind (m.heap[·]?) with
    | some s => reply m (.get id) (.session s)
    | none => reply (m.install (rehydrate row)) (.get id) (.session (rehydrate row))
  | .stopLookup id =>
    match m.sessions id with
    | none => goto m (.stopFetch id)
    | some p => match m.heap[p]? with
      | none => goto m (.stopFetch id)
      | some s => if s.status = .stopped then reply m (.stop id) (.error .alreadyStopped)
        else goto (m.assign p (markStopped e.now)) (.stopMark id p)
  | .stopMark id p =>
    match m.heap[p]? with
    | none => reply m (.stop id) (.error .notFound)
    | some s =>
      match m.write e (m.store.markStopped id (s.stoppedAt.getD 0) s.eventsCaptured s.bytesCaptured) with
      | (some err,m') => reply m' (.stop id) (.error (.store err))
      | (none,m') => reply m' (.stop id) (.session s)
  | .stopFetch id =>
    match m.fetch e id with
    | .error .sessionNotFound => reply m (.stop id) (.error .notFound)
    | .error err => reply m (.stop id) (.error (.store err))
    | .ok row => if row.status = .active then goto m (.stopMarkRow id row)
      else reply m (.stop id) (.error .alreadyStopped)
  | .stopMarkRow id row =>
    match m.write e (m.store.markStopped id e.now row.eventsCaptured row.bytesCaptured) with
    | (some err,m') => reply m' (.stop id) (.error (.store err))
    | (none,m') => reply m' (.stop id) (.session (stoppedRow e.now row))
  | .recordLookup id count bytes =>
    match m.sessions id with
    | none => reply m (.recordEvents id count bytes) (.recorded false)
    | some p => goto m (.recordAdd id p count bytes)
  | .recordAdd id p count bytes =>
    goto (m.assign p fun s => { s with eventsCaptured := s.eventsCaptured+count })
      (.recordAddBytes id p count bytes)
  | .recordAddBytes id p count bytes =>
    reply (m.assign p fun s => { s with bytesCaptured := s.bytesCaptured+bytes })
      (.recordEvents id count bytes) (.recorded true)
  | .heartbeat id =>
    match m.write e (m.store.heartbeat id e.now) with
    | (some err,m') => reply m' (.touchHeartbeat id) (.error (.store err))
    | (none,m') => reply m' (.touchHeartbeat id) .touched
  | .sweepStore idle =>
    match e.fault with
    | none => goto (m.withStore (m.store.sweepIdle idle e.now).1)
        (.sweepMark idle (m.store.sweepIdle idle e.now).2)
    | some true => reply (m.withStore (m.store.sweepIdle idle e.now).1) (.sweepIdle idle)
        (.error (.store .unavailable))
    | some false => reply m (.sweepIdle idle) (.error (.store .unavailable))
  | .sweepMark idle ids => reply (sweepMap e.now m ids) (.sweepIdle idle) (.closed ids)

abbrev State := Pool Manager Pc Reply
abbrev Action := Act Call Env

def step : State → Action → Option State := Pool.step entry advance

def init (b : Backend) : State := ⟨.new b,[],[]⟩

theorem sweepMap_store (now : ℕ) (m : Manager) (ids : List String) :
    (sweepMap now m ids).store = m.store := by
  induction ids generalizing m with
  | nil => rfl
  | cons id ids ih =>
    simp only [sweepMap]
    split
    · exact ih m
    · exact ih _

theorem newID_ne (buf : Hex.Bytes) : newID buf ≠ "" := by
  intro h
  have hl := congrArg String.length h
  simp [newID] at hl

/-- A write either commits its statement or leaves the store alone; it reports success only
in the first case. -/
theorem write_cases {m m' : Manager} {e : Env} {o : Option StoreError}
    {r : Except StoreError Store} (hw : m.write e r = (o,m')) :
    (∃ s, r = .ok s ∧ m' = m.withStore s) ∨ (o ≠ none ∧ m' = m) := by
  unfold Manager.write Store.write at hw
  generalize e.fault = f at hw
  rcases f with _ | _ | _ <;> rcases r with err | s <;> cases hw
  · exact .inr ⟨by simp,rfl⟩
  · exact .inl ⟨s,rfl,rfl⟩
  · exact .inr ⟨by simp,rfl⟩
  · exact .inr ⟨by simp,rfl⟩
  · exact .inr ⟨by simp,rfl⟩
  · exact .inl ⟨s,rfl,rfl⟩

theorem fetch_ok {m : Manager} {e : Env} {id : String} {row : SessionRow}
    (h : m.fetch e id = .ok row) : m.store.backend = .postgres ∧ m.store.find id = some row := by
  simp only [Manager.fetch,Store.get] at h
  split at h
  · cases h
  · split at h
    · cases h
    · split at h <;> simp_all

/-- Everything a step can do to the store: one of the five writing statements commits, or
nothing does. -/
theorem advance_store {e : Env} {m m' : Manager} {p : Pc} {o : Pc ⊕ Reply}
    (h : advance e m p = (m',o)) : m'.store = m.store ∨
    (∃ req, p = .startCreate req ∧ m.store.create (rowOf e (freshSession e req)) = .ok m'.store) ∨
    (∃ id q now ev by', p = .stopMark id q ∧ m.store.markStopped id now ev by' = .ok m'.store) ∨
    (∃ id row ev by', p = .stopMarkRow id row ∧ m.store.markStopped id e.now ev by' = .ok m'.store) ∨
    (∃ id, p = .heartbeat id ∧ m.store.heartbeat id e.now = .ok m'.store) ∨
    (∃ idle, p = .sweepStore idle ∧ e.fault ≠ some false ∧
      m'.store = (m.store.sweepIdle idle e.now).1) := by
  have hwrite : ∀ {r o'}, m.write e r = (o',m') → m'.store = m.store ∨ r = .ok m'.store := by
    intro r o' hw
    rcases write_cases hw with ⟨s,rfl,rfl⟩ | ⟨-,rfl⟩
    · exact .inr rfl
    · exact .inl rfl
  cases p with
  | startLookup req =>
    simp only [advance,goto] at h
    split at h <;> cases h <;> exact .inl rfl
  | startCheck req existing =>
    simp only [advance,goto,reply] at h
    split at h
    · split at h <;> cases h <;> exact .inl rfl
    · cases h; exact .inl rfl
  | startFetch req =>
    simp only [advance,goto,reply] at h
    split at h <;> cases h <;> exact .inl rfl
  | startHydrate req row =>
    simp only [advance,goto,reply] at h
    split at h <;> cases h <;> exact .inl rfl
  | startCreate req =>
    simp only [advance,goto,reply] at h
    split at h <;> rename_i hw <;> cases h <;>
      exact (hwrite hw).imp id fun hc => .inl ⟨req,rfl,hc⟩
  | startInstall req s => cases h; exact .inl rfl
  | getLookup i =>
    simp only [advance,goto,reply] at h
    split at h <;> cases h <;> exact .inl rfl
  | getFetch i =>
    simp only [advance,goto,reply] at h
    split at h
    · cases h; exact .inl rfl
    · cases h; exact .inl rfl
    · split at h <;> cases h <;> exact .inl rfl
  | getInstall i row =>
    simp only [advance,reply] at h
    split at h <;> cases h <;> exact .inl rfl
  | stopLookup i =>
    simp only [advance,goto,reply] at h
    split at h
    · cases h; exact .inl rfl
    · split at h
      · cases h; exact .inl rfl
      · split at h <;> cases h <;> exact .inl rfl
  | stopMark i q =>
    simp only [advance,reply] at h
    split at h
    · cases h; exact .inl rfl
    · split at h <;> rename_i hw <;> cases h <;>
        exact (hwrite hw).imp id fun hc => .inr (.inl ⟨i,q,_,_,_,rfl,hc⟩)
  | stopFetch i =>
    simp only [advance,goto,reply] at h
    split at h
    · cases h; exact .inl rfl
    · cases h; exact .inl rfl
    · split at h <;> cases h <;> exact .inl rfl
  | stopMarkRow i row =>
    simp only [advance,reply] at h
    split at h <;> rename_i hw <;> cases h <;>
      exact (hwrite hw).imp id fun hc => .inr (.inr (.inl ⟨i,row,_,_,rfl,hc⟩))
  | recordLookup i count bytes =>
    simp only [advance,goto,reply] at h
    split at h <;> cases h <;> exact .inl rfl
  | recordAdd i q count bytes => cases h; exact .inl rfl
  | recordAddBytes i q count bytes => cases h; exact .inl rfl
  | heartbeat i =>
    simp only [advance,reply] at h
    split at h <;> rename_i hw <;> cases h <;>
      exact (hwrite hw).imp id fun hc => .inr (.inr (.inr (.inl ⟨i,rfl,hc⟩)))
  | sweepStore idle =>
    simp only [advance,goto,reply] at h
    split at h <;> rename_i hf <;> cases h
    · exact .inr (.inr (.inr (.inr (.inr ⟨idle,rfl,by simp [hf],rfl⟩))))
    · exact .inr (.inr (.inr (.inr (.inr ⟨idle,rfl,by simp [hf],rfl⟩))))
    · exact .inl rfl
  | sweepMark idle ids =>
    cases h
    exact .inl (sweepMap_store e.now m ids)

theorem advance_rows {e : Env} {m m' : Manager} {p : Pc} {o : Pc ⊕ Reply}
    (h : advance e m p = (m',o)) : m'.store.backend = m.store.backend ∧
    ∀ id, m.store.find id ≠ none → m'.store.find id ≠ none := by
  rcases advance_store h with hs | ⟨req,-,hs⟩ | ⟨i,q,now,ev,by',-,hs⟩ | ⟨i,row,ev,by',-,hs⟩ |
    ⟨i,-,hs⟩ | ⟨idle,-,-,hs⟩
  · rw [hs]
    exact ⟨rfl,fun _ h => h⟩
  · refine ⟨(find_create hs "").1,fun id hid => ?_⟩
    rw [(find_create hs id).2.1 hid]
    exact hid
  · refine ⟨(find_markStopped hs "").1,fun id hid => ?_⟩
    rw [(find_markStopped hs id).2]
    split <;> simp [hid]
  · refine ⟨(find_markStopped hs "").1,fun id hid => ?_⟩
    rw [(find_markStopped hs id).2]
    split <;> simp [hid]
  · refine ⟨(find_heartbeat hs "").1,fun id hid hn => hid ?_⟩
    have hst := (find_heartbeat hs id).2
    rw [hn] at hst
    simpa using hst.symm
  · rw [hs]
    refine ⟨(find_sweepIdle m.store idle e.now "").1,fun id hid => ?_⟩
    rw [(find_sweepIdle m.store idle e.now id).2]
    simp [hid]

end SessionManager
end Clearvoiance
