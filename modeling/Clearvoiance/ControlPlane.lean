import Clearvoiance.SessionManager

/-! The engine's control plane: SDK subscriptions, the monitor rows, and the REST handlers
that start and stop captures.  Handlers run their store calls, their session-manager
calls and their pushes one by one; the streams of one client are pushed to in the order of
a snapshot of the registry.  The ledger records what the handlers did to sessions; no handler
reads it. -/
namespace Clearvoiance
namespace ControlPlane

open SessionStore Transition

structure MonitorRow where
  displayName : String
  labels : Labels
  captureEnabled : Bool
  activeSessionID : Option String
  deriving DecidableEq

inductive Cmd
  | start (sessionId sessionName : String) (sessionLabels : Labels)
  | stop (sessionId : String) (flushTimeoutMs : ℕ)
  deriving DecidableEq

/-- One live `Subscribe` stream: its command buffer and what was sent to the client so far. -/
structure ControlStream where
  clientName : String
  commands : List Cmd
  delivered : List Cmd
  live : Bool
  deriving DecidableEq

def bufferSize : ℕ := 16

structure Ledger where
  created : List (String × String)
  elsewhere : List String
  deleted : List String

structure Engine where
  mgr : SessionManager.Manager
  monitors : String → Option MonitorRow
  streams : List ControlStream
  registry : String → List ℕ
  ledger : Ledger

def Engine.new (b : Backend) : Engine :=
  ⟨.new b,fun _ => none,[],fun _ => [],⟨[],[],[]⟩⟩

inductive MonitorError
  | monitorNotFound | foreignKeyViolation | unavailable
  deriving DecidableEq

structure SubscribeRequest where
  clientName : String
  displayName : String
  labels : Labels
  deriving DecidableEq

structure StartMonitorRequest where
  sessionName : String := ""
  sessionLabels : Labels := []
  deriving DecidableEq

/-- `INSERT … ON CONFLICT (name) DO UPDATE`, which keeps the capture state. -/
def Engine.upsert (g : Engine) (req : SubscribeRequest) : Engine :=
  match g.mgr.store.backend with
  | .noop => g
  | .postgres =>
    let row := match g.monitors req.clientName with
      | none => ⟨req.displayName,req.labels,false,none⟩
      | some r => { r with displayName := req.displayName, labels := req.labels }
    { g with monitors := Function.update g.monitors req.clientName (some row) }

def Engine.getMonitor (g : Engine) (fault : Fault) (name : String) : Except MonitorError MonitorRow :=
  if fault.isSome then .error .unavailable
  else match g.mgr.store.backend with
    | .noop => .error .monitorNotFound
    | .postgres => match g.monitors name with
      | none => .error .monitorNotFound
      | some r => .ok r

/-- `active_session_id` references `sessions(id)`. -/
def Engine.setCaptureState (g : Engine) (name : String) (enabled : Bool) (sessionID : Option String) :
    Except MonitorError Engine :=
  match g.mgr.store.backend with
  | .noop => .ok g
  | .postgres => match g.monitors name with
    | none => .error .monitorNotFound
    | some r =>
      if ∃ id ∈ sessionID, g.mgr.store.find id = none then .error .foreignKeyViolation
      else
        let row := { r with captureEnabled := enabled, activeSessionID := sessionID }
        .ok { g with monitors := Function.update g.monitors name (some row) }

/-- `SetCaptureState` under a possible fault, with the engine it leaves. -/
def Engine.writeState (g : Engine) (fault : Fault) (name : String) (enabled : Bool)
    (sessionID : Option String) : Option MonitorError × Engine :=
  match fault,g.setCaptureState name enabled sessionID with
  | none,.ok g' => (none,g')
  | none,.error err => (some err,g)
  | some true,.ok g' => (some .unavailable,g')
  | some _,_ => (some .unavailable,g)

/-- `ON DELETE SET NULL`. -/
def MonitorRow.unlink (id : String) (r : MonitorRow) : MonitorRow :=
  if r.activeSessionID = some id then { r with activeSessionID := none } else r

def Engine.deleteSession (g : Engine) (id : String) : Except StoreError Engine :=
  match g.mgr.store.delete id with
  | .error err => .error err
  | .ok s => .ok { g with
      mgr := g.mgr.withStore s
      monitors := fun n => (g.monitors n).map (MonitorRow.unlink id)
      ledger := { g.ledger with deleted := id :: g.ledger.deleted } }

/-- Register a new stream; its key is its position. -/
def Engine.addStream (g : Engine) (name : String) : Engine :=
  { g with
    streams := g.streams ++ [⟨name,[],[],true⟩]
    registry := Function.update g.registry name (g.registry name ++ [g.streams.length]) }

def Engine.removeStream (g : Engine) (name : String) (k : ℕ) : Engine :=
  { g with
    streams := g.streams.modify k fun cs => { cs with live := false }
    registry := Function.update g.registry name ((g.registry name).filter (· ≠ k)) }

def ControlStream.full (cs : ControlStream) : Bool := bufferSize ≤ cs.commands.length

/-- The non-blocking send on a stream's buffer: a full buffer drops the command. -/
def ControlStream.push (cmd : Cmd) (cs : ControlStream) : ControlStream :=
  if cs.full then cs else { cs with commands := cs.commands ++ [cmd] }

def ControlStream.deliver (cs : ControlStream) : ControlStream :=
  { cs with commands := cs.commands.tail, delivered := cs.delivered ++ cs.commands.head?.toList }

def Engine.push (g : Engine) (k : ℕ) (cmd : Cmd) : Engine :=
  { g with streams := g.streams.modify k (.push cmd) }

def Engine.reached (g : Engine) (k : ℕ) : ℕ :=
  match g.streams[k]? with
  | some cs => if cs.full then 0 else 1
  | none => 0

/-- What happens next to an open `Subscribe` stream. -/
inductive Event
  | deliver | tick | sendError | disconnect
  deriving DecidableEq

/-- `stamp` is the formatted clock of the default session name. -/
structure Env extends SessionManager.Env where
  stamp : String := ""
  event : Event := .deliver
  deriving DecidableEq

inductive Call
  | subscribe (req : SubscribeRequest)
  | startMonitor (name : String) (body : Except String StartMonitorRequest)
  | stopMonitor (name : String)
  | stopSession (id : String)
  | deleteSession (id : String)
  | sweepIdle (idle : ℕ)

inductive Cause
  | none
  | decode (text : String)
  | monitor (e : MonitorError)
  | session (e : SessionManager.Err)
  | store (e : StoreError)
  deriving DecidableEq

inductive Response
  | error (status : ℕ) (code message : String) (cause : Cause) (details : List (String × Option String))
  | started (monitorName sessionID sessionName : String) (pushedToOnline : ℕ) (note : String)
  | stopped (monitorName sessionID : String) (pushedToOnline : ℕ) (note : String)
  | sessionStopped (s : SessionManager.Session)
  | noContent
  | swept (r : SessionManager.Result)
  | invalidArgument (message : String)
  | closed
  deriving DecidableEq

inductive Pc
  | subscribe (req : SubscribeRequest)
  | addStream (req : SubscribeRequest)
  | resume (name : String) (k : ℕ)
  | resumePush (name : String) (k : ℕ) (row : MonitorRow) (id : String)
  | serve (name : String) (k : ℕ)
  | startGet (name : String) (body : Except String StartMonitorRequest)
  | startSession (name sessionName : String) (labels : Labels) (pc : SessionManager.Pc)
  | startSet (name sessionName : String) (labels : Labels) (id : String)
  | startSnapshot (name sessionName : String) (labels : Labels) (id : String)
  | startPush (name sessionName : String) (labels : Labels) (id : String) (rest : List ℕ) (reached : ℕ)
  | stopGet (name : String)
  | stopSet (name id : String)
  | stopSession (name id : String) (pc : SessionManager.Pc)
  | stopSnapshot (name id : String)
  | stopPush (name id : String) (rest : List ℕ) (reached : ℕ)
  | endSession (id : String) (pc : SessionManager.Pc)
  | deleteSession (id : String)
  | sweep (pc : SessionManager.Pc)

def entry : Call → Pc
  | .subscribe req => .subscribe req
  | .startMonitor name body => .startGet name body
  | .stopMonitor name => .stopGet name
  | .stopSession id => .endSession id (SessionManager.entry (.stop id))
  | .deleteSession id => .deleteSession id
  | .sweepIdle idle => .sweep (SessionManager.entry (.sweepIdle idle))

def isSpace (c : Char) : Bool :=
  let n := c.toNat
  (9 ≤ n && n ≤ 13) || n == 0x20 || n == 0x85 || n == 0xa0 || n == 0x1680 ||
    (0x2000 ≤ n && n ≤ 0x200a) || n == 0x2028 || n == 0x2029 || n == 0x202f || n == 0x205f || n == 0x3000

def trimSpace (s : String) : String :=
  String.ofList ((s.toList.dropWhile isSpace).reverse.dropWhile isSpace).reverse

def mergeLabels (base overlay : Labels) : Labels :=
  base.filter (fun kv => !overlay.any (·.1 == kv.1)) ++ overlay

abbrev Next := Engine × (Pc ⊕ Response)

def goto (g : Engine) (p : Pc) : Next := (g,.inl p)
def reply (g : Engine) (r : Response) : Next := (g,.inr r)

def internal (what : String) (cause : Cause) (details : List (String × Option String) := []) : Response :=
  .error 500 "INTERNAL" what cause details

/-- The row a create statement inserted, whatever it reported. -/
def insertedRow (e : SessionManager.Env) (m m' : SessionManager.Manager) : SessionManager.Pc → Option String
  | .startCreate req =>
    let id := (SessionManager.freshSession e req).id
    if m.store.find id = none ∧ m'.store.find id ≠ none then some id else none
  | _ => none

/-- The ids whose rows a stop or sweep statement closes. -/
def closedRows (e : SessionManager.Env) (m m' : SessionManager.Manager) : SessionManager.Pc → List String
  | .stopMark id _ | .stopMarkRow id _ =>
    if (m'.store.find id).any (·.status = .stopped) then [id] else []
  | .sweepStore idle => if e.fault = some false then [] else m.store.idleIds idle e.now
  | _ => []

/-- Let the session manager run one step of a start handler's call. -/
def Engine.afterStart (g : Engine) (e : SessionManager.Env) (name : String) (pc : SessionManager.Pc)
    (m' : SessionManager.Manager) : Engine :=
  let new := (insertedRow e g.mgr m' pc).toList.map fun id => (id,name)
  { g with mgr := m', ledger := { g.ledger with created := new ++ g.ledger.created } }

/-- Let the session manager run one step of a session stop or a sweep. -/
def Engine.afterClose (g : Engine) (e : SessionManager.Env) (pc : SessionManager.Pc)
    (m' : SessionManager.Manager) : Engine :=
  let new := closedRows e g.mgr m' pc
  { g with mgr := m', ledger := { g.ledger with elsewhere := new ++ g.ledger.elsewhere } }

def startNote (reached : ℕ) : String :=
  if reached = 0 then "monitor is offline — session will start when the SDK reconnects" else ""

def stopNote (reached : ℕ) : String :=
  if reached = 0 then "monitor is offline — event flow was already stopped" else ""

def advance (e : Env) (g : Engine) : Pc → Next
  | .subscribe req =>
    if req.clientName = "" then reply g (.invalidArgument "client_name is required")
    else goto (if e.fault = some false then g else g.upsert req) (.addStream req)
  | .addStream req => goto (g.addStream req.clientName) (.resume req.clientName g.streams.length)
  | .resume name k =>
    match g.getMonitor e.fault name with
    | .error _ => goto g (.serve name k)
    | .ok row => match row.captureEnabled,row.activeSessionID with
      | true,some id => if id = "" then goto g (.serve name k) else goto g (.resumePush name k row id)
      | _,_ => goto g (.serve name k)
  | .resumePush name k row id => goto (g.push k (.start id row.displayName row.labels)) (.serve name k)
  | .serve name k =>
    match e.event with
    | .deliver => goto { g with streams := g.streams.modify k .deliver } (.serve name k)
    | .tick => goto g (.serve name k)
    | .sendError => reply (g.removeStream name k) .closed
    | .disconnect => reply (g.removeStream name k) .closed
  | .startGet name body =>
    match body with
    | .error text => reply g (.error 400 "BAD_REQUEST" "could not decode request body: " (.decode text) [])
    | .ok req => match g.getMonitor e.fault name with
      | .error .monitorNotFound => reply g (.error 404 "MONITOR_NOT_FOUND"
          ("monitor " ++ name ++ " not registered — the SDK needs to subscribe first") .none [])
      | .error err => reply g (internal "get monitor: " (.monitor err))
      | .ok row =>
        if row.captureEnabled then reply g (.error 409 "CAPTURE_ALREADY_ACTIVE"
          ("monitor " ++ name ++ " already has an active capture — stop it first") .none
          [("active_session_id",row.activeSessionID)])
        else
          let sessionName := if trimSpace req.sessionName = "" then name ++ "-" ++ e.stamp
            else trimSpace req.sessionName
          let labels := mergeLabels row.labels req.sessionLabels
          goto g (.startSession name sessionName labels
            (SessionManager.entry (.start ⟨sessionName,labels,""⟩)))
  | .startSession name sessionName labels pc =>
    match SessionManager.advance e.toEnv g.mgr pc with
    | (m',.inl pc') => goto (g.afterStart e.toEnv name pc m') (.startSession name sessionName labels pc')
    | (m',.inr ⟨_,.session s⟩) => goto (g.afterStart e.toEnv name pc m')
        (.startSet name sessionName labels s.id)
    | (m',.inr ⟨_,.error err⟩) => reply (g.afterStart e.toEnv name pc m')
        (internal "create session: " (.session err))
    | (m',.inr _) => reply (g.afterStart e.toEnv name pc m') .noContent
  | .startSet name sessionName labels id =>
    match g.writeState e.fault name true (some id) with
    | (some err,g') => reply g' (internal "set capture state: " (.monitor err))
    | (none,g') => goto g' (.startSnapshot name sessionName labels id)
  | .startSnapshot name sessionName labels id =>
    goto g (.startPush name sessionName labels id (g.registry name) 0)
  | .startPush name sessionName labels id rest reached =>
    match rest with
    | [] => reply g (.started name id sessionName reached (startNote reached))
    | k :: rest => goto (g.push k (.start id sessionName labels))
        (.startPush name sessionName labels id rest (reached+g.reached k))
  | .stopGet name =>
    match g.getMonitor e.fault name with
    | .error .monitorNotFound => reply g (.error 404 "MONITOR_NOT_FOUND"
        ("monitor " ++ name ++ " not found") .none [])
    | .error err => reply g (internal "get monitor: " (.monitor err))
    | .ok row => match row.captureEnabled,row.activeSessionID with
      | true,some id => goto g (.stopSet name id)
      | _,_ => reply g (.error 409 "CAPTURE_NOT_ACTIVE"
          ("monitor " ++ name ++ " has no active capture to stop") .none [])
  | .stopSet name id =>
    match g.writeState e.fault name false none with
    | (some err,g') => reply g' (internal "set capture state: " (.monitor err))
    | (none,g') => goto g' (.stopSession name id (SessionManager.entry (.stop id)))
  | .stopSession name id pc =>
    match SessionManager.advance e.toEnv g.mgr pc with
    | (m',.inl pc') => goto { g with mgr := m' } (.stopSession name id pc')
    | (m',.inr ⟨_,.error (.store err)⟩) => reply { g with mgr := m' }
        (internal "stop session: " (.store err) [("session_id",some id)])
    | (m',.inr _) => goto { g with mgr := m' } (.stopSnapshot name id)
  | .stopSnapshot name id => goto g (.stopPush name id (g.registry name) 0)
  | .stopPush name id rest reached =>
    match rest with
    | [] => reply g (.stopped name id reached (stopNote reached))
    | k :: rest => goto (g.push k (.stop id 10000)) (.stopPush name id rest (reached+g.reached k))
  | .endSession id pc =>
    match SessionManager.advance e.toEnv g.mgr pc with
    | (m',.inl pc') => goto (g.afterClose e.toEnv pc m') (.endSession id pc')
    | (m',.inr ⟨_,.session s⟩) => reply (g.afterClose e.toEnv pc m') (.sessionStopped s)
    | (m',.inr ⟨_,.error .notFound⟩) => reply (g.afterClose e.toEnv pc m')
        (.error 404 "SESSION_NOT_FOUND" ("Session " ++ id ++ " not found") .none [])
    | (m',.inr ⟨_,.error .alreadyStopped⟩) => reply (g.afterClose e.toEnv pc m')
        (.error 409 "SESSION_ALREADY_STOPPED" ("Session " ++ id ++ " is already stopped") .none [])
    | (m',.inr ⟨_,.error err⟩) => reply (g.afterClose e.toEnv pc m') (internal "stop session: " (.session err))
    | (m',.inr _) => reply (g.afterClose e.toEnv pc m') .noContent
  | .deleteSession id =>
    match e.fault,g.deleteSession id with
    | none,.ok g' => reply g' .noContent
    | none,.error .sessionNotFound => reply g (.error 404 "SESSION_NOT_FOUND"
        ("Session " ++ id ++ " not found") .none [])
    | none,.error err => reply g (internal "delete session: " (.store err))
    | some true,.ok g' => reply g' (internal "delete session: " (.store .unavailable))
    | some _,_ => reply g (internal "delete session: " (.store .unavailable))
  | .sweep pc =>
    match SessionManager.advance e.toEnv g.mgr pc with
    | (m',.inl pc') => goto (g.afterClose e.toEnv pc m') (.sweep pc')
    | (m',.inr r) => reply (g.afterClose e.toEnv pc m') (.swept r.result)

abbrev State := Pool Engine Pc Response
abbrev Action := Act Call Env

def step : State → Action → Option State := Pool.step entry advance

def init (b : Backend) : State := ⟨.new b,[],[]⟩

/-- What a monitor row says the client should be capturing. -/
def Engine.session (g : Engine) (name : String) : Option String :=
  match g.monitors name with
  | some r => if r.captureEnabled then r.activeSessionID else none
  | none => none

def follow (current : Option String) : Cmd → Option String
  | .start id _ _ => some id
  | .stop id _ => if current = some id then none else current

def Quiet (t : State) : Prop := ∀ p ∈ t.threads, ∃ name k, p = .serve name k

end ControlPlane
end Clearvoiance
