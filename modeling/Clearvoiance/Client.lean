import Clearvoiance.Transition
import Clearvoiance.Wal

/-! The SDK client on its event loop.  An async function is a task that stands at one of its
`await`s; the promise it waits for is settled by the network, by the file system or by a
stream event, and the task is resumed later.  Network and file-system events are taken only
when no task is ready to be resumed; calls of the application may come at any time.  A crash
loses the memory and keeps the disk.  The log records what happened; no function reads it. -/
namespace Clearvoiance
namespace Client

open Wal Transition

structure Config where
  remote : Bool
  walDisabled : Bool := false
  maxBytes : ℕ := 1024*1024*1024
  initialBackoffMs : ℕ := 500
  maxBackoffMs : ℕ := 30000
  deriving DecidableEq

inductive Cmd
  | start (sessionId : String)
  | stop (sessionId : String)
  | ping
  deriving DecidableEq

inductive Request
  | handshake
  | batch (m : EventBatch)
  deriving DecidableEq

/-- Acks carry their batch id; the events they were sent for are not on the wire. -/
inductive Response
  | ack
  | batchAck (m : EventBatch)
  deriving DecidableEq

/-- Half-closed streams still deliver; dead ones do not. -/
inductive Status
  | live | ended | dead
  deriving DecidableEq

/-- One `StreamEvents` call: the session of its handshake, what is on its way to the engine
and back, and whether the handshake was acked. -/
structure Stream where
  sessionId : String
  up : List Request
  down : List Response
  status : Status
  acked : Bool
  deriving DecidableEq

/-- A `WAL` object: its position on the heap and its directory, which never changes. -/
structure WAL where
  ref : ℕ
  sessionDir : String
  deriving DecidableEq

structure Usage where
  currentBytes : ℕ
  initialized : Bool
  deriving DecidableEq

inductive Incident
  | overwritten (m : EventBatch)
  | removed (m : EventBatch)
  | crossed (m : EventBatch) (events : Batch)
  deriving DecidableEq

structure Log where
  stored : List (String × EventBatch) := []
  acked : List Batch := []
  resolved : List Batch := []
  incidents : List Incident := []
  commands : List Cmd := []
  deriving DecidableEq

structure Memory where
  session : Option String := none
  stream : Option ℕ := none
  streamHealthy : Bool := false
  nextBatchId : ℕ := 1
  tracked : ℕ := 0
  wal : Option WAL := none
  usage : List Usage := []
  reconnectTimer : Option ℕ := none
  reconnectAttempt : ℕ := 0
  draining : Bool := false
  shuttingDown : Bool := false
  controlStream : Bool := false
  deriving DecidableEq

structure World where
  mem : Memory
  disk : Disk
  streams : List Stream
  log : Log
  deriving DecidableEq

/-- What `WAL.init` returns to. -/
inductive Init
  | opening (sessionId : String)
  | appending (m : EventBatch)
  deriving DecidableEq

/-- What `WAL.list` returns to. -/
inductive Listing
  | init (k : Init)
  | drain
  deriving DecidableEq

/-- What `closeSession` returns to. -/
inductive Closing
  | startCapture (sessionId : String)
  | stopCapture
  | stop
  deriving DecidableEq

/-- The `await` an async function stands at. -/
inductive Pc
  | startSession (preferredId : Option String)
  | mkdir (w : WAL) (k : Init)
  | readdir (w : WAL) (l : Listing)
  | readFile (w : WAL) (l : Listing) (out : List WALEntry) (n : FileName × ℕ) (rest : List (FileName × ℕ))
  | listed (w : WAL) (l : Listing) (out : List WALEntry)
  | inited (w : WAL) (k : Init)
  | openStream (sessionId : String) (k : ℕ)
  | sendBatch (m : EventBatch) (k : ℕ)
  | writeFile (w : WAL) (m : EventBatch)
  | rename (w : WAL) (m : EventBatch)
  | appended (m : EventBatch)
  | tryReconnect (k : ℕ)
  | drainSend (e : WALEntry) (rest : List WALEntry) (k : ℕ)
  | unlink (w : WAL) (e : WALEntry) (rest : List WALEntry)
  | removed (rest : List WALEntry)
  | flush (sessionId : String) (c : Closing)
  | stopSession (sessionId : String) (c : Closing)
  | closed (c : Closing)
  deriving DecidableEq

/-- What the awaited promise settled to; `gone` tells that the error says the session ended. -/
inductive Outcome
  | done
  | session (sessionId : String)
  | names (ns : List FileName)
  | content (m : EventBatch)
  | missing
  | failed (gone : Bool)
  deriving DecidableEq

structure Task where
  pc : Pc
  outcome : Option Outcome
  deriving DecidableEq

inductive Call
  | start | stop
  | sendBatch (events : Batch)
  | track | untrack
  deriving DecidableEq

/-- How the environment settles an RPC or a file-system call. -/
inductive Reply
  | ok
  | session (sessionId : String)
  | fail (gone : Bool)
  deriving DecidableEq

inductive Action
  | call (c : Call)
  | command (cmd : Cmd)
  | settle (i : ℕ) (r : Reply)
  | resume (i : ℕ)
  | timer
  | engine (k : ℕ)
  | deliver (k : ℕ)
  | streamError (k : ℕ) (gone : Bool)
  | crash
  deriving DecidableEq

structure State where
  world : World
  tasks : List Task
  deriving DecidableEq

/-- What a function leaves: the world, and the `await` it now stands at unless it returned. -/
abbrev Next := World × Option Task

def await (s : World) (pc : Pc) : Next := (s,some ⟨pc,none⟩)
def ready (s : World) (pc : Pc) : Next := (s,some ⟨pc,some .done⟩)
def finish (s : World) : Next := (s,none)

def World.scheduleReconnect (cfg : Config) (s : World) : World :=
  if s.mem.reconnectTimer.isSome || s.mem.shuttingDown || s.mem.session.isNone then s
  else
    let delay := min (cfg.initialBackoffMs*2^s.mem.reconnectAttempt) cfg.maxBackoffMs
    { s with mem := { s.mem with reconnectTimer := some delay } }

def World.markStreamFailed (cfg : Config) (gone : Bool) (s : World) : World :=
  let s := { s with mem := { s.mem with streamHealthy := false, stream := none } }
  if s.mem.shuttingDown then s
  else if cfg.remote && gone then { s with mem := { s.mem with session := none, reconnectTimer := none } }
  else s.scheduleReconnect cfg

/-- `openStream` up to its `await`: a new stream with the handshake on its way. -/
def World.openStream (s : World) (sessionId : String) (pc : ℕ → Pc) : Next :=
  let k := s.streams.length
  await { s with
    streams := s.streams ++ [⟨sessionId,[.handshake],[],.live,false⟩]
    mem := { s.mem with stream := some k } } (pc k)

def Stream.write (r : Request) (st : Stream) : Stream :=
  if st.status = .live then { st with up := st.up ++ [r] } else st

def World.sendOverStream (s : World) (k : ℕ) (m : EventBatch) : World :=
  { s with streams := s.streams.modify k (.write (.batch m)) }

def World.usageOf (s : World) (w : WAL) : Usage := s.mem.usage[w.ref]?.getD ⟨0,false⟩

def World.setUsage (s : World) (w : WAL) (f : Usage → Usage) : World :=
  { s with mem := { s.mem with usage := s.mem.usage.modify w.ref f } }

def World.initWal (s : World) (w : WAL) (k : Init) : Next :=
  if (s.usageOf w).initialized then ready s (.inited w k) else await s (.mkdir w k)

/-- Without a WAL the promise rejects. -/
def World.persistToWAL (s : World) (m : EventBatch) : Next :=
  match s.mem.wal with
  | none => finish s
  | some w => s.initWal w (.appending m)

def World.endDrain (s : World) : World := { s with mem := { s.mem with draining := false } }

/-- One turn of the outer loop of `drainWAL`. -/
def World.drainList (s : World) : Next :=
  match s.mem.streamHealthy,s.mem.stream,s.mem.wal with
  | true,some _,some w => await s (.readdir w .drain)
  | _,_,_ => finish s.endDrain

/-- The inner loop of `drainWAL`. -/
def World.drainEach (s : World) : List WALEntry → Next
  | [] => s.drainList
  | e :: rest =>
    match s.mem.streamHealthy,s.mem.stream with
    | true,some k => await (s.sendOverStream k e.message) (.drainSend e rest k)
    | _,_ => finish s.endDrain

def World.drainWAL (s : World) : Next :=
  if s.mem.wal.isNone || s.mem.draining then finish s
  else { s with mem := { s.mem with draining := true } }.drainList

/-- `list` up to its next `await`. -/
def readNext (s : World) (w : WAL) (l : Listing) (out : List WALEntry) : List (FileName × ℕ) → Next
  | [] => ready s (.listed w l out)
  | n :: rest => await s (.readFile w l out n rest)

/-- A rejected `list` ends the drain; it rejects the session start or the append. -/
def World.listFailed (s : World) : Listing → Next
  | .drain => finish s.endDrain
  | .init _ => finish s

def World.endStream (s : World) : World :=
  let streams := match s.mem.stream with
    | some k => s.streams.modify k fun st => if st.status = .live then { st with status := .ended } else st
    | none => s.streams
  { s with streams := streams, mem := { s.mem with stream := none, streamHealthy := false } }

def Pc.isSend : Pc → Bool
  | .sendBatch _ _ => true
  | _ => false

/-- `closeSession` of an open session, up to its first `await`. -/
def World.closeSession (s : World) (inflight : Bool) (sessionId : String) (c : Closing) : Next :=
  if inflight then await s (.flush sessionId c) else await s.endStream (.stopSession sessionId c)

def World.resolve (s : World) (m : EventBatch) : World :=
  { s with log := { s.log with resolved := m.events :: s.log.resolved } }

/-- Run a task from its settled `await` to the next one. -/
def resume (cfg : Config) (s : World) : Pc → Outcome → Next
  | .startSession _,.session sid =>
    if cfg.walDisabled then s.openStream sid (.openStream sid)
    else
      let w : WAL := ⟨s.mem.usage.length,sid⟩
      let mem := { s.mem with wal := some w, usage := s.mem.usage ++ [⟨0,false⟩] }
      { s with mem := mem }.initWal w (.opening sid)
  | .mkdir w k,.done => await s (.readdir w (.init k))
  | .readdir w l,.names ns => readNext s w l [] (selected ns)
  | .readdir _ l,_ => s.listFailed l
  | .readFile w l out n rest,.content m => readNext s w l (out ++ [WALEntry.of w.sessionDir n m]) rest
  | .readFile _ l _ _ _,_ => s.listFailed l
  | .listed _ .drain out,_ => if out = [] then finish s.endDrain else s.drainEach out
  | .listed w (.init k) out,_ =>
    ready (s.setUsage w fun _ => ⟨(out.map (·.sizeBytes)).sum,true⟩) (.inited w k)
  | .inited _ (.opening sid),_ => s.openStream sid (.openStream sid)
  | .inited w (.appending m),_ =>
    if cfg.maxBytes < (s.usageOf w).currentBytes+m.encodedLength then finish s else await s (.writeFile w m)
  | .openStream sid _,.done =>
    finish { s with mem := { s.mem with session := some sid, streamHealthy := true } }
  | .sendBatch m _,.done => finish (s.resolve m)
  | .sendBatch m _,.failed gone => (s.markStreamFailed cfg gone).persistToWAL m
  | .writeFile w m,.done => await s (.rename w m)
  | .rename w m,.done =>
    ready (s.setUsage w fun u => { u with currentBytes := u.currentBytes+m.encodedLength }) (.appended m)
  | .appended m,_ =>
    let s := if !s.mem.streamHealthy && !s.mem.shuttingDown then s.scheduleReconnect cfg else s
    finish (s.resolve m)
  | .tryReconnect _,.done =>
    { s with mem := { s.mem with streamHealthy := true, reconnectAttempt := 0 } }.drainWAL
  | .tryReconnect _,.failed gone =>
    if cfg.remote && gone then
      finish { s with mem := { s.mem with session := none, reconnectTimer := none } }
    else finish (s.scheduleReconnect cfg)
  | .drainSend e rest _,.done =>
    match s.mem.wal with
    | some w => await s (.unlink w e rest)
    | none => finish (s.markStreamFailed cfg false).endDrain
  | .drainSend _ _ _,.failed gone => finish (s.markStreamFailed cfg gone).endDrain
  | .unlink w e rest,.done =>
    ready (s.setUsage w fun u => { u with currentBytes := u.currentBytes-e.sizeBytes }) (.removed rest)
  | .unlink _ _ rest,.missing => ready s (.removed rest)
  | .unlink _ _ _,.failed gone => finish (s.markStreamFailed cfg gone).endDrain
  | .removed rest,_ => s.drainEach rest
  | .flush sid c,_ => await s.endStream (.stopSession sid c)
  | .stopSession _ c,o =>
    if o = .done || cfg.remote then ready { s with mem := { s.mem with session := none } } (.closed c)
    else finish s
  | .closed (.startCapture sid),_ => await s (.startSession (some sid))
  | .closed _,_ => finish s
  | _,_ => finish s

/-- The file at `p` is about to go: it must hold an acked batch. -/
def World.giveUp (s : World) (p : Path) (why : EventBatch → Incident) : World :=
  match s.disk.lookup p with
  | some m => if m.events ∈ s.log.acked then s
      else { s with log := { s.log with incidents := why m :: s.log.incidents } }
  | none => s

/-- The effect and the outcome of a pending RPC or file-system call. -/
def settle (s : World) (r : Reply) : Pc → Option (World × Outcome)
  | .startSession _ => match r with
    | .session sid => some (s,.session sid)
    | .fail gone => some (s,.failed gone)
    | .ok => none
  | .mkdir _ _ => match r with
    | .ok => some (s,.done)
    | _ => some (s,.failed false)
  | .readdir w _ => match r with
    | .ok => some (s,.names (readdir s.disk w.sessionDir))
    | _ => some (s,.failed false)
  | .readFile w _ _ n _ => match r,s.disk.lookup (w.sessionDir,n.1) with
    | .ok,some m => some (s,.content m)
    | _,_ => some (s,.failed false)
  | .writeFile w m => match r with
    | .ok => some ({ s with disk := s.disk.insert (w.sessionDir,tmpName m.batchId) m },.done)
    | _ => some (s,.failed false)
  | .rename w m => match r,s.disk.lookup (w.sessionDir,tmpName m.batchId) with
    | .ok,some c =>
      let s := s.giveUp (w.sessionDir,fileName m.batchId) .overwritten
      let disk := s.disk.erase (w.sessionDir,tmpName m.batchId)
      some ({ s with disk := disk.insert (w.sessionDir,fileName m.batchId) c },.done)
    | _,_ => some (s,.failed false)
  | .unlink _ e _ => match r,s.disk.lookup e.filePath with
    | .ok,some _ =>
      let s := s.giveUp e.filePath .removed
      some ({ s with disk := s.disk.erase e.filePath },.done)
    | .ok,none => some (s,.missing)
    | _,_ => some (s,.failed false)
  | .flush _ _ => some (s,.done)
  | .stopSession _ _ => match r with
    | .ok => some (s,.done)
    | _ => some (s,.failed false)
  | _ => none

/-- The batch ack a pending task waits for, and on which stream. -/
def Pc.waits : Pc → Option (ℕ × EventBatch)
  | .sendBatch m k => some (k,m)
  | .drainSend e _ k => some (k,e.message)
  | _ => none

/-- The stream whose handshake ack a pending task waits for. -/
def Pc.shakes : Pc → Option ℕ
  | .openStream _ k => some k
  | .tryReconnect k => some k
  | _ => none

/-- A response on stream `k` reaches its listeners. -/
def Task.hear (k : ℕ) (r : Response) (t : Task) : Task :=
  if t.outcome.isSome then t
  else match r,t.pc.waits with
    | .ack,_ => if t.pc.shakes = some k then ⟨t.pc,some .done⟩ else t
    | .batchAck m,some (k',m') => if k' = k ∧ m'.batchId = m.batchId then ⟨t.pc,some .done⟩ else t
    | .batchAck _,none => t

/-- An error on stream `k` reaches the listeners of the tasks that wait on it. -/
def Task.lose (k : ℕ) (gone : Bool) (t : Task) : Task :=
  if t.outcome.isSome then t
  else if t.pc.shakes = some k ∨ (t.pc.waits.map Prod.fst) = some k then ⟨t.pc,some (.failed gone)⟩
  else t

/-- The other batches an ack for `m` on stream `k` is taken for. -/
def crossings (k : ℕ) (m : EventBatch) (tasks : List Task) : List Incident :=
  tasks.filterMap fun t => match t.outcome,t.pc.waits with
    | none,some (k',m') =>
      if k' = k ∧ m'.batchId = m.batchId ∧ m'.events ≠ m.events then some (.crossed m m'.events) else none
    | _,_ => none

def World.hear (s : World) (k : ℕ) (tasks : List Task) : Response → World
  | .ack => { s with streams := s.streams.modify k fun st => { st with acked := true } }
  | .batchAck m => { s with log := { s.log with
      acked := m.events :: s.log.acked
      incidents := crossings k m tasks ++ s.log.incidents } }

/-- The engine takes the next message of a stream: a batch is stored, then acked. -/
def World.engine (s : World) (k : ℕ) : Option World :=
  match s.streams[k]? with
  | some st => match st.up with
    | [] => none
    | .handshake :: up => some { s with streams := s.streams.set k { st with up := up, down := st.down ++ [.ack] } }
    | .batch m :: up => some { s with
        streams := s.streams.set k { st with up := up, down := st.down ++ [.batchAck m] }
        log := { s.log with stored := (st.sessionId,m) :: s.log.stored } }
  | none => none

def State.inflight (t : State) : Bool := t.world.mem.tracked ≠ 0 || t.tasks.any fun x => x.pc.isSend

def State.idle (t : State) : Bool := t.tasks.all fun x => x.outcome.isNone

def State.spawn (t : State) (n : Next) : State := ⟨n.1,t.tasks ++ n.2.toList⟩

def sendBatch (s : World) (events : Batch) : Next :=
  if s.mem.session.isNone then finish s
  else
    let m : EventBatch := ⟨s.mem.nextBatchId,events⟩
    let s := { s with mem := { s.mem with nextBatchId := s.mem.nextBatchId+1 } }
    match s.mem.streamHealthy,s.mem.stream with
    | true,some k => await (s.sendOverStream k m) (.sendBatch m k)
    | _,_ => s.persistToWAL m

def State.call (cfg : Config) (t : State) : Call → State
  | .start =>
    let s := t.world
    if cfg.remote then
      if s.mem.shuttingDown then t
      else { t with world := { s with mem := { s.mem with controlStream := true } } }
    else if s.mem.session.isSome then t
    else t.spawn (await s (.startSession none))
  | .stop =>
    let s := { t.world with mem := { t.world.mem with
      shuttingDown := true, reconnectTimer := none, controlStream := false } }
    match s.mem.session with
    | some sid => t.spawn (s.closeSession t.inflight sid .stop)
    | none => t.spawn (finish s)
  | .sendBatch events => t.spawn (sendBatch t.world events)
  | .track => { t with world.mem.tracked := t.world.mem.tracked+1 }
  | .untrack => { t with world.mem.tracked := t.world.mem.tracked-1 }

def handleSubscribeResponse (s : World) (inflight : Bool) : Cmd → Next
  | .start sid =>
    match s.mem.session with
    | none => await s (.startSession (some sid))
    | some cur => if cur = sid then finish s else s.closeSession inflight cur (.startCapture sid)
  | .stop sid =>
    match s.mem.session with
    | none => finish s
    | some cur => if cur = sid then s.closeSession inflight cur .stopCapture else finish s
  | .ping => finish s

def State.command (t : State) (cmd : Cmd) : State :=
  let log := { t.world.log with commands := t.world.log.commands ++ [cmd] }
  t.spawn (handleSubscribeResponse { t.world with log := log } t.inflight cmd)

def State.tryReconnect (t : State) : State :=
  let s := { t.world with mem := { t.world.mem with reconnectTimer := none } }
  match s.mem.session with
  | none => t.spawn (finish s)
  | some sid =>
    if s.mem.shuttingDown then t.spawn (finish s)
    else
      let s := { s with mem := { s.mem with reconnectAttempt := s.mem.reconnectAttempt+1 } }
      t.spawn (s.openStream sid .tryReconnect)

def Stream.kill (st : Stream) : Stream := { st with status := .dead }

def State.crash (t : State) : State :=
  ⟨{ t.world with
      mem := {}
      streams := t.world.streams.map Stream.kill
      log := { t.world.log with commands := [] } },[]⟩

def step (cfg : Config) (t : State) : Action → Option State
  | .call c => some (t.call cfg c)
  | .command cmd => if t.world.mem.controlStream && t.idle then some (t.command cmd) else none
  | .settle i r =>
    match t.idle,t.tasks[i]? with
    | true,some ⟨pc,none⟩ => (settle t.world r pc).map fun n => ⟨n.1,t.tasks.set i ⟨pc,some n.2⟩⟩
    | _,_ => none
  | .resume i =>
    match t.tasks[i]? with
    | some ⟨pc,some o⟩ =>
      let n := resume cfg t.world pc o
      some ⟨n.1,t.tasks.take i ++ n.2.toList ++ t.tasks.drop (i+1)⟩
    | _ => none
  | .timer => if t.world.mem.reconnectTimer.isSome && t.idle then some t.tryReconnect else none
  | .engine k => (t.world.engine k).map fun s => { t with world := s }
  | .deliver k =>
    match t.idle,t.world.streams[k]? with
    | true,some ⟨sid,up,r :: down,status,acked⟩ =>
      if status = .dead then none
      else
        let s := { t.world with streams := t.world.streams.set k ⟨sid,up,down,status,acked⟩ }
        some ⟨s.hear k t.tasks r,t.tasks.map (.hear k r)⟩
    | _,_ => none
  | .streamError k gone =>
    match t.idle,t.world.streams[k]? with
    | true,some st =>
      if st.status = .dead then none
      else
        let s := { t.world with streams := t.world.streams.set k st.kill }
        some ⟨s.markStreamFailed cfg gone,t.tasks.map (.lose k gone)⟩
    | _,_ => none
  | .crash => some t.crash

def init : State := ⟨⟨{},∅,[],{}⟩,[]⟩

/-- A client that finds files of an earlier process. -/
def initOn (d : Disk) : State := ⟨⟨{},d,[],{}⟩,[]⟩

/-- Settle the first task and resume it. -/
def turn (r : Reply) : List Action := [.settle 0 r,.resume 0]

/-- A session start, answered with `sid`, in a directory of `files` batches and on stream `k`. -/
def attach (sid : String) (files k : ℕ) : List Action :=
  turn (.session sid) ++ turn .ok ++ turn .ok ++ (List.replicate files (turn .ok)).flatten ++
    ([.resume 0,.resume 0,.engine k,.deliver k,.resume 0] : List Action)

def openRun (files k : ℕ) : List Action := .call .start :: attach "S" files k

/-- The engine tells a remote client which session to start. -/
def commandRun (files k : ℕ) : List Action := .call .start :: .command (.start "S") :: attach "S" files k

def persistRun (b : Batch) : List Action :=
  ([.call (.sendBatch b),.resume 0] : List Action) ++ turn .ok ++ turn .ok ++ ([.resume 0] : List Action)

def localConfig : Config := { remote := false }

def remoteConfig : Config := { remote := true }

def Init.accepted : Init → Option EventBatch
  | .appending m => some m
  | .opening _ => none

def Listing.accepted : Listing → Option EventBatch
  | .init k => k.accepted
  | .drain => none

def Pc.accepted : Pc → Option EventBatch
  | .mkdir _ k | .inited _ k => k.accepted
  | .readdir _ l | .readFile _ l _ _ _ | .listed _ l _ => l.accepted
  | .sendBatch m _ | .writeFile _ m | .rename _ m => some m
  | _ => none

theorem hear_cases (k : ℕ) (r : Response) (t : Task) :
    t.hear k r = t ∨ t.outcome = none ∧ t.hear k r = ⟨t.pc,some .done⟩ ∧
      (t.pc.shakes = some k ∨ ∃ m m', r = .batchAck m ∧ t.pc.waits = some (k,m') ∧ m'.batchId = m.batchId) := by
  obtain ⟨pc,o⟩ := t
  cases o with
  | some o => exact .inl rfl
  | none =>
    cases r with
    | ack =>
      by_cases hk : pc.shakes = some k
      · exact .inr ⟨rfl,by simp [Task.hear,hk],.inl hk⟩
      · exact .inl (by simp [Task.hear,hk])
    | batchAck m =>
      cases hw : pc.waits with
      | none => exact .inl (by simp [Task.hear,hw])
      | some x =>
        obtain ⟨k',m'⟩ := x
        by_cases hk : k' = k ∧ m'.batchId = m.batchId
        · obtain ⟨rfl,hm⟩ := hk
          exact .inr ⟨rfl,by simp [Task.hear,hw,hm],.inr ⟨m,m',rfl,rfl,hm⟩⟩
        · exact .inl (by simp [Task.hear,hw,hk])

theorem lose_cases (k : ℕ) (gone : Bool) (t : Task) :
    t.lose k gone = t ∨ t.outcome = none ∧ t.lose k gone = ⟨t.pc,some (.failed gone)⟩ ∧
      (t.pc.shakes = some k ∨ ∃ m, t.pc.waits = some (k,m)) := by
  obtain ⟨pc,o⟩ := t
  cases o with
  | some o => exact .inl rfl
  | none =>
    by_cases hk : pc.shakes = some k ∨ (pc.waits.map Prod.fst) = some k
    · refine .inr ⟨rfl,by simp only [Task.lose,hk]; rfl,hk.imp id fun hk => ?_⟩
      obtain ⟨x,hx,rfl⟩ := Option.map_eq_some_iff.mp hk
      exact ⟨x.2,hx⟩
    · exact .inl (by simp only [Task.lose,hk]; rfl)

theorem hear_pc (k : ℕ) (r : Response) (t : Task) : (t.hear k r).pc = t.pc := by
  rcases hear_cases k r t with h | ⟨-,h,-⟩ <;> rw [h]

theorem lose_pc (k : ℕ) (gone : Bool) (t : Task) : (t.lose k gone).pc = t.pc := by
  rcases lose_cases k gone t with h | ⟨-,h,-⟩ <;> rw [h]

inductive Resumes (cfg : Config) (s : World) : Pc → Outcome → Next → Prop
  | returns (pc : Pc) (o : Outcome) : Resumes cfg s pc o (finish s)
  | openUnlogged (p : Option String) (sid : String) : cfg.walDisabled = true →
      Resumes cfg s (.startSession p) (.session sid) (s.openStream sid (.openStream sid))
  | openLog (p : Option String) (sid : String) : cfg.walDisabled = false →
      Resumes cfg s (.startSession p) (.session sid) (World.initWal { s with mem := { s.mem with
        wal := some ⟨s.mem.usage.length,sid⟩, usage := s.mem.usage ++ [⟨0,false⟩] } }
        ⟨s.mem.usage.length,sid⟩ (.opening sid))
  | made (w : WAL) (k : Init) : Resumes cfg s (.mkdir w k) .done (await s (.readdir w (.init k)))
  | named (w : WAL) (l : Listing) (ns : List FileName) :
      Resumes cfg s (.readdir w l) (.names ns) (readNext s w l [] (selected ns))
  | unnamed (w : WAL) (l : Listing) (o : Outcome) : (∀ ns, o ≠ .names ns) →
      Resumes cfg s (.readdir w l) o (s.listFailed l)
  | read (w : WAL) (l : Listing) (out : List WALEntry) (n : FileName × ℕ) (rest : List (FileName × ℕ)) (m : EventBatch) :
      Resumes cfg s (.readFile w l out n rest) (.content m)
        (readNext s w l (out ++ [WALEntry.of w.sessionDir n m]) rest)
  | unread (w : WAL) (l : Listing) (out : List WALEntry) (n : FileName × ℕ) (rest : List (FileName × ℕ)) (o : Outcome) :
      (∀ m, o ≠ .content m) → Resumes cfg s (.readFile w l out n rest) o (s.listFailed l)
  | drained (w : WAL) (o : Outcome) : Resumes cfg s (.listed w .drain []) o (finish s.endDrain)
  | drain (w : WAL) (out : List WALEntry) (o : Outcome) : out ≠ [] →
      Resumes cfg s (.listed w .drain out) o (s.drainEach out)
  | counted (w : WAL) (k : Init) (out : List WALEntry) (o : Outcome) : Resumes cfg s (.listed w (.init k) out) o
      (ready (s.setUsage w fun _ => ⟨(out.map (·.sizeBytes)).sum,true⟩) (.inited w k))
  | openLogged (w : WAL) (sid : String) (o : Outcome) :
      Resumes cfg s (.inited w (.opening sid)) o (s.openStream sid (.openStream sid))
  | append (w : WAL) (m : EventBatch) (o : Outcome) :
      Resumes cfg s (.inited w (.appending m)) o (await s (.writeFile w m))
  | shaken (sid : String) (k : ℕ) : Resumes cfg s (.openStream sid k) .done
      (finish { s with mem := { s.mem with session := some sid, streamHealthy := true } })
  | sent (m : EventBatch) (k : ℕ) : Resumes cfg s (.sendBatch m k) .done (finish (s.resolve m))
  | unsent (m : EventBatch) (k : ℕ) (gone : Bool) :
      Resumes cfg s (.sendBatch m k) (.failed gone) ((s.markStreamFailed cfg gone).persistToWAL m)
  | written (w : WAL) (m : EventBatch) : Resumes cfg s (.writeFile w m) .done (await s (.rename w m))
  | renamed (w : WAL) (m : EventBatch) : Resumes cfg s (.rename w m) .done
      (ready (s.setUsage w fun u => { u with currentBytes := u.currentBytes+m.encodedLength }) (.appended m))
  | appended (m : EventBatch) (o : Outcome) : Resumes cfg s (.appended m) o (finish (s.resolve m))
  | appendedOffline (m : EventBatch) (o : Outcome) :
      Resumes cfg s (.appended m) o (finish ((s.scheduleReconnect cfg).resolve m))
  | reconnected (k : ℕ) : Resumes cfg s (.tryReconnect k) .done
      (World.drainWAL { s with mem := { s.mem with streamHealthy := true, reconnectAttempt := 0 } })
  | sessionGone (k : ℕ) (gone : Bool) : Resumes cfg s (.tryReconnect k) (.failed gone)
      (finish { s with mem := { s.mem with session := none, reconnectTimer := none } })
  | unreachable (k : ℕ) (gone : Bool) :
      Resumes cfg s (.tryReconnect k) (.failed gone) (finish (s.scheduleReconnect cfg))
  | drainSent (e : WALEntry) (rest : List WALEntry) (k : ℕ) (w : WAL) :
      Resumes cfg s (.drainSend e rest k) .done (await s (.unlink w e rest))
  | drainLogless (e : WALEntry) (rest : List WALEntry) (k : ℕ) : s.mem.wal = none →
      Resumes cfg s (.drainSend e rest k) .done (finish (s.markStreamFailed cfg false).endDrain)
  | drainUnsent (e : WALEntry) (rest : List WALEntry) (k : ℕ) (gone : Bool) :
      Resumes cfg s (.drainSend e rest k) (.failed gone) (finish (s.markStreamFailed cfg gone).endDrain)
  | unlinked (w : WAL) (e : WALEntry) (rest : List WALEntry) : Resumes cfg s (.unlink w e rest) .done
      (ready (s.setUsage w fun u => { u with currentBytes := u.currentBytes-e.sizeBytes }) (.removed rest))
  | missing (w : WAL) (e : WALEntry) (rest : List WALEntry) :
      Resumes cfg s (.unlink w e rest) .missing (ready s (.removed rest))
  | stuck (w : WAL) (e : WALEntry) (rest : List WALEntry) (gone : Bool) :
      Resumes cfg s (.unlink w e rest) (.failed gone) (finish (s.markStreamFailed cfg gone).endDrain)
  | removed (rest : List WALEntry) (o : Outcome) : Resumes cfg s (.removed rest) o (s.drainEach rest)
  | flushed (sid : String) (c : Closing) (o : Outcome) :
      Resumes cfg s (.flush sid c) o (await s.endStream (.stopSession sid c))
  | stopped (sid : String) (c : Closing) (o : Outcome) : Resumes cfg s (.stopSession sid c) o
      (ready { s with mem := { s.mem with session := none } } (.closed c))
  | restart (sid : String) (o : Outcome) :
      Resumes cfg s (.closed (.startCapture sid)) o (await s (.startSession (some sid)))

theorem resumes (cfg : Config) (s : World) (pc : Pc) (o : Outcome) : Resumes cfg s pc o (resume cfg s pc o) := by
  cases pc with
  | startSession p =>
    cases o with
    | session sid =>
      cases hdis : cfg.walDisabled with
      | true => simpa only [resume,hdis,if_true] using Resumes.openUnlogged (s := s) p sid hdis
      | false =>
        simpa only [resume,hdis,Bool.false_eq_true,if_false] using Resumes.openLog (s := s) p sid hdis
    | _ => exact .returns _ _
  | mkdir w k =>
    cases o with
    | done => exact .made w k
    | _ => exact .returns _ _
  | readdir w l =>
    cases o with
    | names ns => exact .named w l ns
    | _ => exact .unnamed w l _ fun ns => by simp
  | readFile w l out n rest =>
    cases o with
    | content m => exact .read w l out n rest m
    | _ => exact .unread w l out n rest _ fun m => by simp
  | listed w l out =>
    cases l with
    | init k => exact .counted w k out o
    | drain =>
      cases out with
      | nil => exact .drained w o
      | cons e es => exact .drain w (e :: es) o (List.cons_ne_nil e es)
  | inited w k =>
    cases k with
    | opening sid => exact .openLogged w sid o
    | appending m =>
      simp only [resume]
      split_ifs
      · exact .returns _ _
      · exact .append w m o
  | openStream sid k =>
    cases o with
    | done => exact .shaken sid k
    | _ => exact .returns _ _
  | sendBatch m k =>
    cases o with
    | done => exact .sent m k
    | failed gone => exact .unsent m k gone
    | _ => exact .returns _ _
  | writeFile w m =>
    cases o with
    | done => exact .written w m
    | _ => exact .returns _ _
  | rename w m =>
    cases o with
    | done => exact .renamed w m
    | _ => exact .returns _ _
  | appended m =>
    simp only [resume]
    split_ifs
    · exact .appendedOffline m o
    · exact .appended m o
  | tryReconnect k =>
    cases o with
    | done => exact .reconnected k
    | failed gone =>
      simp only [resume]
      split_ifs
      · exact .sessionGone k gone
      · exact .unreachable k gone
    | _ => exact .returns _ _
  | drainSend e rest k =>
    cases o with
    | done =>
      simp only [resume]
      split
      · exact .drainSent e rest k _
      · exact .drainLogless e rest k ‹_›
    | failed gone => exact .drainUnsent e rest k gone
    | _ => exact .returns _ _
  | unlink w e rest =>
    cases o with
    | done => exact .unlinked w e rest
    | missing => exact .missing w e rest
    | failed gone => exact .stuck w e rest gone
    | _ => exact .returns _ _
  | removed rest => exact .removed rest o
  | flush sid c => exact .flushed sid c o
  | stopSession sid c =>
    simp only [resume]
    split_ifs
    · exact .stopped sid c o
    · exact .returns _ _
  | closed c =>
    cases c with
    | startCapture sid => exact .restart sid o
    | _ => exact .returns _ _

/-- The stream is the same, up to what is on its way and a later ack. -/
def Keeps (st st' : Stream) : Prop :=
  st'.sessionId = st.sessionId ∧ st'.status = st.status ∧ (st.acked = true → st'.acked = true)

theorem keeps_refl (l : List Stream) : List.Forall₂ Keeps l l :=
  List.forall₂_same.mpr fun _ _ => ⟨rfl,rfl,id⟩

theorem keeps_set {l : List Stream} {k : ℕ} {st st' : Stream} (hst : l[k]? = some st) (hk : Keeps st st') :
    List.Forall₂ Keeps l (l.set k st') := by
  rw [List.forall₂_iff_get]
  refine ⟨by simp,fun i h₁ h₂ => ?_⟩
  simp only [List.get_eq_getElem,List.getElem_set]
  split
  · rename_i hi
    subst hi
    obtain ⟨_,rfl⟩ := List.getElem?_eq_some_iff.mp hst
    exact hk
  · exact ⟨rfl,rfl,id⟩

theorem keeps_modify {l : List Stream} {k : ℕ} {f : Stream → Stream} (hf : ∀ st, Keeps st (f st)) :
    List.Forall₂ Keeps l (l.modify k f) := by
  rw [List.forall₂_iff_get]
  refine ⟨by simp,fun i h₁ h₂ => ?_⟩
  simp only [List.get_eq_getElem,List.getElem_modify]
  split
  · exact hf _
  · exact ⟨rfl,rfl,id⟩

theorem keeps_trans {l l' l'' : List Stream} (h : List.Forall₂ Keeps l l') (h' : List.Forall₂ Keeps l' l'') :
    List.Forall₂ Keeps l l'' := by
  rw [List.forall₂_iff_get] at h h' ⊢
  refine ⟨h.1.trans h'.1,fun i h₁ h₂ => ?_⟩
  have hi : i < l'.length := h.1 ▸ h₁
  have ha := h.2 i h₁ hi
  have hb := h'.2 i hi h₂
  exact ⟨hb.1.trans ha.1,hb.2.1.trans ha.2.1,fun hack => hb.2.2 (ha.2.2 hack)⟩

theorem keeps_getElem {l l' : List Stream} (h : List.Forall₂ Keeps l l') {k : ℕ} {st : Stream} (hk : l[k]? = some st) :
    ∃ st', l'[k]? = some st' ∧ Keeps st st' := by
  rw [List.forall₂_iff_get] at h
  obtain ⟨hlt,rfl⟩ := List.getElem?_eq_some_iff.mp hk
  have hlt' : k < l'.length := h.1 ▸ hlt
  exact ⟨l'[k],List.getElem?_eq_getElem hlt',h.2 k hlt hlt'⟩

theorem keeps_getElem_back {l l' : List Stream} (h : List.Forall₂ Keeps l l') {k : ℕ} {st' : Stream}
    (hk : l'[k]? = some st') : ∃ st, l[k]? = some st ∧ Keeps st st' := by
  rw [List.forall₂_iff_get] at h
  obtain ⟨hlt',rfl⟩ := List.getElem?_eq_some_iff.mp hk
  have hlt : k < l.length := h.1.symm ▸ hlt'
  exact ⟨l[k],List.getElem?_eq_getElem hlt,h.2 k hlt hlt'⟩

end Client
end Clearvoiance
