import Clearvoiance.AppNames
import Clearvoiance.Transition

/-! Wrapped database clients.  A call made in an event scope that is not the pinned one first sends a
`SET application_name` and submits its query when the answer is back; other calls submit theirs at once, or
after a few turns of the microtask queue.  So a later call can be received before an earlier one. -/
namespace Clearvoiance
namespace PgWrap

open JsonStrings Transition

/-- The scope and the arguments of a call.  `refused` is the error that the client's own `query` throws on
the arguments, if it does. -/
structure Args where
  eventId : Option JsString
  replayId : Option JsString
  query : JsString
  callback : Bool
  refused : Option JsString
  deriving DecidableEq

structure Call where
  id : ℕ
  args : Args
  deriving DecidableEq

structure Config where
  appNameFor : JsString → Option JsString → JsString
  emit : Bool

inductive Outcome
  | result (value : JsString)
  | error (err : JsString)
  deriving DecidableEq

def Outcome.isError : Outcome → Bool
  | .result _ => false
  | .error _ => true

/-- The event of the scope; the empty string is none. -/
def Args.scope (a : Args) : Option JsString := a.eventId.filter fun e => e ≠ []

def separator : UInt16 := unitOf '|'

def quote : UInt16 := unitOf '\''

def pinKey (a : Args) : Option JsString := a.scope.map fun e => a.replayId.getD [] ++ separator :: e

def appName (cfg : Config) (a : Args) : JsString :=
  match a.scope with
  | some e => cfg.appNameFor e a.replayId
  | none => []

/-- `.replace(/'/g, "''")` -/
def escaped (name : JsString) : JsString := name.flatMap fun u => if u = quote then [quote,quote] else [u]

def setStart : JsString := utf16 "SET application_name = '".toList

def setSQL (cfg : Config) (a : Args) : JsString :=
  let name := escaped (appName cfg a)
  if name = [] then [] else setStart ++ name ++ [quote]

/-- The text of a quoted literal, after its opening quote. -/
def literal : JsString → Option JsString
  | [] => none
  | [u] => if u = quote then some [] else none
  | u :: v :: rest =>
    if u = quote then if v = quote then (literal rest).map (quote :: ·) else none
    else (literal (v :: rest)).map (u :: ·)

/-- The name that the server reads from a statement; the empty statement has none. -/
def assigned (sql : JsString) : Option JsString :=
  if setStart.isPrefixOf sql then literal (sql.drop setStart.length) else none

/-- The session on the server.  `saved` has the names to come back to: one for each savepoint, the newest
first, and last the one from the start of the transaction. -/
structure Session where
  name : JsString
  saved : List JsString
  deriving DecidableEq

/-- What a statement of the application does to the session; savepoints are counted from the newest. -/
inductive Effect
  | begin
  | savepoint
  | release (depth : ℕ)
  | commit
  | rollback
  | rollbackTo (depth : ℕ)
  | assign (name : JsString)
  deriving DecidableEq

def Session.apply (t : Session) : Effect → Session
  | .begin => if t.saved = [] then { t with saved := [t.name] } else t
  | .savepoint => if t.saved = [] then t else { t with saved := t.name :: t.saved }
  | .release depth => if depth+1 < t.saved.length then { t with saved := t.saved.drop (depth+1) } else t
  | .commit => { t with saved := [] }
  | .rollback => ⟨t.saved.getLast?.getD t.name,[]⟩
  | .rollbackTo depth =>
    if depth+1 < t.saved.length then ⟨t.saved[depth]?.getD t.name,t.saved.drop depth⟩ else t
  | .assign name => { t with name := name }

def Session.afterSet (t : Session) (sql : JsString) : Session :=
  match assigned sql with
  | some name => { t with name := name }
  | none => t

/-- Where a call that did not submit its query at once goes on: the links of the promise chain in callback
mode, and `resume` for the function that awaits its `SET` in promise mode. -/
inductive Stage
  | start | settled | pinning | caught | send | resume
  deriving DecidableEq

structure Job where
  call : Call
  needsSet : Bool
  failed : Bool
  stage : Stage
  deriving DecidableEq

/-- A query that the underlying client has and has not answered: the `SET` of a call, or its own query, with
whether its `SET` failed. -/
inductive Item
  | set (call : Call)
  | user (call : Call) (failed : Bool)
  deriving DecidableEq

/-- A query of the application that the server ran, and the name that the session had. -/
structure Execution where
  call : Call
  failed : Bool
  name : JsString
  deriving DecidableEq

/-- The wrapper, the microtask queue, the underlying client and the session.  `issued` has the calls in the
order in which they are made, `received` the queries in the order in which the underlying client gets them,
`answered` what became of them there and `delivered` what the callers were told. -/
structure State where
  lastPinned : Option JsString
  jobs : List Job
  queue : List Item
  session : Session
  issued : List Call
  received : List Call
  executed : List Execution
  answered : List (Call × Outcome)
  delivered : List (Call × Outcome)
  deriving DecidableEq

def needsSet (s : State) (a : Args) : Bool := decide (pinKey a ≠ none ∧ pinKey a ≠ s.lastPinned)

/-- `orig(...args)` for the query of a call; `heard` tells whether its caller learns what is thrown. -/
def State.submit (s : State) (c : Call) (failed heard : Bool) : State :=
  match c.args.refused with
  | some err =>
    { s with
      received := s.received ++ [c]
      answered := s.answered ++ [(c,.error err)]
      delivered := s.delivered ++ if heard then [(c,.error err)] else [] }
  | none => { s with received := s.received ++ [c], queue := s.queue ++ [.user c failed] }

def State.pin (s : State) (a : Args) : State := { s with lastPinned := pinKey a }

def State.next (s : State) (j : Job) (stage : Stage) : State :=
  { s with jobs := s.jobs ++ [{ j with stage := stage }] }

def State.patchedQuery (cfg : Config) (s : State) (a : Args) : State :=
  let c : Call := ⟨s.issued.length,a⟩
  let t : State := { s with issued := s.issued ++ [c] }
  if !needsSet s a && !cfg.emit then t.submit c false true
  else if a.callback then { t with jobs := t.jobs ++ [⟨c,needsSet s a,false,.start⟩] }
  else if needsSet s a then { t with queue := t.queue ++ [.set c] }
  else t.submit c false true

/-- The job at the head of the microtask queue, after it has been taken off.  What the query of a callback
throws is a rejection that nobody handles. -/
def State.runJob (s : State) (j : Job) : State :=
  match j.stage with
  | .start => if j.needsSet then { s with queue := s.queue ++ [.set j.call] } else s.next j .pinning
  | .settled => s.next j .pinning
  | .pinning => (if j.needsSet && !j.failed then s.pin j.call.args else s).next j .caught
  | .caught => s.next j .send
  | .send => s.submit j.call j.failed (!j.call.args.callback)
  | .resume => (if j.failed then s else s.pin j.call.args).submit j.call j.failed (!j.call.args.callback)

/-- The answer to the `SET` of a call. -/
def State.settle (cfg : Config) (s : State) (c : Call) (failed : Bool) : State :=
  { s with
    session := if failed then s.session else s.session.afterSet (setSQL cfg c.args)
    jobs := s.jobs ++ [⟨c,true,failed,if c.args.callback then .settled else .resume⟩] }

def State.finish (s : State) (c : Call) (failed : Bool) (outcome : Outcome) (effects : List Effect) : State :=
  { s with
    session := effects.foldl Session.apply s.session
    executed := s.executed ++ [⟨c,failed,s.session.name⟩]
    answered := s.answered ++ [(c,outcome)]
    delivered := s.delivered ++ [(c,outcome)] }

/-- A call, the next job, or the answer to the oldest query of the underlying client, with what that query
did to the session.  An answer comes in when the microtask queue is empty. -/
inductive Label
  | query (args : Args)
  | job
  | answer (outcome : Outcome) (effects : List Effect)

def step (cfg : Config) (s : State) : Label → Option State
  | .query a => some (s.patchedQuery cfg a)
  | .job =>
    match s.jobs with
    | [] => none
    | j :: jobs => some ({ s with jobs := jobs }.runJob j)
  | .answer outcome effects =>
    match s.jobs,s.queue with
    | [],.set c :: queue => some ({ s with queue := queue }.settle cfg c outcome.isError)
    | [],.user c failed :: queue => some ({ s with queue := queue }.finish c failed outcome effects)
    | _,_ => none

def init (t : Session) : State := ⟨none,[],[],t,[],[],[],[],[]⟩

def Label.isQuery : Label → Bool
  | .query _ => true
  | _ => false

def State.Settled (s : State) : Prop := s.jobs = [] ∧ s.queue = []

theorem step_cases {cfg : Config} {s t : State} {l : Label} (h : step cfg s l = some t) :
    (∃ a, l = .query a ∧ t = s.patchedQuery cfg a) ∨
    (∃ j jobs, l = .job ∧ s.jobs = j :: jobs ∧ t = { s with jobs := jobs }.runJob j) ∨
    (∃ o effects c queue, l = .answer o effects ∧ s.jobs = [] ∧ s.queue = .set c :: queue ∧
      t = { s with queue := queue }.settle cfg c o.isError) ∨
    (∃ o effects c failed queue, l = .answer o effects ∧ s.jobs = [] ∧ s.queue = .user c failed :: queue ∧
      t = { s with queue := queue }.finish c failed o effects) := by
  cases l with
  | query a => exact .inl ⟨a,rfl,by simpa [step] using h.symm⟩
  | job =>
    cases hj : s.jobs with
    | nil => simp [step,hj] at h
    | cons j jobs =>
      simp only [step,hj,Option.some.injEq] at h
      exact .inr (.inl ⟨j,jobs,rfl,rfl,h.symm⟩)
  | answer o effects =>
    cases hj : s.jobs with
    | cons j jobs => simp [step,hj] at h
    | nil =>
      cases hq : s.queue with
      | nil => simp [step,hj,hq] at h
      | cons i queue =>
        cases i with
        | set c =>
          simp only [step,hj,hq,Option.some.injEq] at h
          exact .inr (.inr (.inl ⟨o,effects,c,queue,rfl,rfl,rfl,h.symm⟩))
        | user c failed =>
          simp only [step,hj,hq,Option.some.injEq] at h
          exact .inr (.inr (.inr ⟨o,effects,c,failed,queue,rfl,rfl,rfl,h.symm⟩))

end PgWrap
end Clearvoiance
