import Clearvoiance.Transition
import Mathlib.Data.List.Sort

/-! One run of the replay engine: a scheduler that walks through the selected events and starts a
worker for each event and virtual user, the workers that dispatch and hand a result row to a bounded
channel, and the writer that batches the rows for the sink.  Every operation on a channel, on the
semaphore or on the wait group is one atomic step; a label carries the choice of a `select`, the
clock, and what a dispatch or a call of the sink returned. -/
namespace Clearvoiance
namespace Replay

open Transition

structure Event (π : Type) where
  id : String
  timestampNs : ℤ
  payload : π
  deriving DecidableEq

structure DispatchResult where
  responseStatus : ℕ
  responseDurationNs : ℤ
  bytesSent : ℕ
  bytesReceived : ℕ
  errorCode : String
  errorMessage : String
  httpMethod : String
  httpPath : String
  httpRoute : String
  deriving DecidableEq

structure ResultRow where
  replayID : String
  eventID : String
  scheduledFireNs : ℤ
  actualFireNs : ℤ
  lagNs : ℤ
  result : DispatchResult
  deriving DecidableEq

/-- What a run is asked for and when it starts; `dispatchers` lists what each registered dispatcher can handle. -/
structure Config (π : Type) where
  replayID : String
  virtualUsers : ℤ
  maxConcurrency : ℤ
  windowStartNs : ℤ
  windowEndNs : ℤ
  speedup : ℚ
  targetDurationMs : ℤ
  replayStartNs : ℤ
  dispatchers : List (Event π → Bool)

structure Summary where
  eventsDispatched : ℕ
  eventsFailed : ℕ
  eventsBackpressured : ℕ
  latencies : List ℤ
  maxLagNs : ℤ
  deriving DecidableEq

def Summary.recordSkipped (s : Summary) : Summary := { s with eventsDispatched := s.eventsDispatched+1 }

def Summary.recordBackpressured (s : Summary) : Summary := { s with eventsBackpressured := s.eventsBackpressured+1 }

def Summary.record (s : Summary) (row : ResultRow) (failed : Bool) : Summary :=
  { s with eventsDispatched := s.eventsDispatched+1
           eventsFailed := if failed then s.eventsFailed+1 else s.eventsFailed
           latencies := s.latencies ++ [row.result.responseDurationNs]
           maxLagNs := max s.maxLagNs row.lagNs }

variable {π : Type}

def byTime (evs : List (Event π)) : List (Event π) :=
  evs.insertionSort fun a b => a.timestampNs ≤ b.timestampNs

def inWindow (cfg : Config π) (sessionStart : ℤ) (ev : Event π) : Bool :=
  decide (cfg.windowStartNs ≤ ev.timestampNs-sessionStart) &&
    !(decide (0 < cfg.windowEndNs) && decide (cfg.windowEndNs < ev.timestampNs-sessionStart))

/-- The events that a run replays.  No difference of two timestamps that are not negative overflows. -/
def selected (cfg : Config π) (evs : List (Event π)) : List (Event π) :=
  match byTime evs with
  | [] => []
  | ev :: rest =>
    if 0 < cfg.windowStartNs ∨ 0 < cfg.windowEndNs then (ev :: rest).filter (inWindow cfg ev.timestampNs)
    else ev :: rest

/-- The time between the first and the last event. -/
def spanNs (buffered : List (Event π)) : ℤ :=
  match buffered.head?,buffered.getLast? with
  | some first,some last => last.timestampNs-first.timestampNs
  | _,_ => 0

def effectiveSpeedup (cfg : Config π) (buffered : List (Event π)) : ℚ :=
  let speedup :=
    if 0 < cfg.targetDurationMs ∧ 1 < buffered.length ∧ 0 < spanNs buffered then
      (spanNs buffered : ℚ)/((cfg.targetDurationMs*1000000 : ℤ) : ℚ)
    else cfg.speedup
  if speedup ≤ 0 then 1 else speedup

/-- The conversion of a number to `time.Duration`. -/
def duration (ns : ℚ) : ℤ := if 0 ≤ ns then ⌊ns⌋ else ⌈ns⌉

def vuCount (cfg : Config π) : ℕ := if cfg.virtualUsers < 1 then 1 else cfg.virtualUsers.toNat

/-- The capacity of the semaphore, if there is one. -/
def slots (cfg : Config π) : Option ℕ := if 0 < cfg.maxConcurrency then some cfg.maxConcurrency.toNat else none

def canDispatch (cfg : Config π) (ev : Event π) : Bool := cfg.dispatchers.any fun canHandle => canHandle ev

def eventIDFor (id : String) (vu : ℕ) : String := if 0 < vu then id ++ ":vu" ++ toString vu else id

structure Timing where
  scheduledNs : ℤ
  actualNs : ℤ
  lagNs : ℤ
  deriving DecidableEq

def resultRow (cfg : Config π) (ev : Event π) (vu : ℕ) (t : Timing) (res : DispatchResult) (derr : Option String) :
    ResultRow :=
  ⟨cfg.replayID,eventIDFor ev.id vu,t.scheduledNs,t.actualNs,t.lagNs,
    match derr with
    | none => res
    | some message => { res with errorCode := "dispatch_error", errorMessage := message }⟩

/-- Where a worker is: in `Dispatch`, in the `select` that hands its row over, or in one of its two
deferred calls. -/
inductive Phase
  | dispatching
  | sending (row : ResultRow)
  | releasing
  | finishing
  deriving DecidableEq

structure Worker (π : Type) where
  ev : Event π
  vu : ℕ
  timing : Timing
  phase : Phase
  deriving DecidableEq

/-- An error of the sink; `canceled` says that it wraps `context.Canceled`. -/
structure SinkError where
  message : String
  canceled : Bool
  deriving DecidableEq

inductive WriterError
  | canceled
  | sink (err : SinkError)
  deriving DecidableEq

inductive RunError
  | canceled
  | writer (err : WriterError)
  deriving DecidableEq

/-- Where the scheduler is.  `fan` is about to start the worker of a virtual user and `blocked` waits
for the semaphore; the last four are the ways out of `run`. -/
inductive Scheduler (π : Type)
  | loop (rest : List (Event π))
  | sleeping (ev : Event π) (rest : List (Event π))
  | fan (ev : Event π) (t : Timing) (vu : ℕ) (rest : List (Event π))
  | blocked (ev : Event π) (t : Timing) (vu : ℕ) (rest : List (Event π))
  | waiting
  | awaiting
  | abandoned
  | abandonedAwaiting
  | returned (err : Option RunError)
  deriving DecidableEq

/-- Why the writer is in `InsertReplayEvents`. -/
inductive Flush
  | full
  | tick
  | final
  | cancel
  deriving DecidableEq

inductive Writer
  | selecting
  | inserting (why : Flush)
  | done (err : Option WriterError)
  deriving DecidableEq

structure State (π : Type) where
  cfg : Config π
  base : ℤ
  speedup : ℚ
  scheduler : Scheduler π
  workers : List (Worker π)
  /-- Permits taken from the semaphore. -/
  taken : ℕ
  /-- The counter of the wait group. -/
  wg : ℕ
  results : List ResultRow
  closed : Bool
  writer : Writer
  buf : List ResultRow
  /-- The calls of the sink that succeeded, and their rows. -/
  inserted : List (List ResultRow)
  summary : Summary
  canceled : Bool
  /-- A send on, or a close of, the closed channel. -/
  panicked : Bool

inductive Label
  | cancel
  | schedule (now : ℤ)
  | abandon
  | dispatched (i : ℕ) (res : DispatchResult) (derr : Option String)
  | send (i : ℕ)
  | skip (i : ℕ)
  | release (i : ℕ)
  | finish (i : ℕ)
  | receive
  | tick
  | stop
  | insert (err : Option SinkError)
  deriving DecidableEq

def capacity : ℕ := 1024

def flushSize : ℕ := 128

def init (cfg : Config π) (evs : List (Event π)) : State π :=
  let buffered := selected cfg evs
  { cfg, base := (buffered.head?.map (·.timestampNs)).getD 0, speedup := effectiveSpeedup cfg buffered
    scheduler := if buffered = [] then .returned none else .loop buffered
    workers := [], taken := 0, wg := 0, results := [], closed := false
    writer := .selecting, buf := [], inserted := [], summary := ⟨0,0,0,[],0⟩, canceled := false, panicked := false }

def State.close (s : State π) (next : Scheduler π) : State π :=
  if s.closed then { s with panicked := true } else { s with closed := true, scheduler := next }

/-- The wall-clock time at which an event is due. -/
def State.fireAt (s : State π) (ev : Event π) : ℤ :=
  s.cfg.replayStartNs+duration (((ev.timestampNs-s.base : ℤ) : ℚ)/s.speedup)

/-- An event is due: pick a dispatcher, or count the event as skipped. -/
def State.fire (s : State π) (ev : Event π) (rest : List (Event π)) (now : ℤ) : State π :=
  if canDispatch s.cfg ev then { s with scheduler := .fan ev ⟨s.fireAt ev,now,now-s.fireAt ev⟩ 0 rest }
  else { s with summary := s.summary.recordSkipped, scheduler := .loop rest }

/-- The worker of a virtual user, with its permit. -/
def State.spawn (s : State π) (ev : Event π) (t : Timing) (vu : ℕ) (rest : List (Event π)) : State π :=
  { s with workers := s.workers ++ [⟨ev,vu,t,.dispatching⟩]
           taken := s.taken+1
           scheduler := .fan ev t (vu+1) rest }

def State.hasPermit (s : State π) : Bool :=
  match slots s.cfg with
  | none => true
  | some n => decide (s.taken < n)

def State.schedule (s : State π) (now : ℤ) : Option (State π) :=
  match s.scheduler with
  | .loop [] => some { s with scheduler := .waiting }
  | .loop (ev :: rest) =>
    if now < s.fireAt ev then some { s with scheduler := .sleeping ev rest }
    else some (s.fire ev rest now)
  | .sleeping ev rest => some (s.fire ev rest now)
  | .fan ev t vu rest =>
    if vuCount s.cfg ≤ vu then some { s with scheduler := .loop rest }
    else if s.hasPermit then some { s.spawn ev t vu rest with wg := s.wg+1 }
    else some { s with wg := s.wg+1, summary := s.summary.recordBackpressured, scheduler := .blocked ev t vu rest }
  | .blocked ev t vu rest => if s.hasPermit then some (s.spawn ev t vu rest) else none
  | .waiting => if s.wg = 0 then some (s.close .awaiting) else none
  | .awaiting =>
    match s.writer with
    | .done err => some { s with scheduler := .returned (err.map .writer) }
    | _ => none
  | .abandoned => if s.wg = 0 then some { s with scheduler := .abandonedAwaiting } else none
  | .abandonedAwaiting =>
    match s.writer with
    | .done _ => some { s with scheduler := .returned (some .canceled) }
    | _ => none
  | .returned _ => none

/-- The `ctx.Done()` branch of the scheduler's sleep. -/
def State.abandon (s : State π) : Option (State π) :=
  match s.scheduler with
  | .sleeping _ _ => if s.canceled then some (s.close .abandoned) else none
  | _ => none

def State.setPhase (s : State π) (i : ℕ) (p : Phase) : State π :=
  { s with workers := s.workers.modify i fun w => { w with phase := p } }

def State.dispatched (s : State π) (i : ℕ) (w : Worker π) (res : DispatchResult) (derr : Option String) : State π :=
  let row := resultRow s.cfg w.ev w.vu w.timing res derr
  { s.setPhase i (.sending row) with
    summary := s.summary.record row (derr.isSome || decide (500 ≤ res.responseStatus)) }

/-- The `select` of a worker, on the side of the channel. -/
def State.send (s : State π) (i : ℕ) (row : ResultRow) : Option (State π) :=
  if s.closed then some { s with panicked := true }
  else if s.results.length < capacity then some { s.setPhase i .releasing with results := s.results ++ [row] }
  else none

/-- The writer takes a row, or sees that the channel is closed and empty. -/
def State.receive (s : State π) : Option (State π) :=
  match s.results with
  | row :: rest =>
    some { s with results := rest, buf := s.buf ++ [row]
                  writer := if flushSize ≤ (s.buf ++ [row]).length then .inserting .full else .selecting }
  | [] =>
    if s.closed then some { s with writer := if s.buf = [] then .done none else .inserting .final } else none

/-- `InsertReplayEvents` returns. -/
def State.insert (s : State π) (why : Flush) (err : Option SinkError) : State π :=
  match err with
  | none =>
    { s with inserted := s.inserted ++ [s.buf], buf := []
             writer := match why with
               | .full | .tick => .selecting
               | .final => .done none
               | .cancel => .done (some .canceled) }
  | some e =>
    { s with writer := match why with
               | .cancel => .done (some .canceled)
               | _ => .done (some (.sink e)) }

def State.phase (s : State π) (i : ℕ) : Option Phase := (s.workers[i]?).map (·.phase)

def step (s : State π) (l : Label) : Option (State π) :=
  if s.panicked then none
  else match l with
    | .cancel => some { s with canceled := true }
    | .schedule now => s.schedule now
    | .abandon => s.abandon
    | .dispatched i res derr =>
      match s.workers[i]? with
      | some w => if w.phase = .dispatching then some (s.dispatched i w res derr) else none
      | none => none
    | .send i =>
      match s.phase i with
      | some (.sending row) => s.send i row
      | _ => none
    | .skip i =>
      match s.phase i with
      | some (.sending _) => if s.canceled then some (s.setPhase i .releasing) else none
      | _ => none
    | .release i =>
      if s.phase i = some .releasing then
        some { s.setPhase i .finishing with taken := s.taken-1 } else none
    | .finish i =>
      if s.phase i = some .finishing then
        some { s with workers := s.workers.eraseIdx i, wg := s.wg-1 } else none
    | .receive => if s.writer = .selecting then s.receive else none
    | .tick =>
      if s.writer = .selecting then some (if s.buf = [] then s else { s with writer := .inserting .tick }) else none
    | .stop =>
      if s.writer = .selecting ∧ s.canceled then
        some { s with writer := if s.buf = [] then .done (some .canceled) else .inserting .cancel } else none
    | .insert err =>
      match s.writer with
      | .inserting why => some (s.insert why err)
      | _ => none

def Due (s : State π) (ev : Event π) (rest : List (Event π)) : Prop :=
  s.scheduler = .loop (ev :: rest) ∨ s.scheduler = .sleeping ev rest

inductive Moves (s : State π) : Label → State π → Prop
  | cancel : Moves s .cancel { s with canceled := true }
  | drained (now : ℤ) : s.scheduler = .loop [] → Moves s (.schedule now) { s with scheduler := .waiting }
  | sleep (now : ℤ) (ev : Event π) (rest : List (Event π)) : s.scheduler = .loop (ev :: rest) →
      Moves s (.schedule now) { s with scheduler := .sleeping ev rest }
  | skipEvent (now : ℤ) (ev : Event π) (rest : List (Event π)) : Due s ev rest → canDispatch s.cfg ev = false →
      Moves s (.schedule now) { s with summary := s.summary.recordSkipped, scheduler := .loop rest }
  | startEvent (now : ℤ) (ev : Event π) (t : Timing) (rest : List (Event π)) : Due s ev rest →
      canDispatch s.cfg ev = true → Moves s (.schedule now) { s with scheduler := .fan ev t 0 rest }
  | nextEvent (now : ℤ) (ev : Event π) (t : Timing) (vu : ℕ) (rest : List (Event π)) :
      s.scheduler = .fan ev t vu rest → vuCount s.cfg ≤ vu → Moves s (.schedule now) { s with scheduler := .loop rest }
  | spawn (now : ℤ) (ev : Event π) (t : Timing) (vu : ℕ) (rest : List (Event π)) : s.scheduler = .fan ev t vu rest →
      vu < vuCount s.cfg → s.hasPermit = true → Moves s (.schedule now) { s.spawn ev t vu rest with wg := s.wg+1 }
  | block (now : ℤ) (ev : Event π) (t : Timing) (vu : ℕ) (rest : List (Event π)) : s.scheduler = .fan ev t vu rest →
      vu < vuCount s.cfg → s.hasPermit = false → Moves s (.schedule now)
        { s with wg := s.wg+1, summary := s.summary.recordBackpressured, scheduler := .blocked ev t vu rest }
  | unblock (now : ℤ) (ev : Event π) (t : Timing) (vu : ℕ) (rest : List (Event π)) :
      s.scheduler = .blocked ev t vu rest → s.hasPermit = true → Moves s (.schedule now) (s.spawn ev t vu rest)
  | close (now : ℤ) : s.scheduler = .waiting → s.wg = 0 → Moves s (.schedule now) (s.close .awaiting)
  | finishRun (now : ℤ) (r : Option WriterError) : s.scheduler = .awaiting → s.writer = .done r →
      Moves s (.schedule now) { s with scheduler := .returned (r.map .writer) }
  | join (now : ℤ) : s.scheduler = .abandoned → s.wg = 0 →
      Moves s (.schedule now) { s with scheduler := .abandonedAwaiting }
  | giveUp (now : ℤ) (r : Option WriterError) : s.scheduler = .abandonedAwaiting → s.writer = .done r →
      Moves s (.schedule now) { s with scheduler := .returned (some .canceled) }
  | abandon (ev : Event π) (rest : List (Event π)) : s.scheduler = .sleeping ev rest → s.canceled = true →
      Moves s .abandon (s.close .abandoned)
  | dispatched (i : ℕ) (l r : List (Worker π)) (w : Worker π) (res : DispatchResult) (derr : Option String) :
      s.workers = l ++ w :: r → w.phase = .dispatching → s.workers[i]? = some w → Moves s (.dispatched i res derr)
        { s with workers := l ++ { w with phase := .sending (resultRow s.cfg w.ev w.vu w.timing res derr) } :: r
                 summary := s.summary.record (resultRow s.cfg w.ev w.vu w.timing res derr)
                   (derr.isSome || decide (500 ≤ res.responseStatus)) }
  | send (i : ℕ) (l r : List (Worker π)) (w : Worker π) (row : ResultRow) : s.workers = l ++ w :: r →
      w.phase = .sending row → s.closed = false → s.results.length < capacity → Moves s (.send i)
        { s with workers := l ++ { w with phase := .releasing } :: r, results := s.results ++ [row] }
  | sendClosed (i : ℕ) (l r : List (Worker π)) (w : Worker π) (row : ResultRow) : s.workers = l ++ w :: r →
      w.phase = .sending row → s.closed = true → Moves s (.send i) { s with panicked := true }
  | skip (i : ℕ) (l r : List (Worker π)) (w : Worker π) (row : ResultRow) : s.workers = l ++ w :: r →
      w.phase = .sending row → s.canceled = true → s.phase i = some (.sending row) →
      Moves s (.skip i) { s with workers := l ++ { w with phase := .releasing } :: r }
  | release (i : ℕ) (l r : List (Worker π)) (w : Worker π) : s.workers = l ++ w :: r → w.phase = .releasing →
      Moves s (.release i) { s with workers := l ++ { w with phase := .finishing } :: r, taken := s.taken-1 }
  | finish (i : ℕ) (l r : List (Worker π)) (w : Worker π) : s.workers = l ++ w :: r → w.phase = .finishing →
      Moves s (.finish i) { s with workers := l ++ r, wg := s.wg-1 }
  | receive (row : ResultRow) (rest : List ResultRow) : s.writer = .selecting → s.results = row :: rest →
      ∀ next, next = .selecting ∨ next = .inserting .full →
      Moves s .receive { s with results := rest, buf := s.buf ++ [row], writer := next }
  | receiveEnd : s.writer = .selecting → s.results = [] → s.closed = true → Moves s .receive
      { s with writer := if s.buf = [] then .done none else .inserting .final }
  | idle : s.writer = .selecting → s.buf = [] → Moves s .tick s
  | tick : s.writer = .selecting → s.buf ≠ [] → Moves s .tick { s with writer := .inserting .tick }
  | stop : s.writer = .selecting → s.canceled = true → Moves s .stop
      { s with writer := if s.buf = [] then .done (some .canceled) else .inserting .cancel }
  | insert (why : Flush) (err : Option SinkError) : s.writer = .inserting why → Moves s (.insert err) (s.insert why err)

theorem modify_at {α : Type} {l : List α} {i : ℕ} {a : α} (h : l[i]? = some a) :
    ∃ l₁ l₂, l = l₁ ++ a :: l₂ ∧ l.eraseIdx i = l₁ ++ l₂ ∧ ∀ f : α → α, l.modify i f = l₁ ++ f a :: l₂ := by
  obtain ⟨hi,ha⟩ := List.getElem?_eq_some_iff.mp h
  refine ⟨l.take i,l.drop (i+1),split_at h,List.eraseIdx_eq_take_drop_succ l i,fun f => ?_⟩
  rw [List.modify_eq_take_cons_drop hi,ha]

theorem fire_moves {s : State π} {ev : Event π} {rest : List (Event π)} (h : Due s ev rest) (now : ℤ) :
    Moves s (.schedule now) (s.fire ev rest now) := by
  unfold State.fire
  cases hd : canDispatch s.cfg ev with
  | false => exact .skipEvent now ev rest h hd
  | true => exact .startEvent now ev _ rest h hd

theorem schedule_moves {s t : State π} {now : ℤ} (h : s.schedule now = some t) : Moves s (.schedule now) t := by
  unfold State.schedule at h
  split at h
  · rename_i hs
    cases h
    exact .drained now hs
  · rename_i ev rest hs
    split at h
    · cases h
      exact .sleep now ev rest hs
    · cases h
      exact fire_moves (.inl hs) now
  · rename_i ev rest hs
    cases h
    exact fire_moves (.inr hs) now
  · rename_i ev t vu rest hs
    split at h
    · rename_i hvu
      cases h
      exact .nextEvent now ev t vu rest hs hvu
    · rename_i hvu
      split at h
      · rename_i hp
        cases h
        exact .spawn now ev t vu rest hs (by omega) hp
      · rename_i hp
        cases h
        exact .block now ev t vu rest hs (by omega) (by simpa using hp)
  · rename_i ev t vu rest hs
    split at h
    · rename_i hp
      cases h
      exact .unblock now ev t vu rest hs hp
    · cases h
  · rename_i hs
    split at h
    · rename_i hw
      cases h
      exact .close now hs hw
    · cases h
  · rename_i hs
    split at h
    · rename_i hw
      cases h
      exact .finishRun now _ hs hw
    · cases h
  · rename_i hs
    split at h
    · rename_i hw
      cases h
      exact .join now hs hw
    · cases h
  · rename_i hs
    split at h
    · rename_i hw
      cases h
      exact .giveUp now _ hs hw
    · cases h
  · cases h

theorem phase_split {s : State π} {i : ℕ} {p : Phase} (h : s.phase i = some p) :
    ∃ (l r : List (Worker π)) (w : Worker π), s.workers = l ++ w :: r ∧
    w.phase = p ∧ s.workers.eraseIdx i = l ++ r ∧
    ∀ q, (s.setPhase i q).workers = l ++ { w with phase := q } :: r := by
  obtain ⟨w,hw,hp⟩ := Option.map_eq_some_iff.mp h
  obtain ⟨l,r,hl,he,hm⟩ := modify_at hw
  exact ⟨l,r,w,hl,hp,he,fun q => hm _⟩

theorem setPhase_eq (s : State π) (i : ℕ) (p : Phase) :
    s.setPhase i p = { s with workers := (s.setPhase i p).workers } := rfl

theorem moves_of_step {s t : State π} {l : Label} (h : step s l = some t) : s.panicked = false ∧ Moves s l t := by
  unfold step at h
  split at h
  · cases h
  rename_i hpanic
  refine ⟨by simpa using hpanic,?_⟩
  split at h
  · cases h
    exact .cancel
  · exact schedule_moves h
  · unfold State.abandon at h
    split at h
    · rename_i ev rest hs
      split at h
      · rename_i hc
        cases h
        exact .abandon ev rest hs hc
      · cases h
    · cases h
  · rename_i i res derr
    split at h
    · rename_i w hw
      split at h
      · rename_i hp
        cases h
        obtain ⟨l,r,hl,-,hm⟩ := modify_at hw
        have := Moves.dispatched i l r w res derr hl hp hw
        unfold State.dispatched
        simp only [State.setPhase,hm]
        exact this
      · cases h
    · cases h
  · rename_i i
    split at h
    · rename_i row hp
      obtain ⟨l,r,w,hl,hw,-,hm⟩ := phase_split hp
      unfold State.send at h
      split at h
      · rename_i hc
        cases h
        exact .sendClosed i l r w row hl hw hc
      · rename_i hc
        split at h
        · rename_i hlen
          cases h
          rw [setPhase_eq,hm]
          exact .send i l r w row hl hw (by simpa using hc) hlen
        · cases h
    · cases h
  · rename_i i
    split at h
    · rename_i row hp
      obtain ⟨l,r,w,hl,hw,-,hm⟩ := phase_split hp
      split at h
      · rename_i hc
        cases h
        rw [setPhase_eq,hm]
        exact .skip i l r w row hl hw hc hp
      · cases h
    · cases h
  · rename_i i
    split at h
    · rename_i hp
      obtain ⟨l,r,w,hl,hw,-,hm⟩ := phase_split hp
      cases h
      rw [setPhase_eq,hm]
      exact .release i l r w hl hw
    · cases h
  · rename_i i
    split at h
    · rename_i hp
      obtain ⟨l,r,w,hl,hw,he,-⟩ := phase_split hp
      cases h
      rw [he]
      exact .finish i l r w hl hw
    · cases h
  · split at h
    · rename_i hw
      unfold State.receive at h
      split at h
      · rename_i row rest hr
        cases h
        refine .receive row rest hw hr _ ?_
        split_ifs <;> simp
      · rename_i hr
        split at h
        · rename_i hc
          cases h
          exact .receiveEnd hw hr hc
        · cases h
    · cases h
  · split at h
    · rename_i hw
      cases h
      split_ifs with hb
      · exact .idle hw hb
      · exact .tick hw hb
    · cases h
  · split at h
    · rename_i hw
      cases h
      exact .stop hw.1 hw.2
    · cases h
  · split at h
    · rename_i why hw
      cases h
      exact .insert why _ hw
    · cases h

end Replay
end Clearvoiance
