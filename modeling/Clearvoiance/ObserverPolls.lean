import Clearvoiance.AppNames
import Clearvoiance.Fingerprints
import Clearvoiance.Transition

/-! The polls of the database observer and its debounce map.  The map holds one entry for each backend
process: the query it was last seen with and whether an observation of it has been emitted.  An entry is
overwritten when the process is seen below the threshold or with another query, and dropped when a poll
does not show the process, so what has been emitted is remembered only while the same execution is seen
slow or waiting in poll after poll. -/
namespace Clearvoiance
namespace ObserverPolls

open JsonStrings Transition

inductive ObservationType
  | slowQuery | lockWait
  deriving DecidableEq

structure Observation where
  replayID : GoString
  eventID : GoString
  type : ObservationType
  observedAt : ℤ
  durationNs : ℤ
  queryText : GoString
  queryFingerprint : GoString
  waitEventType : GoString
  waitEvent : GoString
  deriving DecidableEq

/-- A row of `pg_stat_activity`. -/
structure Row where
  pid : ℤ
  appName : GoString
  queryStart : Option ℤ
  waitEventType : Option GoString
  waitEvent : Option GoString
  queryText : Option GoString
  deriving DecidableEq

structure Config where
  slowQueryThresholdMs : ℤ
  appPrefix : GoString

structure DebounceRow where
  appName : GoString
  queryStart : ℤ
  emitted : Bool
  deriving DecidableEq

/-- The debounce map, and the rows whose observations the sink has taken. -/
structure Observer where
  debounce : ℤ → Option DebounceRow
  emitted : List (Row × Observation)

/-- A row that could not be scanned, or a row and whether `Emit` succeeds if it is called for it. -/
inductive Scanned
  | failed
  | row (r : Row) (emits : Bool)

/-- The rows a poll comes to read, and whether the reading ends with an error. -/
structure Poll where
  now : ℤ
  rows : List Scanned
  err : Bool

/-- A `time.Duration` saturates at 292 years, which no query has been running for. -/
def duration (now : ℤ) (r : Row) : ℤ := (r.queryStart.map fun q => now-q).getD 0

/-- The product wraps for a threshold of more than 292 years. -/
def threshold (cfg : Config) : ℤ := cfg.slowQueryThresholdMs*1000000

/-- `deref(queryStart, now)` -/
def start (now : ℤ) (r : Row) : ℤ := r.queryStart.getD now

def classify (cfg : Config) (now : ℤ) (r : Row) : Option ObservationType :=
  if r.waitEventType = some "Lock".toList then some .lockWait
  else if threshold cfg ≤ duration now r then some .slowQuery
  else none

def sameQuery (prev : Option DebounceRow) (r : Row) : Bool :=
  match prev,r.queryStart with
  | some p,some q => decide (p.appName = r.appName) && decide (p.queryStart = q)
  | _,_ => false

def wasEmitted (prev : Option DebounceRow) : Bool := (prev.map (·.emitted)).getD false

def observation (now : ℤ) (r : Row) (parsed : AppNames.ParsedAppName) (obsType : ObservationType) : Observation :=
  let queryText := r.queryText.getD []
  ⟨parsed.replayID,parsed.eventID,obsType,now,duration now r,queryText,Fingerprints.fingerprint queryText,
    r.waitEventType.getD [],r.waitEvent.getD []⟩

def Observer.track (o : Observer) (now : ℤ) (r : Row) (emitted : Bool) : Observer :=
  { o with debounce := Function.update o.debounce r.pid (some ⟨r.appName,start now r,emitted⟩) }

/-- The body of the loop over the rows, for a row that was scanned. -/
def Observer.handle (cfg : Config) (now : ℤ) (o : Observer) (r : Row) (emits : Bool) : Observer :=
  match AppNames.parseAppName r.appName cfg.appPrefix with
  | none => o
  | some parsed =>
    match classify cfg now r with
    | none => o.track now r false
    | some obsType =>
      let prev := o.debounce r.pid
      if sameQuery prev r && wasEmitted prev then o
      else if emits then { o.track now r true with emitted := o.emitted ++ [(r,observation now r parsed obsType)] }
      else o

/-- Drops the entries of the processes that were not seen. -/
def Observer.prune (o : Observer) (seen : List ℤ) : Observer :=
  { o with debounce := fun pid => if pid ∈ seen then o.debounce pid else none }

/-- One row of a poll, with the processes seen so far. -/
def scan (cfg : Config) (now : ℤ) (o : Observer × List ℤ) : Scanned → Observer × List ℤ
  | .failed => o
  | .row r emits => (o.1.handle cfg now r emits,r.pid :: o.2)

def tick (cfg : Config) (o : Observer) : Option Poll → Observer
  | none => o
  | some p =>
    let scanned := p.rows.foldl (scan cfg p.now) (o,[])
    scanned.1.prune scanned.2

structure Execution where
  pid : ℤ
  appName : GoString
  queryStart : ℤ
  deriving DecidableEq

def Row.execution (r : Row) : Option Execution := r.queryStart.map fun q => ⟨r.pid,r.appName,q⟩

/-- The executions with an observation that the sink has taken. -/
def Observer.executions (o : Observer) : List Execution := o.emitted.filterMap fun e => e.1.execution

/-- A row of the application that is slow or waits for a lock. -/
def reports (cfg : Config) (now : ℤ) (r : Row) : Bool :=
  (AppNames.parseAppName r.appName cfg.appPrefix).isSome && (classify cfg now r).isSome

/-- What the polls have shown, whatever the observer remembers: the executions that were slow or waiting
while `Emit` succeeds, and for each process the name and the start of the one that was so when the process
was last seen, if no poll has missed the process since. -/
structure History where
  shown : List Execution
  standing : ℤ → Option (GoString × ℤ)

def History.note (cfg : Config) (now : ℤ) (h : History) (r : Row) (emits : Bool) : History :=
  if (AppNames.parseAppName r.appName cfg.appPrefix).isNone then h
  else if reports cfg now r then
    if emits then
      ⟨h.shown ++ r.execution.toList,Function.update h.standing r.pid (some (r.appName,start now r))⟩
    else h
  else { h with standing := Function.update h.standing r.pid none }

def History.miss (h : History) (seen : List ℤ) : History :=
  { h with standing := fun pid => if pid ∈ seen then h.standing pid else none }

/-- The observer between two rows; `poll` has the time of the running poll and the processes it has shown. -/
structure State where
  observer : Observer
  poll : Option (ℤ × List ℤ)
  history : History

inductive Label
  | queryFailed
  | query (now : ℤ)
  | scanned (x : Scanned)
  | finish (err : Bool)

/-- One step of `tick`; an error of the iteration is only logged. -/
def step (cfg : Config) (s : State) : Label → Option State
  | .queryFailed => if s.poll.isNone then some s else none
  | .query now => if s.poll.isNone then some { s with poll := some (now,[]) } else none
  | .scanned .failed => if s.poll.isSome then some s else none
  | .scanned (.row r emits) =>
    s.poll.map fun p => ⟨s.observer.handle cfg p.1 r emits,some (p.1,r.pid :: p.2),s.history.note cfg p.1 r emits⟩
  | .finish _ => s.poll.map fun p => ⟨s.observer.prune p.2,none,s.history.miss p.2⟩

def init : State := ⟨⟨fun _ => none,[]⟩,none,⟨[],fun _ => none⟩⟩

def Poll.labels (p : Poll) : List Label := .query p.now :: (p.rows.map Label.scanned ++ [Label.finish p.err])

/-- No execution is emitted twice, and all that were shown are emitted. -/
structure Debounced (s : State) : Prop where
  once : s.observer.executions.Nodup
  all : ∀ e ∈ s.history.shown, e ∈ s.observer.executions

/-- A row that is reported was shown before exactly when it stands: it has been seen slow or waiting ever
since, and what stands for its process is not a row without a start time. -/
def Coherent (cfg : Config) (s : State) : Label → Prop
  | .scanned (.row r true) => ∀ p ∈ s.poll, reports cfg p.1 r = true → ∀ e ∈ r.execution,
      (e ∈ s.history.shown ↔ s.history.standing e.pid = some (e.appName,e.queryStart))
  | _ => True

instance (cfg : Config) (s : State) (l : Label) : Decidable (Coherent cfg s l) :=
  match l with
  | .scanned (.row _ true) => by unfold Coherent; infer_instance
  | .scanned (.row _ false) => .isTrue trivial
  | .scanned .failed => .isTrue trivial
  | .queryFailed => .isTrue trivial
  | .query _ => .isTrue trivial
  | .finish _ => .isTrue trivial

section Polls

variable {cfg : Config}

theorem exec_rows (cfg : Config) (now : ℤ) (xs : List Scanned) (o : Observer) (seen : List ℤ) (h : History) :
    ∃ h', exec (step cfg) ⟨o,some (now,seen),h⟩ (xs.map Label.scanned) =
      some ⟨(xs.foldl (scan cfg now) (o,seen)).1,some (now,(xs.foldl (scan cfg now) (o,seen)).2),h'⟩ := by
  induction xs generalizing o seen h with
  | nil => exact ⟨h,rfl⟩
  | cons x xs ih =>
    cases x with
    | failed => exact ih o seen h
    | row r emits => exact ih (o.handle cfg now r emits) (r.pid :: seen) (h.note cfg now r emits)

theorem exec_tick (p : Poll) (o : Observer) (h : History) :
    ∃ h', exec (step cfg) ⟨o,none,h⟩ p.labels = some ⟨tick cfg o (some p),none,h'⟩ := by
  obtain ⟨h',hrows⟩ := exec_rows cfg p.now p.rows o [] h
  refine ⟨h'.miss (p.rows.foldl (scan cfg p.now) (o,[])).2,?_⟩
  have hquery : exec (step cfg) ⟨o,none,h⟩ p.labels =
      exec (step cfg) ⟨o,some (p.now,[]),h⟩ (p.rows.map Label.scanned ++ [Label.finish p.err]) := rfl
  rw [hquery,exec_append hrows]
  rfl

end Polls

section Debounce

variable {cfg : Config} {now : ℤ} {o o' : Observer} {h h' : History} {r : Row} {emits : Bool}

/-- The map holds back the observations of a query it has marked. -/
theorem held_iff (prev : Option DebounceRow) (r : Row) :
    (sameQuery prev r && wasEmitted prev) = true ↔ ∃ q, r.queryStart = some q ∧ prev = some ⟨r.appName,q,true⟩ := by
  cases prev with
  | none => simp [sameQuery]
  | some p =>
    obtain ⟨a,q,e⟩ := p
    cases hq : r.queryStart with
    | none => simp [sameQuery,hq]
    | some q' =>
      simp only [sameQuery,hq,wasEmitted,Option.map_some,Option.getD_some,Bool.and_eq_true,decide_eq_true_eq,
        Option.some.injEq,DebounceRow.mk.injEq,exists_eq_left']
      exact and_assoc

/-- What a row does to the observer and to the history. -/
inductive Handled (cfg : Config) (now : ℤ) (o : Observer) (h : History) (r : Row) : Bool → Observer → History → Prop
  | foreign (emits : Bool) : reports cfg now r = false → Handled cfg now o h r emits o h
  | quick (emits : Bool) : reports cfg now r = false →
      Handled cfg now o h r emits (o.track now r false) { h with standing := Function.update h.standing r.pid none }
  | refused : Handled cfg now o h r false o h
  | held (q : ℤ) : reports cfg now r = true → r.queryStart = some q → o.debounce r.pid = some ⟨r.appName,q,true⟩ →
      Handled cfg now o h r true o
        ⟨h.shown ++ [⟨r.pid,r.appName,q⟩],Function.update h.standing r.pid (some (r.appName,q))⟩
  | emitted (obs : Observation) : reports cfg now r = true →
      (∀ q, r.queryStart = some q → o.debounce r.pid ≠ some ⟨r.appName,q,true⟩) →
      Handled cfg now o h r true { o.track now r true with emitted := o.emitted ++ [(r,obs)] }
        ⟨h.shown ++ r.execution.toList,Function.update h.standing r.pid (some (r.appName,start now r))⟩

theorem handled : Handled cfg now o h r emits (o.handle cfg now r emits) (h.note cfg now r emits) := by
  unfold Observer.handle History.note
  cases hp : AppNames.parseAppName r.appName cfg.appPrefix with
  | none =>
    exact .foreign emits (by simp [reports,hp])
  | some parsed =>
    cases hc : classify cfg now r with
    | none =>
      have hrep : reports cfg now r = false := by simp [reports,hc]
      simp only [Option.isNone_some,hrep,if_neg (Bool.false_ne_true)]
      exact .quick emits hrep
    | some obsType =>
      have hrep : reports cfg now r = true := by simp [reports,hp,hc]
      simp only [Option.isNone_some,hrep,if_neg (Bool.false_ne_true),if_true]
      by_cases hheld : (sameQuery (o.debounce r.pid) r && wasEmitted (o.debounce r.pid)) = true
      · rw [if_pos hheld]
        obtain ⟨q,hq,hprev⟩ := (held_iff _ r).mp hheld
        cases emits with
        | false => exact .refused
        | true =>
          have hstart : start now r = q := by rw [start,hq,Option.getD_some]
          have hexec : r.execution.toList = [⟨r.pid,r.appName,q⟩] := by simp [Row.execution,hq]
          rw [if_pos rfl,hstart,hexec]
          exact .held q hrep hq hprev
      · rw [if_neg hheld]
        cases emits with
        | false => exact .refused
        | true =>
          refine .emitted _ hrep fun q hq hprev => hheld ?_
          exact (held_iff _ r).mpr ⟨q,hq,hprev⟩

/-- The map marks what stands, and only shown executions have been emitted. -/
structure Tracked (o : Observer) (h : History) : Prop where
  marked : ∀ pid a q, o.debounce pid = some ⟨a,q,true⟩ ↔ h.standing pid = some (a,q)
  known : ∀ e ∈ o.executions, e ∈ h.shown

theorem executions_emitted (obs : Observation) :
    Observer.executions { o.track now r true with emitted := o.emitted ++ [(r,obs)] } =
      o.executions ++ r.execution.toList := by
  rw [Observer.executions,List.filterMap_append]
  cases he : r.execution <;> simp [Observer.executions,he]

theorem Tracked.handle (ht : Tracked o h) (hh : Handled cfg now o h r emits o' h') : Tracked o' h' := by
  cases hh with
  | foreign emits hrep => exact ht
  | refused => exact ht
  | quick emits hrep =>
    refine ⟨fun pid a q => ?_,ht.known⟩
    by_cases hpid : pid = r.pid
    · subst hpid
      simp [Observer.track]
    · simp only [Observer.track,Function.update_of_ne hpid]
      exact ht.marked pid a q
  | held q hrep hq hprev =>
    have hstand := (ht.marked _ _ _).mp hprev
    refine ⟨fun pid a q' => ?_,fun e he => List.mem_append_left _ (ht.known e he)⟩
    rw [← hstand,Function.update_eq_self]
    exact ht.marked pid a q'
  | emitted obs hrep hnot =>
    refine ⟨fun pid a q => ?_,fun e he => ?_⟩
    · by_cases hpid : pid = r.pid
      · subst hpid
        simp [Observer.track]
      · simp only [Observer.track,Function.update_of_ne hpid]
        exact ht.marked pid a q
    · rw [executions_emitted] at he
      rcases List.mem_append.mp he with he | he
      · exact List.mem_append_left _ (ht.known e he)
      · exact List.mem_append_right _ he

theorem Tracked.prune (ht : Tracked o h) (seen : List ℤ) : Tracked (o.prune seen) (h.miss seen) := by
  refine ⟨fun pid a q => ?_,ht.known⟩
  simp only [Observer.prune,History.miss]
  split_ifs
  · exact ht.marked pid a q
  · simp

end Debounce

section Runs

variable {cfg : Config} {s t : State} {l : Label}

theorem tracked_step (ht : Tracked s.observer s.history) (hst : step cfg s l = some t) : Tracked t.observer t.history := by
  cases l with
  | queryFailed =>
    obtain ⟨-,rfl⟩ : s.poll.isNone = true ∧ s = t := by simpa [step] using hst
    exact ht
  | query now =>
    obtain ⟨-,rfl⟩ : s.poll.isNone = true ∧ { s with poll := some (now,[]) } = t := by simpa [step] using hst
    exact ht
  | scanned x =>
    cases x with
    | failed =>
      obtain ⟨-,rfl⟩ : s.poll.isSome = true ∧ s = t := by simpa [step] using hst
      exact ht
    | row r emits =>
      obtain ⟨p,-,rfl⟩ := Option.map_eq_some_iff.mp hst
      exact ht.handle handled
  | finish err =>
    obtain ⟨p,-,rfl⟩ := Option.map_eq_some_iff.mp hst
    exact ht.prune p.2

/-- An emission keeps the observations apart exactly when its execution has not been emitted. -/
theorem debounced_emitted {o : Observer} {h : History} {p q : Option (ℤ × List ℤ)} {now : ℤ} {r : Row}
    {obs : Observation} {standing : ℤ → Option (GoString × ℤ)} (hs : Debounced ⟨o,p,h⟩) :
    Debounced ⟨{ o.track now r true with emitted := o.emitted ++ [(r,obs)] },q,
      ⟨h.shown ++ r.execution.toList,standing⟩⟩ ↔ ∀ e ∈ r.execution, e ∉ o.executions := by
  have hdisjoint : o.executions.Disjoint r.execution.toList ↔ ∀ e ∈ r.execution, e ∉ o.executions := by
    simp only [List.disjoint_right,Option.mem_toList,Option.mem_def]
  rw [← hdisjoint]
  constructor
  · intro hd
    have hnd := hd.once
    rw [executions_emitted] at hnd
    exact List.disjoint_of_nodup_append hnd
  · intro hd
    refine ⟨?_,fun e he => ?_⟩
    · rw [executions_emitted]
      exact List.Nodup.append hs.once (by cases r.execution <;> simp) hd
    · rw [executions_emitted]
      rcases List.mem_append.mp he with he | he
      · exact List.mem_append_left _ (hs.all e he)
      · exact List.mem_append_right _ he

/-- A row keeps the observations apart exactly when it is coherent with what the polls have shown. -/
theorem debounced_row {o o' : Observer} {h h' : History} {p q : Option (ℤ × List ℤ)} {now : ℤ} {r : Row} {emits : Bool}
    (ht : Tracked o h) (hs : Debounced ⟨o,p,h⟩) (hh : Handled cfg now o h r emits o' h') :
    Debounced ⟨o',q,h'⟩ ↔ (emits = true → reports cfg now r = true → ∀ e ∈ r.execution,
      (e ∈ h.shown ↔ h.standing e.pid = some (e.appName,e.queryStart))) := by
  have hsame : ∀ e, e ∈ h.shown ↔ e ∈ o.executions := fun e => ⟨hs.all e,ht.known e⟩
  cases hh with
  | foreign emits hrep =>
    refine iff_of_true ⟨hs.once,hs.all⟩ fun _ hrep' => ?_
    rw [hrep] at hrep'
    cases hrep'
  | quick emits hrep =>
    refine iff_of_true ⟨hs.once,hs.all⟩ fun _ hrep' => ?_
    rw [hrep] at hrep'
    cases hrep'
  | refused => exact iff_of_true ⟨hs.once,hs.all⟩ nofun
  | held q hrep hq hprev =>
    have hstand := (ht.marked _ _ _).mp hprev
    have hexec : r.execution = some ⟨r.pid,r.appName,q⟩ := by simp [Row.execution,hq]
    simp only [hrep,hexec,Option.mem_some_iff,forall_const,forall_eq',hstand,iff_true]
    constructor
    · intro hd
      exact (hsame _).mpr (hd.all _ (by simp))
    · intro hmem
      refine ⟨hs.once,fun e he => ?_⟩
      rcases List.mem_append.mp he with he | he
      · exact hs.all e he
      · rw [List.mem_singleton.mp he]
        exact (hsame _).mp hmem
  | emitted obs hrep hnot =>
    rw [debounced_emitted hs]
    cases hq : r.queryStart with
    | none => simp [Row.execution,hq]
    | some q =>
      have hexec : r.execution = some ⟨r.pid,r.appName,q⟩ := by simp [Row.execution,hq]
      have hstand : h.standing r.pid ≠ some (r.appName,q) := fun hst => hnot q hq ((ht.marked _ _ _).mpr hst)
      simp only [hrep,hexec,Option.mem_some_iff,forall_const,forall_eq',hstand,iff_false]
      exact not_congr (hsame _).symm

theorem debounced_step (ht : Tracked s.observer s.history) (hs : Debounced s) (hst : step cfg s l = some t) :
    Debounced t ↔ Coherent cfg s l := by
  cases l with
  | queryFailed =>
    obtain ⟨-,rfl⟩ : s.poll.isNone = true ∧ s = t := by simpa [step] using hst
    exact iff_of_true hs trivial
  | query now =>
    obtain ⟨-,rfl⟩ : s.poll.isNone = true ∧ { s with poll := some (now,[]) } = t := by simpa [step] using hst
    exact iff_of_true ⟨hs.once,hs.all⟩ trivial
  | scanned x =>
    cases x with
    | failed =>
      obtain ⟨-,rfl⟩ : s.poll.isSome = true ∧ s = t := by simpa [step] using hst
      exact iff_of_true hs trivial
    | row r emits =>
      obtain ⟨p,hp,rfl⟩ := Option.map_eq_some_iff.mp hst
      rw [debounced_row ht hs handled]
      cases emits with
      | false => exact iff_of_true nofun trivial
      | true => simp only [Coherent,hp,Option.mem_some_iff,forall_eq',forall_const]
  | finish err =>
    obtain ⟨p,-,rfl⟩ := Option.map_eq_some_iff.mp hst
    exact iff_of_true ⟨hs.once,hs.all⟩ trivial

/-- Each execution that the polls show is emitted once, in every state of a run, exactly when every row that
is reported is coherent with what the polls have shown of its process. -/
theorem debounced_iff {ls : List Label} (he : exec (step cfg) init ls = some t) :
    (∀ pre post u, ls = pre ++ post → exec (step cfg) init pre = some u → Debounced u) ↔
      Along (step cfg) (Coherent cfg) init ls := by
  have htracked : ∀ pre u, exec (step cfg) init pre = some u → Tracked u.observer u.history := by
    intro pre u hu
    refine (Run.of_exec_true hu).invariant (fun s => Tracked s.observer s.history)
      (fun _ _ _ hs _ hst => tracked_step hs hst) ⟨?_,?_⟩
    · intro pid a q
      simp [init]
    · intro e he
      cases he
  have hinit : Tracked init.observer init.history ∧ Debounced init := by
    refine ⟨htracked [] init rfl,?_,?_⟩
    · exact List.nodup_nil
    · intro e he
      cases he
  rw [← forall_reached_iff (fun s => Tracked s.observer s.history ∧ Debounced s)
    (fun s l t hs hst => (and_iff_right (tracked_step hs.1 hst)).trans (debounced_step hs.1 hs.2 hst)) he hinit]
  exact forall₃_congr fun pre post u => forall₂_congr fun _ hu => (and_iff_right (htracked pre u hu)).symm

end Runs

def shopConfig : Config := ⟨100,AppNames.defaultPrefix⟩

/-- A backend process with a query that started at time zero. -/
def shopRow (waitEventType : Option GoString) : Row :=
  ⟨4711,"clv:ev_1".toList,some 0,waitEventType,none,some "UPDATE orders SET paid = true".toList⟩

def shopPoll (ms : ℤ) (waitEventType : Option GoString) : Poll := ⟨ms*1000000,[.row (shopRow waitEventType) true],false⟩

/-- The query waits for a lock, runs, and is slow. -/
def waitingThenSlow : List Label :=
  (shopPoll 10 (some "Lock".toList)).labels ++ (shopPoll 20 none).labels ++ (shopPoll 200 none).labels

/-- One execution is emitted as a lock wait and once more as a slow query. -/
theorem waiting_then_slow_emitted_twice : ∃ s ∈ exec (step shopConfig) init waitingThenSlow, ¬ Debounced s ∧
    s.observer.executions = [⟨4711,"clv:ev_1".toList,0⟩,⟨4711,"clv:ev_1".toList,0⟩] ∧
    s.observer.emitted.map (fun e => (e.2.type,e.2.observedAt)) = [(.lockWait,10000000),(.slowQuery,200000000)] := by
  have hend : ∃ s ∈ exec (step shopConfig) init waitingThenSlow,
      s.observer.executions = [⟨4711,"clv:ev_1".toList,0⟩,⟨4711,"clv:ev_1".toList,0⟩] ∧
      s.observer.emitted.map (fun e => (e.2.type,e.2.observedAt)) = [(.lockWait,10000000),(.slowQuery,200000000)] := by
    decide +kernel
  obtain ⟨s,hs,hexec,htypes⟩ := hend
  refine ⟨s,hs,fun h => ?_,hexec,htypes⟩
  have honce := h.once
  rw [hexec] at honce
  revert honce
  decide

def slowAllAlong : List Label := (shopPoll 20 none).labels ++ (shopPoll 200 none).labels ++ (shopPoll 300 none).labels

theorem debounced_iff_slowAllAlong : ∃ s ∈ exec (step shopConfig) init slowAllAlong, Debounced s ∧
    s.observer.executions = [⟨4711,"clv:ev_1".toList,0⟩] := by
  have hend : ∃ s ∈ exec (step shopConfig) init slowAllAlong,
      s.observer.executions = [⟨4711,"clv:ev_1".toList,0⟩] := by decide +kernel
  obtain ⟨s,hs,hexec⟩ := hend
  have he := Option.mem_def.mp hs
  exact ⟨s,hs,(debounced_iff he).mpr (by decide +kernel) slowAllAlong [] s (by simp) he,hexec⟩

end ObserverPolls
end Clearvoiance
