import Clearvoiance.Transition

/-! The control stream of a client in remote mode.  A stream that fails is replaced after a delay that should double
with every failure in a row; but each stream that is opened sets the attempts back, and an event of a stream that has
been replaced is taken for one of its successor. -/
namespace Clearvoiance
namespace ControlReconnect

open Transition

structure ReconnectConfig where
  initialBackoffMs : Option ℚ
  maxBackoffMs : Option ℚ

structure ClientConfig where
  remote : Bool
  reconnect : Option ReconnectConfig

def ClientConfig.initial (cfg : ClientConfig) : ℚ := (cfg.reconnect.bind (·.initialBackoffMs)).getD 500

def ClientConfig.cap (cfg : ClientConfig) : ℚ := (cfg.reconnect.bind (·.maxBackoffMs)).getD 30000

/-- A stream that was opened: whether its call is still in progress, which events are to come once it is over, and
whether one of them has come. -/
structure ControlStream where
  live : Bool
  errors : Bool
  ends : Bool
  failed : Bool
  deriving DecidableEq

/-- The fields of the client, the streams it has opened, the timers that are pending, whether the last timer found a
stream that was already open, how many streams have failed since the last message, and for each failure its number and
the delay after which its timer runs. -/
structure State where
  controlStream : Option ℕ
  controlReconnectTimer : Option ℕ
  controlReconnectAttempt : ℕ
  shuttingDown : Bool
  streams : List ControlStream
  timers : List ℕ
  created : ℕ
  overtaken : Bool
  failures : ℕ
  retries : List (ℕ × Option ℚ)
  deriving DecidableEq

def init : State := ⟨none,none,0,false,[],[],0,false,0,[]⟩

inductive Action
  | start
  | stop
  | data (k : ℕ)
  | finish (k : ℕ) (errors ends : Bool)
  | error (k : ℕ)
  | ended (k : ℕ)
  | fire (i : ℕ)
  deriving DecidableEq

variable (cfg : ClientConfig)

def openControlStream (s : State) : State :=
  if s.controlStream.isSome || s.shuttingDown then s
  else if !cfg.remote then s
  else
    { s with
      streams := s.streams ++ [⟨true,false,false,false⟩]
      controlStream := some s.streams.length
      controlReconnectAttempt := 0
      overtaken := false }

def delay (attempt : ℕ) : ℚ := min (cfg.initial*2^attempt) cfg.cap

/-- The milliseconds after which a timer of `setTimeout` runs: a delay that is below 1 or does not fit into 31 bits
becomes 1, and any other is truncated. -/
def timeout (after : ℚ) : ℚ := if after < 1 ∨ 2147483647 < after then 1 else ⌊after⌋

def scheduleControlReconnect (s : State) : State × Option ℚ :=
  if s.controlReconnectTimer.isSome || s.shuttingDown || !cfg.remote then (s,none)
  else
    ({ s with
       controlReconnectTimer := some s.created
       timers := s.timers ++ [s.created]
       created := s.created+1 },some (timeout (delay cfg s.controlReconnectAttempt)))

def clearControlReconnect (s : State) : State :=
  match s.controlReconnectTimer with
  | none => s
  | some i => { s with timers := s.timers.erase i, controlReconnectTimer := none }

/-- `cancel()` ends a call that is in progress, which then reports it. -/
def ControlStream.cancel (st : ControlStream) : ControlStream := if st.live then ⟨false,true,true,st.failed⟩ else st

def closeControlStream (s : State) : State :=
  match s.controlStream with
  | none => s
  | some k => { s with streams := s.streams.modify k ControlStream.cancel, controlStream := none }

/-- The first event of a stream counts as its failure. -/
def countFailure (s : State) (k : ℕ) (st : ControlStream) : State :=
  { s with
    streams := s.streams.set k { st with failed := true }
    failures := if st.failed then s.failures else s.failures+1 }

/-- The listener for `error` and for `end`. -/
def onFailure (s : State) (k : ℕ) (st : ControlStream) : State :=
  let counted := countFailure s k st
  if s.shuttingDown then counted
  else
    let result := scheduleControlReconnect cfg { counted with controlStream := none }
    if st.failed then result.1
    else { result.1 with retries := result.1.retries ++ [(counted.failures,result.2)] }

def step (s : State) : Action → Option State
  | .start => some (if cfg.remote then openControlStream cfg s else s)
  | .stop => some (closeControlStream (clearControlReconnect { s with shuttingDown := true }))
  | .data k =>
    match s.streams[k]? with
    | none => none
    | some st => if st.live || st.ends then some { s with failures := 0 } else none
  | .finish k errors ends =>
    match s.streams[k]? with
    | none => none
    | some st => if st.live then some { s with streams := s.streams.set k ⟨false,errors,ends,st.failed⟩ } else none
  | .error k =>
    match s.streams[k]? with
    | none => none
    | some st => if st.errors then some (onFailure cfg s k { st with errors := false }) else none
  | .ended k =>
    match s.streams[k]? with
    | none => none
    | some st => if st.ends then some (onFailure cfg s k { st with ends := false }) else none
  | .fire i =>
    if i ∈ s.timers then
      some (openControlStream cfg
        { s with
          timers := s.timers.erase i
          controlReconnectTimer := none
          controlReconnectAttempt := s.controlReconnectAttempt+1
          overtaken := true })
    else none

def Single (s : State) : Prop :=
  ∀ (i j : ℕ) (st st' : ControlStream), s.streams[i]? = some st → s.streams[j]? = some st' → st.live = true →
    st'.live = true → i = j

/-- The delay after so many failures in a row. -/
def backoff (k : ℕ) : ℚ := min (cfg.initial*2^(k-1)) cfg.cap

/-- After each failure the delay was the one for its number. -/
def Doubling (s : State) : Prop := ∀ r ∈ s.retries, r.2 = some (backoff cfg r.1)

/-- A stream reports its failure before the next one is opened. -/
def Prompt (s : State) : Action → Prop
  | .error k | .ended k => s.streams.length = k+1
  | _ => True

/-- A message has come since the last failure, or the cap makes all delays the same.  Once a timer has found a stream
that was already open, one failure without a message is counted. -/
def Level (s : State) : Prop :=
  cfg.cap ≤ cfg.initial ∨ (s.overtaken = false ∧ s.failures = 0) ∨
    (s.overtaken = true ∧ (s.failures = 1 ∨ (2 ≤ s.failures ∧ cfg.cap ≤ cfg.initial*2)))

/-- A delay that `setTimeout` keeps: a whole number of milliseconds that fits into 31 bits and is not zero. -/
def Kept (d : ℚ) : Prop := d.den = 1 ∧ 1 ≤ d ∧ d ≤ 2147483647

/-- A stream that fails while the client runs does so when no timer is pending, with few enough failures since the last
message, and the delay that is due is one that `setTimeout` keeps. -/
def Spaced (s : State) : Action → Prop
  | .error k | .ended k =>
    ∀ st ∈ s.streams[k]?, st.failed = false → s.shuttingDown = false →
      s.controlReconnectTimer = none ∧ Level cfg s ∧ Kept (backoff cfg (s.failures+1))
  | _ => True

def Whole : Prop := cfg.initial.den = 1 ∧ cfg.cap.den = 1

instance (s : State) : DecidablePred (Prompt s)
  | .error k | .ended k => inferInstanceAs (Decidable (s.streams.length = k+1))
  | .start | .stop | .data _ | .finish _ _ _ | .fire _ => .isTrue trivial

instance (s : State) : Decidable (Level cfg s) := inferInstanceAs (Decidable (_ ∨ _ ∨ _))

instance : DecidablePred Kept := fun _ => inferInstanceAs (Decidable (_ ∧ _ ∧ _))

instance (s : State) : DecidablePred (Spaced cfg s)
  | .error k | .ended k =>
    inferInstanceAs (Decidable (∀ st ∈ s.streams[k]?, st.failed = false → s.shuttingDown = false → _ ∧ _))
  | .start | .stop | .data _ | .finish _ _ _ | .fire _ => .isTrue trivial

structure Inv (s : State) : Prop where
  timer : s.timers = s.controlReconnectTimer.toList
  last : ∀ k, s.controlStream = some k → k+1 = s.streams.length
  busy : ∀ st ∈ s.streams, st.live = true → st.errors = false ∧ st.ends = false
  closed : s.shuttingDown = true → s.controlReconnectTimer = none
  pending : s.controlReconnectTimer.isSome = true → s.overtaken = true → s.controlStream = none
  attempt : s.controlReconnectAttempt = s.overtaken.toNat

/-- The stream that is live is the one that the client has. -/
def Sole (s : State) : Prop :=
  ∀ (k : ℕ) (st : ControlStream), s.streams[k]? = some st → st.live = true → s.controlStream = some k

theorem Sole.single {s : State} (h : Sole s) : Single s := by
  intro i j st st' hi hj hlive hlive'
  exact Option.some.inj ((h i st hi hlive).symm.trans (h j st' hj hlive'))

section Steps

variable {cfg} {s t : State}

theorem openControlStream_cases (hremote : cfg.remote = true) (s : State) :
    (openControlStream cfg s = s ∧ (s.controlStream.isSome = true ∨ s.shuttingDown = true)) ∨
      (s.controlStream = none ∧ s.shuttingDown = false ∧ openControlStream cfg s =
        { s with
          streams := s.streams ++ [⟨true,false,false,false⟩]
          controlStream := some s.streams.length
          controlReconnectAttempt := 0
          overtaken := false }) := by
  unfold openControlStream
  by_cases h : (s.controlStream.isSome || s.shuttingDown) = true
  · rw [if_pos h]
    exact .inl ⟨rfl,Bool.or_eq_true _ _ ▸ h⟩
  · rw [if_neg h,hremote]
    rw [Bool.or_eq_true,not_or,Bool.not_eq_true,Bool.not_eq_true,Option.isSome_eq_false_iff,
      Option.isNone_iff_eq_none] at h
    exact .inr ⟨h.1,h.2,rfl⟩

/-- A stream is opened, or one is there, in a state where the attempts may be one ahead. -/
theorem inv_open (hremote : cfg.remote = true) (htimer : s.timers = s.controlReconnectTimer.toList)
    (hlast : ∀ k, s.controlStream = some k → k+1 = s.streams.length)
    (hbusy : ∀ st ∈ s.streams, st.live = true → st.errors = false ∧ st.ends = false)
    (hclosed : s.shuttingDown = true → s.controlReconnectTimer = none)
    (hpending : s.controlReconnectTimer.isSome = true → s.overtaken = true → s.controlStream = none)
    (hattempt : s.controlStream.isSome = true ∨ s.shuttingDown = true →
      s.controlReconnectAttempt = s.overtaken.toNat) :
    Inv (openControlStream cfg s) := by
  rcases openControlStream_cases hremote s with ⟨hsame,hbound⟩ | ⟨-,-,hopen⟩
  · rw [hsame]
    exact ⟨htimer,hlast,hbusy,hclosed,hpending,hattempt hbound⟩
  · rw [hopen]
    refine ⟨htimer,fun k hk => ?_,fun st hst hlive => ?_,hclosed,fun _ h => absurd h Bool.false_ne_true,rfl⟩
    · rw [← Option.some.inj hk,List.length_append]
      rfl
    · rcases List.mem_append.mp hst with hst | hst
      · exact hbusy st hst hlive
      · rw [List.mem_singleton.mp hst]
        exact ⟨rfl,rfl⟩

theorem sole_open (hremote : cfg.remote = true) (h : Sole s) : Sole (openControlStream cfg s) := by
  rcases openControlStream_cases hremote s with ⟨hsame,-⟩ | ⟨hnone,-,hopen⟩
  · rw [hsame]
    exact h
  · rw [hopen]
    intro k st hk hlive
    rcases Nat.lt_or_ge k s.streams.length with hlt | hge
    · rw [List.getElem?_append_left hlt] at hk
      exact absurd ((h k st hk hlive).symm.trans hnone) nofun
    · rw [List.getElem?_append_right hge] at hk
      have hzero : k-s.streams.length = 0 := by
        by_contra hne
        rw [List.getElem?_eq_none (by rw [List.length_singleton]; omega)] at hk
        cases hk
      exact congrArg some (by omega)

/-- What is logged for an event of a stream. -/
def logged (cfg : ClientConfig) (s : State) (st : ControlStream) : List (ℕ × Option ℚ) :=
  if st.failed || s.shuttingDown then []
  else [(s.failures+1,if s.controlReconnectTimer.isSome then none else some (timeout (delay cfg s.controlReconnectAttempt)))]

/-- The listener drops the stream that the client has, and sets a timer if none is pending. -/
theorem onFailure_cases (hremote : cfg.remote = true) (s : State) (k : ℕ) (st : ControlStream) :
    (s.shuttingDown = true ∧ onFailure cfg s k st = countFailure s k st) ∨
      (s.shuttingDown = false ∧ s.controlReconnectTimer.isSome = true ∧ onFailure cfg s k st =
        { countFailure s k st with controlStream := none, retries := s.retries ++ logged cfg s st }) ∨
      (s.shuttingDown = false ∧ s.controlReconnectTimer = none ∧ onFailure cfg s k st =
        { countFailure s k st with
          controlStream := none
          controlReconnectTimer := some s.created
          timers := s.timers ++ [s.created]
          created := s.created+1
          retries := s.retries ++ logged cfg s st }) := by
  unfold onFailure logged scheduleControlReconnect countFailure
  cases hshut : s.shuttingDown with
  | true => exact .inl ⟨rfl,rfl⟩
  | false =>
    refine .inr ?_
    cases htimer : s.controlReconnectTimer with
    | some i =>
      refine .inl ⟨rfl,rfl,?_⟩
      cases st.failed <;> simp
    | none =>
      refine .inr ⟨rfl,rfl,?_⟩
      cases st.failed <;> simp [hremote]

theorem mem_set_of_busy {streams : List ControlStream} {k : ℕ} {st : ControlStream} (hdead : st.live = false)
    (h : ∀ st ∈ streams, st.live = true → st.errors = false ∧ st.ends = false) :
    ∀ u ∈ streams.set k st, u.live = true → u.errors = false ∧ u.ends = false := by
  intro u hu hlive
  rcases List.mem_or_eq_of_mem_set hu with hu | rfl
  · exact h u hu hlive
  · rw [hdead] at hlive
    cases hlive

theorem inv_onFailure (hremote : cfg.remote = true) (h : Inv s) (k : ℕ) {st : ControlStream}
    (hdead : st.live = false) :
    Inv (onFailure cfg s k st) := by
  have hlast : ∀ j, s.controlStream = some j → j+1 = (s.streams.set k { st with failed := true }).length := by
    intro j hj
    rw [List.length_set]
    exact h.last j hj
  have hbusy : ∀ u ∈ s.streams.set k { st with failed := true }, u.live = true → u.errors = false ∧ u.ends = false :=
    mem_set_of_busy hdead h.busy
  rcases onFailure_cases hremote s k st with ⟨-,heq⟩ | ⟨hrun,-,heq⟩ | ⟨hrun,htimer,heq⟩
  · rw [heq]
    exact ⟨h.timer,hlast,hbusy,h.closed,h.pending,h.attempt⟩
  · rw [heq]
    exact ⟨h.timer,nofun,hbusy,h.closed,fun _ _ => rfl,h.attempt⟩
  · rw [heq]
    refine ⟨?_,nofun,hbusy,fun hshut => absurd (hrun.symm.trans hshut) nofun,fun _ _ => rfl,h.attempt⟩
    have hempty := h.timer
    rw [htimer] at hempty
    simp [hempty]

theorem sole_onFailure (hremote : cfg.remote = true) (h : Sole s) (hInv : Inv s) {k : ℕ} {st : ControlStream}
    (hdead : st.live = false) (hprompt : s.streams.length = k+1) : Sole (onFailure cfg s k st) := by
  have hnone : ∀ (j : ℕ) (u : ControlStream), (s.streams.set k { st with failed := true })[j]? = some u →
      u.live = false := by
    intro j u hj
    by_cases hjk : k = j
    · rw [← hjk,List.getElem?_set_self (by omega)] at hj
      rw [← Option.some.inj hj]
      exact hdead
    · rw [List.getElem?_set_ne hjk] at hj
      rw [← Bool.not_eq_true]
      intro hlive
      have := hInv.last j (h j u hj hlive)
      omega
  have hstreams : (onFailure cfg s k st).streams = s.streams.set k { st with failed := true } := by
    rcases onFailure_cases hremote s k st with ⟨-,heq⟩ | ⟨-,-,heq⟩ | ⟨-,-,heq⟩ <;> rw [heq] <;> rfl
  intro j u hj hlive
  rw [hstreams] at hj
  rw [hnone j u hj] at hlive
  cases hlive

theorem retries_onFailure (hremote : cfg.remote = true) (s : State) (k : ℕ) (st : ControlStream) :
    (onFailure cfg s k st).retries = s.retries ++ logged cfg s st := by
  rcases onFailure_cases hremote s k st with ⟨hshut,heq⟩ | ⟨-,-,heq⟩ | ⟨-,-,heq⟩
  · rw [heq,logged,hshut,Bool.or_true,if_pos rfl,List.append_nil]
    rfl
  · rw [heq]
  · rw [heq]

inductive Stepped (cfg : ClientConfig) (s : State) : Action → State → Prop
  | start : Stepped cfg s .start (openControlStream cfg s)
  | stop : Stepped cfg s .stop (closeControlStream (clearControlReconnect { s with shuttingDown := true }))
  | data (k : ℕ) : Stepped cfg s (.data k) { s with failures := 0 }
  | finish {k : ℕ} {st : ControlStream} (errors ends : Bool) (hk : s.streams[k]? = some st) (hlive : st.live = true) :
    Stepped cfg s (.finish k errors ends) { s with streams := s.streams.set k ⟨false,errors,ends,st.failed⟩ }
  | event {a : Action} {k : ℕ} {st st' : ControlStream} (ha : a = .error k ∨ a = .ended k)
    (hk : s.streams[k]? = some st) (hdue : st.errors = true ∨ st.ends = true) (hlive : st'.live = st.live)
    (hfailed : st'.failed = st.failed) : Stepped cfg s a (onFailure cfg s k st')
  | fire {i : ℕ} (hi : i ∈ s.timers) : Stepped cfg s (.fire i)
      (openControlStream cfg
        { s with
          timers := s.timers.erase i
          controlReconnectTimer := none
          controlReconnectAttempt := s.controlReconnectAttempt+1
          overtaken := true })

theorem stepped (hremote : cfg.remote = true) {a : Action} (h : step cfg s a = some t) : Stepped cfg s a t := by
  cases a with
  | start =>
    rw [step,hremote,if_pos rfl,Option.some.injEq] at h
    exact h ▸ .start
  | stop => exact Option.some.inj h ▸ .stop
  | data k =>
    rw [step] at h
    split at h
    · cases h
    · split_ifs at h
      exact Option.some.inj h ▸ .data k
  | finish k errors ends =>
    rw [step] at h
    split at h
    · cases h
    · rename_i st hk
      split_ifs at h with hlive
      exact Option.some.inj h ▸ .finish errors ends hk hlive
  | error k =>
    rw [step] at h
    split at h
    · cases h
    · rename_i st hk
      split_ifs at h with hdue
      exact Option.some.inj h ▸ .event (.inl rfl) hk (.inl hdue) rfl rfl
  | ended k =>
    rw [step] at h
    split at h
    · cases h
    · rename_i st hk
      split_ifs at h with hdue
      exact Option.some.inj h ▸ .event (.inr rfl) hk (.inr hdue) rfl rfl
  | fire i =>
    rw [step] at h
    split_ifs at h with hi
    exact Option.some.inj h ▸ .fire hi

theorem live_cancel (st : ControlStream) : st.cancel.live = false := by
  cases hlive : st.live <;> simp [ControlStream.cancel,hlive]

/-- What the client has is over once it has been stopped. -/
structure Stopped (s t : State) : Prop where
  shuttingDown : t.shuttingDown = true
  timer : t.controlReconnectTimer = none
  timers : t.timers = []
  controlStream : t.controlStream = none
  attempt : t.controlReconnectAttempt = s.controlReconnectAttempt
  overtaken : t.overtaken = s.overtaken
  retries : t.retries = s.retries
  streams : ∀ (k : ℕ) (st : ControlStream), t.streams[k]? = some st → st.live = true →
    s.streams[k]? = some st ∧ s.controlStream ≠ some k

theorem stopped (h : Inv s) :
    Stopped s (closeControlStream (clearControlReconnect { s with shuttingDown := true })) := by
  have htimers := h.timer
  obtain ⟨u,hu,hclear⟩ : ∃ u, clearControlReconnect { s with shuttingDown := true } = u ∧
      u = { s with shuttingDown := true, controlReconnectTimer := none, timers := [] } := by
    refine ⟨_,rfl,?_⟩
    unfold clearControlReconnect
    cases htimer : s.controlReconnectTimer with
    | none =>
      rw [htimer] at htimers
      simp [htimers]
    | some i =>
      rw [htimer] at htimers
      simp [htimers]
  rw [hu,hclear,closeControlStream]
  cases hstream : s.controlStream with
  | none => exact ⟨rfl,rfl,rfl,rfl,rfl,rfl,rfl,fun k st hk _ => ⟨hk,fun heq => nomatch hstream.symm.trans heq⟩⟩
  | some k =>
    refine ⟨rfl,rfl,rfl,rfl,rfl,rfl,rfl,fun j st hj hlive => ?_⟩
    rw [List.getElem?_modify,Option.map_eq_map,Option.map_eq_some_iff] at hj
    obtain ⟨v,hv,hst⟩ := hj
    split_ifs at hst with hjk
    · rw [← hst,live_cancel] at hlive
      cases hlive
    · exact ⟨hst ▸ hv,fun heq => hjk (Option.some.inj (hstream.symm.trans heq))⟩

theorem Inv.dead (h : Inv s) {k : ℕ} {st : ControlStream} (hk : s.streams[k]? = some st)
    (hdue : st.errors = true ∨ st.ends = true) : st.live = false := by
  rw [← Bool.not_eq_true]
  intro hlive
  obtain ⟨herrors,hends⟩ := h.busy st (List.mem_of_getElem? hk) hlive
  rcases hdue with hdue | hdue
  · exact absurd (herrors.symm.trans hdue) nofun
  · exact absurd (hends.symm.trans hdue) nofun

theorem step_inv (hremote : cfg.remote = true) (h : Inv s) {a : Action} (hstep : step cfg s a = some t) : Inv t := by
  cases stepped hremote hstep with
  | start => exact inv_open hremote h.timer h.last h.busy h.closed h.pending fun _ => h.attempt
  | stop =>
    have hstop := stopped h
    refine ⟨?_,fun k hk => ?_,fun st hst hlive => ?_,fun _ => hstop.timer,fun _ _ => hstop.controlStream,?_⟩
    · rw [hstop.timers,hstop.timer]
      rfl
    · rw [hstop.controlStream] at hk
      cases hk
    · obtain ⟨k,hk⟩ := List.getElem?_of_mem hst
      exact h.busy st (List.mem_of_getElem? (hstop.streams k st hk hlive).1) hlive
    · rw [hstop.attempt,hstop.overtaken]
      exact h.attempt
  | data k => exact ⟨h.timer,h.last,h.busy,h.closed,h.pending,h.attempt⟩
  | finish errors ends hk hlive =>
    refine ⟨h.timer,fun j hj => ?_,mem_set_of_busy rfl h.busy,h.closed,h.pending,h.attempt⟩
    rw [List.length_set]
    exact h.last j hj
  | event ha hk hdue hlive hfailed => exact inv_onFailure hremote h _ (hlive.trans (h.dead hk hdue))
  | @fire i hi =>
    have htimer : s.controlReconnectTimer = some i := by
      rw [h.timer] at hi
      exact Option.mem_toList.mp hi
    refine inv_open hremote ?_ h.last h.busy (fun _ => rfl) nofun ?_
    · rw [h.timer,htimer]
      simp
    · intro hbound
      have hattempt := h.attempt
      have hpending := h.pending (by rw [htimer]; rfl)
      rcases hbound with hbound | hbound
      · cases hover : s.overtaken with
        | true =>
          rw [hpending hover] at hbound
          cases hbound
        | false => rw [hattempt,hover]; rfl
      · rw [h.closed hbound] at htimer
        cases htimer

theorem step_sole (hremote : cfg.remote = true) (hInv : Inv s) (h : Sole s) {a : Action} (hprompt : Prompt s a)
    (hstep : step cfg s a = some t) : Sole t := by
  cases stepped hremote hstep with
  | start => exact sole_open hremote h
  | stop =>
    intro k st hk hlive
    obtain ⟨hk',hne⟩ := (stopped hInv).streams k st hk hlive
    exact absurd (h k st hk' hlive) hne
  | data k => exact h
  | @finish k st errors ends hk hlive =>
    intro j u hj hu
    by_cases hjk : k = j
    · rw [← hjk,List.getElem?_set_self (List.getElem?_eq_some_iff.mp hk).1] at hj
      rw [← Option.some.inj hj] at hu
      cases hu
    · rw [List.getElem?_set_ne hjk] at hj
      exact h j u hj hu
  | @event _ k st st' ha hk hdue hlive hfailed =>
    have hlast : s.streams.length = k+1 := by
      rcases ha with rfl | rfl
      · exact hprompt
      · exact hprompt
    exact sole_onFailure hremote h hInv (hlive.trans (hInv.dead hk hdue)) hlast
  | fire hi => exact sole_open hremote h

theorem timeout_of_kept {d : ℚ} (h : Kept d) : timeout d = d := by
  obtain ⟨hwhole,hlow,hhigh⟩ := h
  have hrange : ¬ (d < 1 ∨ 2147483647 < d) := by
    push Not
    exact ⟨hlow,hhigh⟩
  rw [timeout,if_neg hrange,← (Rat.den_eq_one_iff d).mp hwhole,Int.floor_intCast]

theorem min_mul_eq_iff {x c : ℚ} (hx : 0 < x) {p q : ℕ} (hpq : p < q) :
    min (x*2^p) c = min (x*2^q) c ↔ c ≤ x*2^p := by
  have hlt : x*2^p < x*2^q := mul_lt_mul_of_pos_left (pow_lt_pow_right₀ (by norm_num) hpq) hx
  constructor
  · intro h
    by_contra hc
    rw [min_eq_left (not_le.mp hc).le] at h
    rcases min_choice (x*2^q) c with hq | hq
    · exact absurd (h.trans hq) hlt.ne
    · exact absurd (h.trans hq) (not_le.mp hc).ne
  · intro h
    rw [min_eq_right h,min_eq_right (h.trans hlt.le)]

/-- For a positive setting the delay is the one for the failure exactly when the failures are few enough. -/
theorem delay_eq_backoff_iff {s : State} (h : Inv s) (hpos : 0 < cfg.initial) :
    delay cfg s.controlReconnectAttempt = backoff cfg (s.failures+1) ↔ Level cfg s := by
  rw [delay,backoff,Nat.add_sub_cancel,h.attempt,Level]
  cases s.overtaken with
  | false =>
    rw [Bool.toNat_false]
    rcases Nat.eq_zero_or_pos s.failures with hzero | hsome
    · simp [hzero]
    · rw [min_mul_eq_iff hpos hsome,pow_zero,mul_one]
      simp [hsome.ne']
  | true =>
    rw [Bool.toNat_true]
    rcases Nat.lt_trichotomy s.failures 1 with hzero | hone | htwo
    · rw [eq_comm,Nat.lt_one_iff.mp hzero,min_mul_eq_iff hpos Nat.zero_lt_one]
      simp
    · simp [hone]
    · rw [min_mul_eq_iff hpos htwo,pow_one]
      have hle : cfg.cap ≤ cfg.initial → cfg.cap ≤ cfg.initial*2 := fun hc => hc.trans (by linarith)
      constructor
      · exact fun hc => .inr (.inr ⟨rfl,.inr ⟨htwo,hc⟩⟩)
      · rintro (hc | ⟨hfalse,-⟩ | ⟨-,hone | ⟨-,hc⟩⟩)
        · exact hle hc
        · cases hfalse
        · omega
        · exact hc

theorem backoff_pos {k : ℕ} (h : Kept (backoff cfg k)) : 0 < cfg.initial := by
  have hone : 0 < backoff cfg k := zero_lt_one.trans_le h.2.1
  by_contra hneg
  have hle : cfg.initial*2^(k-1) ≤ 0 := mul_nonpos_of_nonpos_of_nonneg (not_lt.mp hneg) (by positivity)
  exact absurd ((min_le_left _ _).trans hle) (not_le.mpr hone)

theorem timeout_intCast (d : ℤ) : timeout d = ((if d < 1 ∨ 2147483647 < d then 1 else d : ℤ) : ℚ) := by
  have hrange : ((d : ℚ) < 1 ∨ (2147483647 : ℚ) < d) ↔ (d < 1 ∨ 2147483647 < d) := by norm_cast
  rw [timeout,Int.floor_intCast]
  simp only [hrange]
  split_ifs <;> norm_num

/-- With whole settings a timer runs after the delay that is due only if that is the delay it was set to. -/
theorem kept_of_timeout (hwhole : Whole cfg) {a f : ℕ} (ha : a ≤ 1)
    (heq : timeout (delay cfg a) = backoff cfg (f+1)) :
    Kept (backoff cfg (f+1)) ∧ delay cfg a = backoff cfg (f+1) := by
  obtain ⟨m,hm⟩ : ∃ m : ℤ, cfg.initial = m := ⟨_,((Rat.den_eq_one_iff _).mp hwhole.1).symm⟩
  obtain ⟨n,hn⟩ : ∃ n : ℤ, cfg.cap = n := ⟨_,((Rat.den_eq_one_iff _).mp hwhole.2).symm⟩
  have hdelay : delay cfg a = ((min (m*2^a) n : ℤ) : ℚ) := by
    rw [delay,hm,hn]
    push_cast
    rfl
  have hbackoff : backoff cfg (f+1) = ((min (m*2^f) n : ℤ) : ℚ) := by
    rw [backoff,hm,hn,Nat.add_sub_cancel]
    push_cast
    rfl
  rw [hdelay,hbackoff,timeout_intCast,Int.cast_inj] at heq
  split_ifs at heq with hout
  · exfalso
    have hm : 1 ≤ m := by
      by_contra hneg
      have := mul_nonpos_of_nonpos_of_nonneg (show m ≤ 0 by omega) (pow_nonneg (show (0 : ℤ) ≤ 2 by omega) f)
      omega
    have htwo : m*2^a ≤ m*2 ∧ m ≤ m*2^a := by
      interval_cases a <;> omega
    have hlow : m ≤ m*2^f := le_mul_of_one_le_right (by omega) (one_le_pow₀ (by omega))
    omega
  · rw [hdelay,hbackoff,← heq]
    rw [not_or,not_lt,not_lt] at hout
    exact ⟨⟨Rat.den_intCast _,by exact_mod_cast hout.1,by exact_mod_cast hout.2⟩,rfl⟩

/-- The timer of a failure runs after the delay that is due, if the failures are few enough and `setTimeout` keeps the
delay; with whole settings there is no other way. -/
theorem timeout_eq_backoff_of {s : State} (h : Inv s) (hlevel : Level cfg s)
    (hkept : Kept (backoff cfg (s.failures+1))) :
    timeout (delay cfg s.controlReconnectAttempt) = backoff cfg (s.failures+1) := by
  rw [(delay_eq_backoff_iff h (backoff_pos hkept)).mpr hlevel,timeout_of_kept hkept]

theorem timeout_eq_backoff_iff (hwhole : Whole cfg) {s : State} (h : Inv s) :
    timeout (delay cfg s.controlReconnectAttempt) = backoff cfg (s.failures+1) ↔
      Level cfg s ∧ Kept (backoff cfg (s.failures+1)) := by
  constructor
  · intro heq
    have hattempt : s.controlReconnectAttempt ≤ 1 := h.attempt ▸ Bool.toNat_le _
    obtain ⟨hkept,hdelay⟩ := kept_of_timeout hwhole hattempt heq
    exact ⟨(delay_eq_backoff_iff h (backoff_pos hkept)).mp hdelay,hkept⟩
  · exact fun hboth => timeout_eq_backoff_of h hboth.1 hboth.2

/-- A stream that fails sets a timer that runs after the delay that is due. -/
def Timely (cfg : ClientConfig) (s : State) : Action → Prop
  | .error k | .ended k =>
    ∀ st ∈ s.streams[k]?, st.failed = false → s.shuttingDown = false →
      s.controlReconnectTimer = none ∧ timeout (delay cfg s.controlReconnectAttempt) = backoff cfg (s.failures+1)
  | _ => True

theorem Spaced.timely {a : Action} (h : Inv s) (hspaced : Spaced cfg s a) : Timely cfg s a := by
  cases a with
  | error k | ended k =>
    intro st hst hfirst hrun
    obtain ⟨htimer,hlevel,hkept⟩ := hspaced st hst hfirst hrun
    exact ⟨htimer,timeout_eq_backoff_of h hlevel hkept⟩
  | _ => trivial

theorem Timely.spaced {a : Action} (hwhole : Whole cfg) (h : Inv s) (htimely : Timely cfg s a) : Spaced cfg s a := by
  cases a with
  | error k | ended k =>
    intro st hst hfirst hrun
    obtain ⟨htimer,heq⟩ := htimely st hst hfirst hrun
    exact ⟨htimer,(timeout_eq_backoff_iff hwhole h).mp heq⟩
  | _ => trivial

theorem logged_iff (s : State) (st : ControlStream) :
    (∀ r ∈ logged cfg s st, r.2 = some (backoff cfg r.1)) ↔
      (st.failed = false → s.shuttingDown = false → s.controlReconnectTimer = none ∧
        timeout (delay cfg s.controlReconnectAttempt) = backoff cfg (s.failures+1)) := by
  unfold logged
  cases st.failed with
  | true => simp
  | false =>
    cases s.shuttingDown with
    | true => simp
    | false => cases s.controlReconnectTimer <;> simp

theorem step_doubling (hremote : cfg.remote = true) (h : Inv s) {a : Action} (hstep : step cfg s a = some t) :
    Doubling cfg t ↔ Doubling cfg s ∧ Timely cfg s a := by
  have hsame : t.retries = s.retries → Timely cfg s a → (Doubling cfg t ↔ Doubling cfg s ∧ Timely cfg s a) := by
    intro hretries htimely
    rw [Doubling,hretries]
    exact ⟨fun h => ⟨h,htimely⟩,fun h => h.1⟩
  cases stepped hremote hstep with
  | start =>
    refine hsame ?_ trivial
    rcases openControlStream_cases hremote s with ⟨heq,-⟩ | ⟨-,-,heq⟩ <;> rw [heq]
  | stop => exact hsame (stopped h).retries trivial
  | data k => exact hsame rfl trivial
  | finish errors ends hk hlive => exact hsame rfl trivial
  | @event _ k st st' ha hk hdue hlive hfailed =>
    have htimely : Timely cfg s a ↔
        (st'.failed = false → s.shuttingDown = false → s.controlReconnectTimer = none ∧
          timeout (delay cfg s.controlReconnectAttempt) = backoff cfg (s.failures+1)) := by
      rw [hfailed]
      rcases ha with rfl | rfl <;> simp [Timely,hk]
    rw [htimely,← logged_iff,Doubling,retries_onFailure hremote,List.forall_mem_append]
    rfl
  | fire hi =>
    refine hsame ?_ trivial
    rcases openControlStream_cases hremote _ with ⟨heq,-⟩ | ⟨-,-,heq⟩ <;> rw [heq]

end Steps

def remoteConfig : ClientConfig := ⟨true,none⟩

def talkingRun : List Action :=
  [.start,.data 0,.finish 0 true true,.error 0,.ended 0,.fire 0,.data 1,.finish 1 false true,.ended 1]

/-- Two failures in a row: the second stream fails as the first did. -/
def failingRun : List Action :=
  [.start,.finish 0 true true,.error 0,.ended 0,.fire 0,.finish 1 true true,.error 1]

/-- The end of the first stream comes when the second is open. -/
def lateRun : List Action := [.start,.finish 0 true true,.error 0,.fire 0,.ended 0,.fire 1]

end ControlReconnect
end Clearvoiance
