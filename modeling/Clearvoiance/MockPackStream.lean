import Clearvoiance.MockPack
import Clearvoiance.Transition

/-! Building a mock pack from the stream of a session.  A goroutine reads the session's rows into a
buffered channel and reports at most one error on a second channel, which it closes before the first;
the builder selects between the two channels, so that an error may overtake events that are still
buffered and the closed error channel stays ready.  A label is one scheduling decision. -/
namespace Clearvoiance
namespace MockPackStream

open Transition MockPack

/-- What one row of the result set turns out to be. -/
inductive Row
  | event (ev : CapturedEvent)
  | scanFails (e : String)
  | undecodable (e : String)
  deriving DecidableEq

/-- The stored session as the query meets it: the rows, and what `rows.Err` says after the last. -/
structure Session where
  queryErr : Option String
  rows : List Row
  rowsErr : Option String
  deriving DecidableEq

inductive ReadError
  | query (e : String)
  | scan (e : String)
  | unmarshal (e : String)
  | rows (e : String)
  deriving DecidableEq

/-- What `BuildMockPack` returns: an error met by the loop is wrapped, one drained at the end is not. -/
inductive PackError
  | wrapped (e : ReadError)
  | plain (e : ReadError)
  deriving DecidableEq

/-- The goroutine of `ReadSession`; the deferred calls close the error channel first. -/
inductive Reader
  | query
  | next (rows : List Row)
  | send (ev : CapturedEvent) (rows : List Row)
  | report (e : ReadError)
  | closeErrs
  | closeEvents
  | done
  deriving DecidableEq

inductive Builder
  | selecting
  | draining
  | returned (r : Option PackError)
  deriving DecidableEq

structure State where
  session : Session
  reader : Reader
  events : List CapturedEvent
  eventsClosed : Bool
  errs : List ReadError
  errsClosed : Bool
  builder : Builder
  emitted : List PackEntry
  deriving DecidableEq

def eventsCap : ℕ := 256

def errsCap : ℕ := 1

def init (session : Session) : State := ⟨session,.query,[],false,[],false,.selecting,[]⟩

/-- `recvErr`, `recvNil` and `recvEvent` are what the builder's `select` may do; `recvNil` is the receive
from the closed error channel. -/
inductive Label
  | read
  | recvErr
  | recvNil
  | recvEvent
  | drain
  deriving DecidableEq

def afterRow (rows : List Row) : Row → Reader
  | .event ev => .send ev rows
  | .scanFails e => .report (.scan e)
  | .undecodable e => .report (.unmarshal e)

/-- The next step of the reading goroutine; `none` while a send blocks. -/
def readStep (s : State) : Option State :=
  match s.reader with
  | .query =>
    match s.session.queryErr with
    | some e => some { s with reader := .report (.query e) }
    | none => some { s with reader := .next s.session.rows }
  | .next [] =>
    match s.session.rowsErr with
    | some e => some { s with reader := .report (.rows e) }
    | none => some { s with reader := .closeErrs }
  | .next (row :: rows) => some { s with reader := afterRow rows row }
  | .send ev rows =>
    if s.events.length < eventsCap then some { s with events := s.events ++ [ev], reader := .next rows } else none
  | .report e =>
    if s.errs.length < errsCap then some { s with errs := s.errs ++ [e], reader := .closeErrs } else none
  | .closeErrs => some { s with errsClosed := true, reader := .closeEvents }
  | .closeEvents => some { s with eventsClosed := true, reader := .done }
  | .done => none

def step (s : State) : Label → Option State
  | .read => readStep s
  | .recvErr =>
    match s.builder,s.errs with
    | .selecting,e :: errs => some { s with errs := errs, builder := .returned (some (.wrapped e)) }
    | _,_ => none
  | .recvNil => if s.builder = .selecting ∧ s.errs = [] ∧ s.errsClosed = true then some s else none
  | .recvEvent =>
    match s.builder,s.events with
    | .selecting,ev :: events => some { s with events := events, emitted := s.emitted ++ (entryFromEvent ev).toList }
    | .selecting,[] => if s.eventsClosed then some { s with builder := .draining } else none
    | _,_ => none
  | .drain =>
    match s.builder,s.errs with
    | .draining,e :: errs => some { s with errs := errs, builder := .returned (some (.plain e)) }
    | .draining,[] => some { s with builder := .returned none }
    | _,_ => none

def Row.captured : Row → Option CapturedEvent
  | .event ev => some ev
  | _ => none

/-- The events of the session, in the order of the rows. -/
def Session.events (session : Session) : List CapturedEvent := session.rows.filterMap Row.captured

/-- The error, if any, that reading these rows ends with. -/
def failure (rowsErr : Option String) : List Row → Option ReadError
  | [] => rowsErr.map .rows
  | .event _ :: rows => failure rowsErr rows
  | .scanFails e :: _ => some (.scan e)
  | .undecodable e :: _ => some (.unmarshal e)

/-- The events before the first row that cannot be read. -/
def readable : List Row → List CapturedEvent
  | .event ev :: rows => ev :: readable rows
  | _ => []

/-- The error that the producer of this session reports. -/
def Session.error (session : Session) : Option ReadError :=
  match session.queryErr with
  | some e => some (.query e)
  | none => failure session.rowsErr session.rows

def Session.pack (session : Session) : List PackEntry := session.events.filterMap entryFromEvent

def Session.sent (session : Session) : List CapturedEvent :=
  match session.queryErr with
  | some _ => []
  | none => readable session.rows

theorem readable_prefix (rows : List Row) : readable rows <+: rows.filterMap Row.captured := by
  induction rows with
  | nil => exact List.prefix_refl _
  | cons row rows ih =>
    cases row with
    | event ev => simpa [readable,Row.captured] using ih
    | scanFails e => exact List.nil_prefix
    | undecodable e => exact List.nil_prefix

theorem sent_isInitial (session : Session) : session.sent <+: session.events := by
  unfold Session.sent Session.events
  cases session.queryErr with
  | some e => exact List.nil_prefix
  | none => exact readable_prefix session.rows

theorem readable_of_failure_none {rowsErr : Option String} {rows : List Row} (h : failure rowsErr rows = none) :
    readable rows = rows.filterMap Row.captured := by
  induction rows with
  | nil => rfl
  | cons row rows ih =>
    cases row with
    | event ev => simpa [readable,Row.captured] using ih h
    | scanFails e => cases h
    | undecodable e => cases h

theorem sent_of_error_none {session : Session} (h : session.error = none) : session.sent = session.events := by
  unfold Session.error at h
  unfold Session.sent Session.events
  cases hq : session.queryErr with
  | some e => simp [hq] at h
  | none => exact readable_of_failure_none (by simpa [hq] using h)

def Reader.left (session : Session) : Reader → List CapturedEvent
  | .query => session.sent
  | .next rows => readable rows
  | .send ev rows => ev :: readable rows
  | _ => []

def Reader.error (session : Session) : Reader → Option ReadError
  | .query => session.error
  | .next rows | .send _ rows => failure session.rowsErr rows
  | .report e => some e
  | _ => none

def PackError.cause : PackError → ReadError
  | .wrapped e | .plain e => e

def Builder.told : Builder → Option ReadError
  | .returned r => r.map PackError.cause
  | _ => none

/-- Every event of the producer is emitted, buffered or still to come, and so is its error. -/
structure Sound (s : State) : Prop where
  content : s.emitted ++ (s.events ++ s.reader.left s.session).filterMap entryFromEvent =
    s.session.sent.filterMap entryFromEvent
  error : s.builder.told.toList ++ s.errs ++ (s.reader.error s.session).toList = s.session.error.toList
  errsClosed : s.errsClosed = true ↔ s.reader = .closeEvents ∨ s.reader = .done
  eventsClosed : s.eventsClosed = true ↔ s.reader = .done
  drained : s.builder = .draining ∨ s.builder = .returned none → s.events = [] ∧ s.reader = .done
  returned : s.builder = .returned none → s.errs = []

theorem sound_init (session : Session) : Sound (init session) :=
  ⟨by simp [init,Reader.left],by simp [init,Builder.told,Reader.error],by simp [init],by simp [init],
    by simp [init],by simp [init]⟩

theorem left_afterRow (session : Session) (row : Row) (rows : List Row) :
    (afterRow rows row).left session = readable (row :: rows) := by
  cases row <;> rfl

theorem error_afterRow (session : Session) (row : Row) (rows : List Row) :
    (afterRow rows row).error session = failure session.rowsErr (row :: rows) := by
  cases row <;> rfl

/-- A step of the goroutine moves what it has left and its error, and closes the channels in order. -/
theorem readStep_cases {s t : State} (h : readStep s = some t) :
    t.session = s.session ∧ t.builder = s.builder ∧ t.emitted = s.emitted ∧ s.reader ≠ .done ∧
    (∃ new, t.events = s.events ++ new ∧ s.reader.left s.session = new ++ t.reader.left s.session) ∧
    (∃ new, t.errs = s.errs ++ new ∧
      (s.reader.error s.session).toList = new ++ (t.reader.error s.session).toList) ∧
    (t.errsClosed = true ↔ s.errsClosed = true ∨ t.reader = .closeEvents) ∧
    (t.reader = .done → s.reader = .closeEvents) ∧ (s.reader = .closeEvents → t.reader = .done) ∧
    (t.eventsClosed = true ↔ s.eventsClosed = true ∨ t.reader = .done) := by
  cases hr : s.reader with
  | query =>
    cases hq : s.session.queryErr with
    | some e =>
      simp only [readStep,hr,hq,Option.some.injEq] at h
      subst h
      simp [Reader.left,Reader.error,Session.sent,Session.error,hq]
    | none =>
      simp only [readStep,hr,hq,Option.some.injEq] at h
      subst h
      simp [Reader.left,Reader.error,Session.sent,Session.error,hq]
  | next rows =>
    cases rows with
    | nil =>
      cases he : s.session.rowsErr with
      | some e =>
        simp only [readStep,hr,he,Option.some.injEq] at h
        subst h
        simp [Reader.left,Reader.error,readable,failure,he]
      | none =>
        simp only [readStep,hr,he,Option.some.injEq] at h
        subst h
        simp [Reader.left,Reader.error,readable,failure,he]
    | cons row rows =>
      simp only [readStep,hr,Option.some.injEq] at h
      subst h
      have hpc : afterRow rows row ≠ .closeEvents ∧ afterRow rows row ≠ .done := by
        cases row <;> simp [afterRow]
      have hleft := left_afterRow s.session row rows
      have herr := error_afterRow s.session row rows
      exact ⟨rfl,rfl,rfl,by simp,⟨[],by simp,hleft.symm⟩,⟨[],by simp,congrArg Option.toList herr.symm⟩,
        by simp [hpc.1],by simp [hpc.2],by simp,by simp [hpc.2]⟩
  | send ev rows =>
    simp only [readStep,hr,Option.ite_none_right_eq_some,Option.some.injEq] at h
    obtain ⟨-,rfl⟩ := h
    simp [Reader.left,Reader.error]
  | report e =>
    simp only [readStep,hr,Option.ite_none_right_eq_some,Option.some.injEq] at h
    obtain ⟨-,rfl⟩ := h
    simp [Reader.left,Reader.error]
  | closeErrs =>
    simp only [readStep,hr,Option.some.injEq] at h
    subst h
    simp [Reader.left,Reader.error]
  | closeEvents =>
    simp only [readStep,hr,Option.some.injEq] at h
    subst h
    simp [Reader.left,Reader.error]
  | done => simp [readStep,hr] at h

theorem sound_read {s t : State} (hs : Sound s) (h : readStep s = some t) : Sound t := by
  obtain ⟨hsess,hbuilder,hemitted,hdone,⟨sent,hevents,hleft⟩,⟨reported,herrs,herror⟩,hec,hback,hforth,hvc⟩ :=
    readStep_cases h
  have hdrained : ¬ (s.builder = .draining ∨ s.builder = .returned none) := fun hd => hdone (hs.drained hd).2
  have hclosing : s.reader = .closeEvents ↔ t.reader = .done := ⟨hforth,hback⟩
  refine ⟨?_,?_,?_,?_,?_,?_⟩
  · rw [hsess,hemitted,hevents,List.append_assoc,← hleft]
    exact hs.content
  · rw [hsess,hbuilder,herrs,← hs.error,herror]
    simp [List.append_assoc]
  · rw [hec,hs.errsClosed,hclosing,or_iff_left hdone]
    exact or_comm
  · rw [hvc,hs.eventsClosed,or_iff_right hdone]
  · rw [hbuilder]
    exact fun hd => absurd hd hdrained
  · rw [hbuilder]
    exact fun hd => absurd (.inr hd) hdrained

theorem step_cases {s t : State} {l : Label} (h : step s l = some t) :
    (l = .read ∧ readStep s = some t) ∨
    (l = .recvNil ∧ t = s) ∨
    (∃ e errs, l = .recvErr ∧ s.builder = .selecting ∧ s.errs = e :: errs ∧
      t = { s with errs := errs, builder := .returned (some (.wrapped e)) }) ∨
    (∃ ev events, l = .recvEvent ∧ s.builder = .selecting ∧ s.events = ev :: events ∧
      t = { s with events := events, emitted := s.emitted ++ (entryFromEvent ev).toList }) ∨
    (l = .recvEvent ∧ s.builder = .selecting ∧ s.events = [] ∧ s.eventsClosed = true ∧
      t = { s with builder := .draining }) ∨
    (∃ e errs, l = .drain ∧ s.builder = .draining ∧ s.errs = e :: errs ∧
      t = { s with errs := errs, builder := .returned (some (.plain e)) }) ∨
    (l = .drain ∧ s.builder = .draining ∧ s.errs = [] ∧ t = { s with builder := .returned none }) := by
  cases l with
  | read => exact .inl ⟨rfl,h⟩
  | recvNil =>
    simp only [step,Option.ite_none_right_eq_some,Option.some.injEq] at h
    exact .inr (.inl ⟨rfl,h.2.symm⟩)
  | recvErr =>
    simp only [step] at h
    split at h
    · cases h
      exact .inr (.inr (.inl ⟨_,_,rfl,‹_›,‹_›,rfl⟩))
    · cases h
  | recvEvent =>
    simp only [step] at h
    split at h
    · cases h
      exact .inr (.inr (.inr (.inl ⟨_,_,rfl,‹_›,‹_›,rfl⟩)))
    · simp only [Option.ite_none_right_eq_some,Option.some.injEq] at h
      exact .inr (.inr (.inr (.inr (.inl ⟨rfl,‹_›,‹_›,h.1,h.2.symm⟩))))
    · cases h
  | drain =>
    simp only [step] at h
    split at h
    · cases h
      exact .inr (.inr (.inr (.inr (.inr (.inl ⟨_,_,rfl,‹_›,‹_›,rfl⟩)))))
    · cases h
      exact .inr (.inr (.inr (.inr (.inr (.inr ⟨rfl,‹_›,‹_›,rfl⟩)))))
    · cases h

theorem sound_step {s t : State} {l : Label} (hs : Sound s) (h : step s l = some t) : Sound t := by
  have herror := hs.error
  have hcontent := hs.content
  rcases step_cases h with ⟨-,hr⟩ | ⟨-,rfl⟩ | ⟨e,errs,-,hb,he,rfl⟩ | ⟨ev,events,-,hb,hev,rfl⟩ |
    ⟨-,hb,hev,hclosed,rfl⟩ | ⟨e,errs,-,hb,he,rfl⟩ | ⟨-,hb,he,rfl⟩
  · exact sound_read hs hr
  · exact hs
  · rw [hb,he] at herror
    exact ⟨hcontent,by simpa [Builder.told,PackError.cause] using herror,hs.errsClosed,hs.eventsClosed,by simp,by simp⟩
  · refine ⟨?_,herror,hs.errsClosed,hs.eventsClosed,by simp [hb],by simp [hb]⟩
    rw [hev] at hcontent
    rw [← hcontent]
    cases hentry : entryFromEvent ev <;> simp [hentry]
  · rw [hb] at herror
    exact ⟨hcontent,herror,hs.errsClosed,hs.eventsClosed,fun _ => ⟨hev,hs.eventsClosed.mp hclosed⟩,by simp⟩
  · rw [hb,he] at herror
    exact ⟨hcontent,by simpa [Builder.told,PackError.cause] using herror,hs.errsClosed,hs.eventsClosed,by simp,by simp⟩
  · rw [hb] at herror
    exact ⟨hcontent,herror,hs.errsClosed,hs.eventsClosed,fun _ => hs.drained (.inl hb),fun _ => he⟩

theorem session_step {s t : State} {l : Label} (h : step s l = some t) : t.session = s.session := by
  rcases step_cases h with ⟨-,hr⟩ | ⟨-,rfl⟩ | ⟨e,errs,-,-,-,rfl⟩ | ⟨ev,events,-,-,-,rfl⟩ | ⟨-,-,-,-,rfl⟩ |
    ⟨e,errs,-,-,-,rfl⟩ | ⟨-,-,-,rfl⟩
  · exact (readStep_cases hr).1
  all_goals rfl

/-- Steps that the goroutine and the builder still have before them. -/
def Reader.work (session : Session) : Reader → ℕ
  | .query => 3*session.rows.length+5
  | .next rows => 3*rows.length+4
  | .send _ rows => 3*rows.length+6
  | .report _ => 3
  | .closeErrs => 2
  | .closeEvents => 1
  | .done => 0

def Builder.work : Builder → ℕ
  | .selecting => 2
  | .draining => 1
  | .returned _ => 0

def work (s : State) : ℕ := s.reader.work s.session+s.events.length+s.builder.work

theorem work_afterRow (session : Session) (row : Row) (rows : List Row) :
    (afterRow rows row).work session < 3*(row :: rows).length+4 := by
  cases row <;> simp only [afterRow,Reader.work,List.length_cons] <;> omega

theorem work_read {s t : State} (h : readStep s = some t) : work t < work s := by
  cases hr : s.reader with
  | query =>
    cases hq : s.session.queryErr <;> simp only [readStep,hr,hq,Option.some.injEq] at h <;> subst h <;>
      simp only [work,hr,Reader.work] <;> omega
  | next rows =>
    cases rows with
    | nil =>
      cases he : s.session.rowsErr <;> simp only [readStep,hr,he,Option.some.injEq] at h <;> subst h <;>
        simp only [work,hr,Reader.work,List.length_nil] <;> omega
    | cons row rows =>
      simp only [readStep,hr,Option.some.injEq] at h
      subst h
      have hrow := work_afterRow s.session row rows
      simp only [work,hr,Reader.work] at hrow ⊢
      omega
  | send ev rows =>
    simp only [readStep,hr,Option.ite_none_right_eq_some,Option.some.injEq] at h
    obtain ⟨-,rfl⟩ := h
    simp only [work,hr,Reader.work,List.length_append,List.length_singleton]
    omega
  | report e =>
    simp only [readStep,hr,Option.ite_none_right_eq_some,Option.some.injEq] at h
    obtain ⟨-,rfl⟩ := h
    simp only [work,hr,Reader.work]
    omega
  | closeErrs =>
    simp only [readStep,hr,Option.some.injEq] at h
    subst h
    simp only [work,hr,Reader.work]
    omega
  | closeEvents =>
    simp only [readStep,hr,Option.some.injEq] at h
    subst h
    simp only [work,hr,Reader.work]
    omega
  | done => simp [readStep,hr] at h

/-- Every step but the receive from the closed error channel takes some of the work away. -/
theorem work_step {s t : State} {l : Label} (h : step s l = some t) :
    work t+(if l = .recvNil then 0 else 1) ≤ work s := by
  rcases step_cases h with ⟨rfl,hr⟩ | ⟨rfl,rfl⟩ | ⟨e,errs,rfl,hb,-,rfl⟩ | ⟨ev,events,rfl,hb,hev,rfl⟩ |
    ⟨rfl,hb,-,-,rfl⟩ | ⟨e,errs,rfl,hb,-,rfl⟩ | ⟨rfl,hb,-,rfl⟩
  · exact work_read hr
  · simp
  · simp only [work,hb,Builder.work,reduceCtorEq,if_false]
    omega
  · simp only [work,hev,List.length_cons,reduceCtorEq,if_false]
    omega
  · simp only [work,hb,Builder.work,reduceCtorEq,if_false]
    omega
  · simp only [work,hb,Builder.work,reduceCtorEq,if_false]
    omega
  · simp only [work,hb,Builder.work,reduceCtorEq,if_false]
    omega

theorem run_work {s t : State} {as : List Label} (hr : Run step (fun _ _ => True) s as t) :
    work t+(as.filter (· ≠ .recvNil)).length ≤ work s := by
  induction hr with
  | nil s => simp
  | @cons s m t l as _ hst _ ih =>
    have hone := work_step hst
    by_cases hl : l = .recvNil
    · subst hl
      simp only [if_true] at hone
      simpa using ih.trans hone
    · rw [List.filter_cons_of_pos (by simpa using hl),List.length_cons]
      rw [if_neg hl] at hone
      omega

/-- Until the builder has returned, something other than a receive from the closed channel can happen. -/
theorem progresses {s : State} (hs : Sound s) (hret : ∀ r, s.builder ≠ .returned r) :
    ∃ l, l ≠ .recvNil ∧ (step s l).isSome = true := by
  cases hb : s.builder with
  | returned r => exact absurd hb (hret r)
  | draining => exact ⟨.drain,by simp,by cases he : s.errs <;> simp [step,hb,he]⟩
  | selecting =>
    have hrecv : s.events ≠ [] → (step s .recvEvent).isSome = true := by
      intro hne
      cases hev : s.events with
      | nil => exact absurd hev hne
      | cons ev events => simp [step,hb,hev]
    cases hr : s.reader with
    | query => exact ⟨.read,by simp,by cases hq : s.session.queryErr <;> simp [step,readStep,hr,hq]⟩
    | next rows =>
      refine ⟨.read,by simp,?_⟩
      cases rows with
      | nil => cases he : s.session.rowsErr <;> simp [step,readStep,hr,he]
      | cons row rows => simp [step,readStep,hr]
    | send ev rows =>
      by_cases hfull : s.events.length < eventsCap
      · exact ⟨.read,by simp,by simp [step,readStep,hr,hfull]⟩
      · refine ⟨.recvEvent,by simp,hrecv ?_⟩
        rintro hnil
        simp [hnil,eventsCap] at hfull
    | report e =>
      have hone := congrArg List.length hs.error
      have hmost : s.session.error.toList.length ≤ 1 := by cases s.session.error <;> simp
      simp only [hr,Reader.error,List.length_append,Option.toList_some,List.length_singleton] at hone
      have hempty : s.errs.length < errsCap := by
        rw [errsCap]
        omega
      exact ⟨.read,by simp,by simp [step,readStep,hr,hempty]⟩
    | closeErrs => exact ⟨.read,by simp,by simp [step,readStep,hr]⟩
    | closeEvents => exact ⟨.read,by simp,by simp [step,readStep,hr]⟩
    | done =>
      have hclosed := hs.eventsClosed.mpr hr
      exact ⟨.recvEvent,by simp,by cases hev : s.events <;> simp [step,hb,hev,hclosed]⟩

/-- A builder that has returned without an error was told none and has emitted everything. -/
theorem Sound.of_returned_none {s : State} (hs : Sound s) (h : s.builder = .returned none) :
    s.session.error = none ∧ s.emitted = s.session.pack := by
  obtain ⟨hev,hdone⟩ := hs.drained (.inr h)
  have herror := hs.error
  rw [h,hs.returned h,hdone] at herror
  have hnone : s.session.error = none := by simpa [Builder.told,Reader.error] using herror.symm
  refine ⟨hnone,?_⟩
  have hcontent := hs.content
  rw [hev,hdone,sent_of_error_none hnone] at hcontent
  simpa [Reader.left,Session.pack] using hcontent

theorem Sound.error_of_returned {s : State} (hs : Sound s) {err : PackError} (h : s.builder = .returned (some err)) :
    s.session.error = some err.cause := by
  have herror := hs.error
  rw [h] at herror
  cases he : s.session.error with
  | none => simp [he,Builder.told] at herror
  | some e =>
    have hhead : err.cause = e := by
      simpa [he,Builder.told] using congrArg List.head? herror
    rw [hhead]

theorem Sound.emitted_prefix {s : State} (hs : Sound s) : s.emitted <+: s.session.pack := by
  refine List.IsPrefix.trans ⟨_,hs.content⟩ ?_
  exact (sent_isInitial s.session).filterMap entryFromEvent

/-- A pack has one entry for each outbound HTTP call of the session. -/
theorem length_pack (session : Session) : session.pack.length = session.events.countP (·.isHttp) := by
  rw [Session.pack,List.length_filterMap_eq_countP]
  exact List.countP_congr fun ev _ => by rw [entryFromEvent_isSome]

/-- Every run of the reading goroutine and the builder takes a bounded number of steps other than
receives from the closed error channel, can take one until the builder returns, and returns without an
error exactly when the producer has none; then the pack is whole, and it is never more than a prefix. -/
theorem pack_complete (session : Session) {as : List Label} {s : State} (he : exec step (init session) as = some s) :
    (as.filter (· ≠ .recvNil)).length ≤ 3*session.rows.length+7 ∧
    ((∀ r, s.builder ≠ .returned r) → ∃ l, l ≠ .recvNil ∧ (step s l).isSome = true) ∧
    (∀ r, s.builder = .returned r → (r = none ↔ session.error = none)) ∧
    (s.builder = .returned none → s.emitted = session.pack) ∧
    s.emitted <+: session.pack := by
  have hr := Run.of_exec_true he
  obtain ⟨hs,hsess⟩ := hr.invariant (fun s => Sound s ∧ s.session = session)
    (fun s l t hs _ hst => ⟨sound_step hs.1 hst,(session_step hst).trans hs.2⟩) ⟨sound_init session,rfl⟩
  refine ⟨?_,progresses hs,fun r hret => ?_,fun hret => ?_,?_⟩
  · have hwork := run_work hr
    simp only [work,init,Reader.work,Builder.work,List.length_nil] at hwork
    omega
  · cases r with
    | none =>
      have hnone := (hs.of_returned_none hret).1
      rw [hsess] at hnone
      simp [hnone]
    | some err =>
      have hsome := hs.error_of_returned hret
      rw [hsess] at hsome
      simp [hsome]
  · rw [(hs.of_returned_none hret).2,hsess]
  · have hprefix := hs.emitted_prefix
    rwa [hsess] at hprefix

def paymentCall : CapturedEvent :=
  ⟨[],some ⟨"api.example.com","ev_1",some ⟨"POST","/charge",none,201,⟨[],by simp⟩,
    some ⟨some (.inline [0x6f,0x6b]),"text/plain"⟩⟩⟩⟩

/-- A session with the same call twice and an event that is no outbound call. -/
def paymentSession : Session := ⟨none,[.event paymentCall,.event ⟨[],none⟩,.event paymentCall],none⟩

def paymentRun : List Label :=
  [.read,.read,.read,.read,.recvEvent,.read,.read,.read,.read,.recvEvent,.read,.recvNil,.recvEvent,.read,.recvNil,
    .recvEvent,.drain]

theorem pack_complete_payment :
    ∃ s ∈ exec step (init paymentSession) paymentRun, s.builder = .returned none ∧
      s.emitted = paymentSession.pack ∧ paymentSession.error = none := by
  have h : ∃ s ∈ exec step (init paymentSession) paymentRun, s.builder = .returned none := by decide +kernel
  obtain ⟨s,hs,hret⟩ := h
  have hall := pack_complete paymentSession (Option.mem_def.mp hs)
  exact ⟨s,hs,hret,hall.2.2.2.1 hret,(hall.2.2.1 none hret).mp rfl⟩

/-- The error of the second row overtakes the event of the first. -/
example : (exec step (init ⟨none,[.event paymentCall,.scanFails "eof"],none⟩)
    [.read,.read,.read,.read,.read,.recvErr]).map (fun s => (s.builder,s.emitted.length,s.events.length)) =
      some (.returned (some (.wrapped (.scan "eof"))),0,1) := by
  decide +kernel

end MockPackStream
end Clearvoiance
