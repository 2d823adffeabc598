import Clearvoiance.ReplayLedger

/-! The status that a replay is left with.  `Run` reads it off the error of `run` alone: no error is a
completed run, an error that wraps `context.Canceled` a cancelled one, any other error a failed one.
The status tells what happened as long as the writer does not take the closed channel for the end of a
canceled run whose workers have dropped rows, a call of the sink in progress at the cancellation neither
completes the run nor fails for a reason of its own, and no cancellation cuts short a run whose writer
has failed. -/
namespace Clearvoiance
namespace Replay

open Transition

variable {π : Type}

inductive Status
  | completed
  | cancelled
  | failed
  deriving DecidableEq

/-- `errors.Is(err, context.Canceled)`. -/
def WriterError.isCanceled : WriterError → Bool
  | .canceled => true
  | .sink e => e.canceled

def WriterError.message : WriterError → String
  | .canceled => "context canceled"
  | .sink e => e.message

def RunError.isCanceled : RunError → Bool
  | .canceled => true
  | .writer e => e.isCanceled

def RunError.message : RunError → String
  | .canceled => "context canceled"
  | .writer e => "writer: " ++ e.message

/-- The status and the error message of the terminal row. -/
def terminal : Option RunError → Status × String
  | none => (.completed,"")
  | some err => if err.isCanceled then (.cancelled,"") else (.failed,err.message)

def Writer.sinkError : Writer → Option SinkError
  | .done (some (.sink e)) => some e
  | _ => none

def Scheduler.isReturned : Scheduler π → Bool
  | .returned _ => true
  | _ => false

/-- The scheduler has left its loop because of a cancellation. -/
def Scheduler.hasGivenUp : Scheduler π → Bool
  | .abandoned | .abandonedAwaiting | .returned (some .canceled) => true
  | _ => false

def ids (rows : List ResultRow) : List String := rows.map (·.eventID)

/-- The sink has accepted a row for each selected event with a dispatcher and each virtual user. -/
def AllAccepted (cfg : Config π) (evs : List (Event π)) (g : Ledger π) : Prop :=
  (ids g.run.accepted).Perm (expected cfg (selected cfg evs))

instance (cfg : Config π) (evs : List (Event π)) (g : Ledger π) : Decidable (AllAccepted cfg evs g) :=
  inferInstanceAs (Decidable (List.Perm _ _))

/-- A sink that fails every call made with a canceled context, and reports `context.Canceled` for it
and for no call that ends before the cancellation. -/
def SinkReports (g : Ledger π) : Label → Prop
  | .insert err => (g.late = true → ∃ e ∈ err, e.canceled = true) ∧
      (g.run.canceled = false → ∀ e ∈ err, e.canceled = false)
  | _ => True

instance (g : Ledger π) (l : Label) : Decidable (SinkReports g l) := by
  induction l using Label.casesOn <;> unfold SinkReports <;> infer_instance

def Sound (cfg : Config π) (evs : List (Event π)) (g : Ledger π) : Label → Prop
  | .receive => g.run.scheduler = .awaiting → g.run.canceled = true → g.run.results = [] → g.run.buf = [] →
      g.dropped = []
  | .insert none => g.run.canceled = true →
      ¬ (ids (g.run.accepted ++ g.run.buf)).Perm (expected cfg (selected cfg evs))
  | .insert (some e) => g.run.canceled = true → e.canceled = true
  | .abandon => ∀ e ∈ g.run.writer.sinkError, e.canceled = true
  | _ => True

instance [DecidableEq π] (cfg : Config π) (evs : List (Event π)) (g : Ledger π) : DecidablePred (Sound cfg evs g)
  | .receive => inferInstanceAs (Decidable (_ → _ → _ → _ → _))
  | .insert none => inferInstanceAs (Decidable (_ → ¬ _))
  | .insert (some _) => inferInstanceAs (Decidable (_ → _))
  | .abandon => inferInstanceAs (Decidable (∀ e ∈ g.run.writer.sinkError, e.canceled = true))
  | .cancel | .schedule _ | .dispatched .. | .send _ | .skip _ | .release _ | .finish _ | .tick | .stop =>
    inferInstanceAs (Decidable True)

/-- What the status of a run says about it.  A cancellation takes effect while the run has not
returned; one that finds the writer failed comes too late to decide the status. -/
structure Truthful (cfg : Config π) (evs : List (Event π)) (as : List Label) (g : Ledger π) (status : Status) : Prop where
  completed : status = .completed → AllAccepted cfg evs g
  cancelled : ∀ (pre post : List Label) u, as = pre ++ Label.cancel :: post →
    exec Ledger.step (.init cfg evs) pre = some u →
    u.run.scheduler.isReturned = false → ¬ AllAccepted cfg evs u → u.run.writer.sinkError = none → status = .cancelled
  failed : ∀ (pre post : List Label) e u, as = pre ++ Label.insert (some e) :: post →
    exec Ledger.step (.init cfg evs) pre = some u →
    u.run.canceled = false → status = .failed

theorem toCome_skip {s : State π} {l r : List (Worker π)} {w : Worker π} {row : ResultRow}
    (hl : s.workers = l ++ w :: r) (hp : w.phase = .sending row) :
    s.toCome.Perm (row.eventID :: { s with workers := l ++ { w with phase := .releasing } :: r }.toCome) := by
  simp only [State.toCome,hl,List.flatMap_append,List.flatMap_cons]
  simp only [Worker.owes,hp,List.nil_append,List.singleton_append,← List.append_assoc]
  exact List.perm_middle.append_right _

theorem givenUp_move {s t : State π} {l : Label} (hm : Moves s l t) (h : s.scheduler.hasGivenUp = true) :
    t.scheduler.hasGivenUp = true := by
  cases hm with
  | drained now hs => simp [hs,Scheduler.hasGivenUp] at h
  | sleep now ev rest hs => simp [hs,Scheduler.hasGivenUp] at h
  | skipEvent now ev rest hd hn => rcases hd with hs | hs <;> simp [hs,Scheduler.hasGivenUp] at h
  | startEvent now ev t rest hd hn => rcases hd with hs | hs <;> simp [hs,Scheduler.hasGivenUp] at h
  | nextEvent now ev t vu rest hs hvu => simp [hs,Scheduler.hasGivenUp] at h
  | spawn now ev t vu rest hs hvu hp => simp [hs,Scheduler.hasGivenUp] at h
  | block now ev t vu rest hs hvu hp => simp [hs,Scheduler.hasGivenUp] at h
  | unblock now ev t vu rest hs hp => simp [hs,Scheduler.hasGivenUp] at h
  | close now hs hw => simp [hs,Scheduler.hasGivenUp] at h
  | finishRun now r hs hw => simp [hs,Scheduler.hasGivenUp] at h
  | join now hs hw => rfl
  | giveUp now r hs hw => rfl
  | abandon ev rest hs hcan => simp [hs,Scheduler.hasGivenUp] at h
  | insert why err hw => cases err <;> exact h
  | _ => exact h

/-- The rows of a ledger: accepted, buffered, to come, or dropped. -/
def Ledger.ids (g : Ledger π) : List String :=
  Replay.ids (g.run.accepted ++ g.run.buf) ++ (g.run.toCome ++ Replay.ids g.dropped)

theorem ids_step {g g' : Ledger π} {l : Label} (h : Counting g.run) (hst : g.step l = some g')
    (hgo : l ≠ .abandon) : g'.ids.Perm g.ids := by
  obtain ⟨hm,-,hdrop,-⟩ := Ledger.step_run hst
  have hkeep : l ≠ .receive → (∀ i, l ≠ .skip i) → g'.run.accepted ++ g'.run.buf = g.run.accepted ++ g.run.buf →
      g'.ids.Perm g.ids := by
    intro hne hskip hrows
    have hnone : Ledger.drops g.run l = [] := by
      cases l with
      | skip i => exact absurd rfl (hskip i)
      | _ => rfl
    unfold Ledger.ids
    rw [hrows,hdrop,hnone,List.append_nil]
    exact ((toCome_keep h hm hne hskip hgo).append_right _).append_left _
  obtain ⟨t,rows',dropped',late'⟩ := g'
  simp only at hm hdrop hkeep
  cases hm with
  | receive row rest hw hr next hnext =>
    simp [Ledger.ids,Replay.ids,State.accepted,State.toCome,hr,hdrop,Ledger.drops]
  | receiveEnd hw hr hclosed => simp [Ledger.ids,State.accepted,State.toCome,hdrop,Ledger.drops]
  | skip i l r w row hl hp hcan hi =>
    have hperm := toCome_skip hl hp
    simp only [Ledger.ids,State.accepted,hdrop,Ledger.drops,hi]
    refine List.Perm.append_left _ ?_
    simp only [Replay.ids,List.map_append,List.map_cons,List.map_nil,← List.append_assoc]
    exact (List.perm_append_singleton _ _).trans (hperm.symm.append_right _)
  | insert why err hw =>
    apply hkeep (by simp) (by simp)
    cases err <;> simp [State.insert,State.accepted]
  | close now hs hw =>
    apply hkeep (by simp) (by simp)
    unfold State.close
    split <;> rfl
  | abandon => exact absurd rfl hgo
  | _ => exact hkeep (by simp) (by simp) rfl

theorem scheduler_move {s t : State π} {l : Label} (hm : Moves s l t) (hl : l.writes = true) :
    t.scheduler = s.scheduler := by
  cases hm with
  | receive | receiveEnd | idle | tick | stop => rfl
  | insert why err hw => cases err <;> rfl
  | _ => cases hl

structure Verdict (cfg : Config π) (evs : List (Event π)) (g : Ledger π) : Prop where
  tracked : Tracked g.run
  ended : Ended g.run
  undropped : g.run.canceled = false → g.dropped = []
  joined : g.run.scheduler = .awaiting → g.run.workers = []
  drained : g.run.writer = .done none → g.run.closed = true ∧ g.run.results = [] ∧ g.run.buf = []
  clean : g.run.scheduler = .awaiting → g.run.writer = .done none → g.dropped = []
  early : g.run.scheduler = .awaiting → g.run.writer = .inserting .final → g.late = false → g.dropped = []
  rows : g.run.scheduler.hasGivenUp = false → g.ids.Perm (expected cfg (selected cfg evs))
  gaveUp : g.run.scheduler.hasGivenUp = true → g.run.canceled = true
  completed : g.run.scheduler = .returned none → AllAccepted cfg evs g

theorem verdict_init (cfg : Config π) (evs : List (Event π)) : Verdict cfg evs (.init cfg evs) where
  tracked := tracked_init cfg evs
  ended := ended_init cfg evs
  undropped := fun _ => rfl
  joined := fun _ => rfl
  drained := by
    intro h
    cases h
  clean := fun _ _ => rfl
  early := fun _ _ _ => rfl
  rows := by
    intro _
    simp only [Ledger.ids,Ledger.init,init,State.toCome,State.accepted,Replay.ids]
    split_ifs with hnil
    · simp [hnil,expected_nil]
    · simp
  gaveUp := by
    intro h
    simp only [Ledger.init,init] at h
    split_ifs at h <;> cases h
  completed := by
    intro h
    simp only [Ledger.init,init] at h
    split_ifs at h with hnil
    simp [AllAccepted,Ledger.init,init,State.accepted,Replay.ids,hnil,expected_nil]

theorem drained_move {s t : State π} {l : Label} (hf : Finishing s)
    (h : s.writer = .done none → s.closed = true ∧ s.results = [] ∧ s.buf = []) (hm : Moves s l t)
    (hw : t.writer = .done none) : t.closed = true ∧ t.results = [] ∧ t.buf = [] := by
  by_cases hl : l.writes = true
  · cases hm with
    | receive row rest hsel hr next hnext => rcases hnext with rfl | rfl <;> cases hw
    | receiveEnd hsel hr hclosed =>
      simp only at hw ⊢
      split_ifs at hw with hb
      exact ⟨hclosed,hr,hb⟩
    | idle hsel hb => simp [hsel] at hw
    | tick => cases hw
    | stop hsel hcan =>
      simp only at hw
      split_ifs at hw
      cases hw
    | insert why err hins =>
      cases err with
      | some e => cases why <;> cases hw
      | none =>
        cases why with
        | final =>
          obtain ⟨hclosed,hres⟩ := hf hins
          exact ⟨hclosed,hres,rfl⟩
        | _ => cases hw
    | _ => cases hl
  · have hwriter := writer_move hm (by simpa using hl)
    obtain ⟨hclosed,hres,hbuf⟩ := h (hwriter ▸ hw)
    refine ⟨closed_move hclosed hm,?_⟩
    cases hm with
    | send i l r w row hl hp hopen hlen => simp [hopen] at hclosed
    | close | abandon =>
      unfold State.close
      split <;> exact ⟨hres,hbuf⟩
    | receive | receiveEnd | idle | tick | stop | insert => exact absurd rfl hl
    | _ => exact ⟨hres,hbuf⟩

/-- The scheduler joins its workers before it waits for the writer. -/
theorem joined_move {s t : State π} {l : Label} (hc : Counted s) (h : s.scheduler = .awaiting → s.workers = [])
    (hm : Moves s l t) (ht : t.scheduler = .awaiting) : t.workers = [] := by
  have hnone : s.scheduler = .awaiting → ∀ (l r : List (Worker π)) (w : Worker π), s.workers ≠ l ++ w :: r := by
    intro hs l r w heq
    simp [h hs] at heq
  cases hm with
  | drained | sleep | skipEvent | startEvent | nextEvent | spawn | block | unblock | finishRun | join | giveUp => cases ht
  | close now hs hw =>
    have hopen := not_closed hc (by simp [hs,Scheduler.isLate])
    have hwg := hc.wg
    simp only [hw,hs,Scheduler.isBlocked] at hwg
    simpa [State.close,hopen] using List.length_eq_zero_iff.mp (by omega : s.workers.length = 0)
  | abandon ev rest hs hcan => simp [State.close,not_closed hc (by simp [hs,Scheduler.isLate])] at ht
  | dispatched i l r w res derr hl => exact absurd hl (hnone ht l r w)
  | send i l r w row hl => exact absurd hl (hnone ht l r w)
  | skip i l r w row hl => exact absurd hl (hnone ht l r w)
  | release i l r w hl => exact absurd hl (hnone ht l r w)
  | finish i l r w hl => exact absurd hl (hnone ht l r w)
  | insert why err hw => cases err <;> exact h ht
  | _ => exact h ht

/-- Rows are dropped only in a canceled run, and by a worker. -/
theorem dropped_step {g g' : Ledger π} {l : Label} (hst : g.step l = some g') :
    g'.dropped = g.dropped ∨ g.run.canceled = true ∧ g.run.workers ≠ [] := by
  obtain ⟨hm,-,hdrop,-⟩ := Ledger.step_run hst
  by_cases hl : ∃ i, l = .skip i
  · obtain ⟨i,rfl⟩ := hl
    generalize g'.run = t at hm
    cases hm with
    | skip _ l r w row hl hp hcan => exact .inr ⟨hcan,by simp [hl]⟩
  · refine .inl ?_
    have hnone : Ledger.drops g.run l = [] := by
      cases l with
      | skip i => exact absurd ⟨i,rfl⟩ hl
      | _ => rfl
    rw [hdrop,hnone,List.append_nil]

theorem awaiting_back {s t : State π} {l : Label} (hc : Counted s) (hm : Moves s l t) (ht : t.scheduler = .awaiting) :
    s.scheduler = .awaiting ∨ s.closed = false := by
  cases hm with
  | drained | sleep | skipEvent | startEvent | nextEvent | spawn | block | unblock | finishRun | join | giveUp => cases ht
  | close now hs hw => exact .inr (not_closed hc (by simp [hs,Scheduler.isLate]))
  | abandon ev rest hs hcan => exact .inr (not_closed hc (by simp [hs,Scheduler.isLate]))
  | insert why err hw => cases err <;> exact .inl ht
  | _ => exact .inl ht

theorem returned_back {s t : State π} {l : Label} {err : Option RunError} (hc : Counted s) (hm : Moves s l t)
    (ht : t.scheduler = .returned err) : s.scheduler = .returned err ∨
    s.scheduler = .awaiting ∧ (∃ r, s.writer = .done r ∧ err = r.map .writer) ∧ t.inserted = s.inserted ∨
    s.scheduler = .abandonedAwaiting ∧ err = some .canceled := by
  cases hm with
  | drained | sleep | skipEvent | startEvent | nextEvent | spawn | block | unblock | join => cases ht
  | close now hs hw =>
    simp [State.close,not_closed hc (by simp [hs,Scheduler.isLate])] at ht
  | abandon ev rest hs hcan =>
    simp [State.close,not_closed hc (by simp [hs,Scheduler.isLate])] at ht
  | finishRun now r hs hw =>
    cases ht
    exact .inr (.inl ⟨hs,⟨r,hw,rfl⟩,rfl⟩)
  | giveUp now r hs hw =>
    cases ht
    exact .inr (.inr ⟨hs,rfl⟩)
  | insert why err hw => cases err <;> exact .inl ht
  | _ => exact .inl ht

/-- A run that has returned leaves the rows of the sink as they are. -/
theorem accepted_returned {s t : State π} {l : Label} {err : Option RunError} (h : Ended s) (hm : Moves s l t)
    (hs : s.scheduler = .returned err) : t.accepted = s.accepted := by
  cases hm with
  | close | abandon =>
    unfold State.close
    split <;> rfl
  | insert why err' hw =>
    rcases h err hs with ⟨r,hdone⟩ | ⟨hsel,-⟩
    · simp [hw] at hdone
    · simp [hw] at hsel
  | _ => rfl

section Step

variable {cfg : Config π} {evs : List (Event π)} {g g' : Ledger π} {l : Label}

theorem Verdict.keeps_dropped (h : Verdict cfg evs g) (hst : g.step l = some g')
    (hs : g.run.scheduler = .awaiting) : g'.dropped = g.dropped := by
  rcases dropped_step hst with heq | ⟨-,hne⟩
  · exact heq
  · exact absurd (h.joined hs) hne

theorem Verdict.clean_step (h : Verdict cfg evs g) (hlaw : SinkReports g l) (hok : Sound cfg evs g l)
    (hst : g.step l = some g') (ht : g'.run.scheduler = .awaiting) (hw : g'.run.writer = .done none) :
    g'.dropped = [] := by
  obtain ⟨hm,-,-,-⟩ := Ledger.step_run hst
  by_cases hl : l.writes = true
  · have hs : g.run.scheduler = .awaiting := (scheduler_move hm hl).symm.trans ht
    rw [h.keeps_dropped hst hs]
    generalize g'.run = t at hm hw
    cases hm with
    | receive row rest hsel hr next hnext => rcases hnext with rfl | rfl <;> cases hw
    | receiveEnd hsel hr hclosed =>
      simp only at hw
      split_ifs at hw with hb
      cases hcan : g.run.canceled with
      | true => exact hok hs hcan hr hb
      | false => exact h.undropped hcan
    | idle hsel hb => simp [hsel] at hw
    | tick => cases hw
    | stop hsel hcan =>
      simp only at hw
      split_ifs at hw
      cases hw
    | insert why err hins =>
      cases err with
      | some e => cases why <;> cases hw
      | none =>
        cases why with
        | final =>
          apply h.early hs hins
          cases hlate : g.late with
          | false => rfl
          | true =>
            obtain ⟨e,he,-⟩ := hlaw.1 hlate
            cases he
        | _ => cases hw
    | _ => cases hl
  · have hwriter : g.run.writer = .done none := (writer_move hm (by simpa using hl)).symm.trans hw
    rcases awaiting_back h.tracked.counted hm ht with hs | hopen
    · rw [h.keeps_dropped hst hs,h.clean hs hwriter]
    · simp [(h.drained hwriter).1] at hopen

theorem Verdict.early_step (h : Verdict cfg evs g) (hst : g.step l = some g')
    (ht : g'.run.scheduler = .awaiting) (hw : g'.run.writer = .inserting .final) (hlive : g'.late = false) :
    g'.dropped = [] := by
  obtain ⟨hm,-,-,hlate⟩ := Ledger.step_run hst
  rw [hlate] at hlive
  by_cases hl : l.writes = true
  · have hsel : g.run.writer = .selecting := by
      generalize g'.run = t at hm hw
      cases hm with
      | receive row rest hsel hr next hnext => exact hsel
      | receiveEnd hsel hr hclosed => exact hsel
      | idle hsel hb => exact hsel
      | tick hsel hb => exact hsel
      | stop hsel hcan => exact hsel
      | insert why err hins => cases err <;> cases why <;> cases hw
      | _ => cases hl
    rw [if_pos hsel] at hlive
    rcases dropped_step hst with heq | ⟨hcan,-⟩
    · rw [heq,h.undropped hlive]
    · simp [hlive] at hcan
  · have hwriter : g.run.writer = .inserting .final := (writer_move hm (by simpa using hl)).symm.trans hw
    rw [hwriter,if_neg (by simp)] at hlive
    rcases awaiting_back h.tracked.counted hm ht with hs | hopen
    · rw [h.keeps_dropped hst hs,h.early hs hwriter hlive]
    · simp [(h.tracked.finishing hwriter).1] at hopen

theorem Verdict.gaveUp_step (h : Verdict cfg evs g) (hst : g.step l = some g')
    (ht : g'.run.scheduler.hasGivenUp = true) : g'.run.canceled = true := by
  obtain ⟨hm,-,-,-⟩ := Ledger.step_run hst
  cases hs : g.run.scheduler.hasGivenUp with
  | true => exact canceled_move (h.gaveUp hs) hm
  | false =>
    by_cases hl : l = .abandon
    · subst hl
      refine canceled_move ?_ hm
      generalize g'.run = t at hm
      cases hm with
      | abandon ev rest _ hcan => exact hcan
    · generalize g'.run = t at hm ht
      exfalso
      cases hm with
      | drained | sleep | skipEvent | startEvent | nextEvent | spawn | block | unblock => cases ht
      | close now hsch hw =>
        simp [State.close,not_closed h.tracked.counted (by simp [hsch,Scheduler.isLate]),Scheduler.hasGivenUp] at ht
      | finishRun now r hsch hw => cases r <;> cases ht
      | join now hsch hw => simp [hsch,Scheduler.hasGivenUp] at hs
      | giveUp now r hsch hw => simp [hsch,Scheduler.hasGivenUp] at hs
      | abandon => exact hl rfl
      | insert why err hw => cases err <;> simp [State.insert,hs] at ht
      | _ => simp [hs] at ht

theorem Verdict.rows_step (h : Verdict cfg evs g) (hst : g.step l = some g')
    (ht : g'.run.scheduler.hasGivenUp = false) : g'.ids.Perm (expected cfg (selected cfg evs)) := by
  obtain ⟨hm,-,-,-⟩ := Ledger.step_run hst
  have hgo : l ≠ .abandon := by
    intro hl
    subst hl
    generalize g'.run = t at hm ht
    cases hm with
    | abandon ev rest hs hcan =>
      simp [State.close,not_closed h.tracked.counted (by simp [hs,Scheduler.isLate]),Scheduler.hasGivenUp] at ht
  refine (ids_step h.tracked.counting hst hgo).trans (h.rows ?_)
  cases hs : g.run.scheduler.hasGivenUp with
  | false => rfl
  | true =>
    rw [givenUp_move hm hs] at ht
    cases ht

theorem verdict_step (h : Verdict cfg evs g) (hlaw : SinkReports g l) (hok : Sound cfg evs g l)
    (hst : g.step l = some g') : Verdict cfg evs g' := by
  obtain ⟨hm,-,-,-⟩ := Ledger.step_run hst
  refine ⟨tracked_move h.tracked hm,ended_move h.ended h.tracked.counted hm,?_,
    joined_move h.tracked.counted h.joined hm,drained_move h.tracked.finishing h.drained hm,
    h.clean_step hlaw hok hst,h.early_step hst,h.rows_step hst,h.gaveUp_step hst,?_⟩
  · intro hc
    have hbefore : g.run.canceled = false := by
      cases hcan : g.run.canceled with
      | false => rfl
      | true =>
        rw [canceled_move hcan hm] at hc
        cases hc
    rcases dropped_step hst with heq | ⟨hcan,-⟩
    · rw [heq,h.undropped hbefore]
    · simp [hbefore] at hcan
  · intro ht
    rcases returned_back h.tracked.counted hm ht with hs | ⟨hs,⟨r,hw,hr⟩,hins⟩ | ⟨-,hr⟩
    · unfold AllAccepted
      rw [accepted_returned h.ended hm hs]
      exact h.completed hs
    · obtain rfl : r = none := by
        cases r with
        | none => rfl
        | some e => cases hr
      obtain ⟨-,hres,hbuf⟩ := h.drained hw
      have hall := h.rows (by simp [hs,Scheduler.hasGivenUp])
      simp only [Ledger.ids,State.toCome,hres,hbuf,h.joined hs,h.clean hs hw,hs] at hall
      simpa [AllAccepted,State.accepted,hins,Replay.ids] using hall
    · cases hr

theorem sinkError_move {s t : State π} (hm : Moves s l t) {e : SinkError} (he : t.writer.sinkError = some e) :
    s.writer.sinkError = some e ∨ l = .insert (some e) := by
  by_cases hl : l.writes = true
  · cases hm with
    | receive row rest hw hr next hnext => rcases hnext with rfl | rfl <;> cases he
    | receiveEnd hw hr hclosed =>
      simp only at he
      split_ifs at he <;> cases he
    | idle hw hb => exact .inl he
    | tick => cases he
    | stop hw hcan =>
      simp only at he
      split_ifs at he <;> cases he
    | insert why err hw =>
      cases err with
      | none => cases why <;> cases he
      | some e' =>
        cases why with
        | cancel => cases he
        | _ =>
          cases he
          exact .inr rfl
    | _ => cases hl
  · rw [writer_move hm (by simpa using hl)] at he
    exact .inl he

/-- A run that was canceled before its rows were accepted. -/
structure Doomed (cfg : Config π) (evs : List (Event π)) (g : Ledger π) : Prop where
  canceled : g.run.canceled = true
  missing : ¬ AllAccepted cfg evs g
  excused : ∀ e, g.run.writer.sinkError = some e → e.canceled = true
  cancelled : ∀ err, g.run.scheduler = .returned err → (terminal err).1 = .cancelled

theorem doomed_step (hv : Verdict cfg evs g) (hv' : Verdict cfg evs g') (h : Doomed cfg evs g)
    (hok : Sound cfg evs g l) (hst : g.step l = some g') : Doomed cfg evs g' := by
  obtain ⟨hm,-,-,-⟩ := Ledger.step_run hst
  have hmissing : ¬ AllAccepted cfg evs g' := by
    unfold AllAccepted
    cases flows_of_step hst with
    | same _ _ ha _ _ _ _ => rw [ha]; exact h.missing
    | count _ _ _ _ _ ha _ _ _ => rw [ha]; exact h.missing
    | pass _ _ ha _ _ _ _ => rw [ha]; exact h.missing
    | drop _ _ _ _ ha _ _ _ => rw [ha]; exact h.missing
    | accept _ ha _ _ _ => rw [ha]; exact hok h.canceled
  refine ⟨canceled_move h.canceled hm,hmissing,?_,?_⟩
  · intro e he
    rcases sinkError_move hm he with hold | rfl
    · exact h.excused e hold
    · exact hok h.canceled
  · intro err ht
    rcases returned_back hv.tracked.counted hm ht with hs | ⟨hs,⟨r,hw,hr⟩,hins⟩ | ⟨-,hr⟩
    · exact h.cancelled err hs
    · subst hr
      cases r with
      | none => exact absurd (hv'.completed ht) hmissing
      | some e =>
        cases e with
        | canceled => rfl
        | sink e =>
          have hcan := h.excused e (by simp [hw,Writer.sinkError])
          simp [terminal,RunError.isCanceled,WriterError.isCanceled,hcan]
    · rw [hr]
      rfl

/-- A run whose sink has failed without a cancellation. -/
structure Failing (g : Ledger π) : Prop where
  writer : ∃ e, g.run.writer = .done (some (.sink e)) ∧ e.canceled = false
  going : g.run.scheduler.hasGivenUp = false
  failed : ∀ err, g.run.scheduler = .returned err → (terminal err).1 = .failed

theorem failing_step (hv : Verdict cfg evs g) (h : Failing g) (hok : Sound cfg evs g l)
    (hst : g.step l = some g') : Failing g' := by
  obtain ⟨hm,-,-,-⟩ := Ledger.step_run hst
  obtain ⟨e,hw,he⟩ := h.writer
  have hnone : g.run.writer ≠ .selecting ∧ ∀ why, g.run.writer ≠ .inserting why := by simp [hw]
  have hl : l.writes = false := by
    generalize g'.run = t at hm
    cases hm with
    | receive row rest hsel => exact absurd hsel hnone.1
    | receiveEnd hsel => exact absurd hsel hnone.1
    | idle hsel => exact absurd hsel hnone.1
    | tick hsel => exact absurd hsel hnone.1
    | stop hsel => exact absurd hsel hnone.1
    | insert why err hins => exact absurd hins (hnone.2 why)
    | _ => rfl
  have hgo : l ≠ .abandon := by
    intro heq
    subst heq
    have hcan := hok e (by simp [hw,Writer.sinkError])
    simp [he] at hcan
  refine ⟨⟨e,(writer_move hm hl).trans hw,he⟩,?_,?_⟩
  · have hgoing := h.going
    generalize g'.run = t at hm
    cases hm with
    | drained | sleep | skipEvent | startEvent | nextEvent | spawn | block | unblock => rfl
    | close now hs hwg =>
      simp [State.close,not_closed hv.tracked.counted (by simp [hs,Scheduler.isLate]),Scheduler.hasGivenUp]
    | finishRun now r hs hdone => cases r <;> rfl
    | join now hs hwg => simp [hs,Scheduler.hasGivenUp] at hgoing
    | giveUp now r hs hdone => simp [hs,Scheduler.hasGivenUp] at hgoing
    | abandon => exact absurd rfl hgo
    | insert why err hins => exact absurd hins (hnone.2 why)
    | _ => exact hgoing
  · intro err ht
    rcases returned_back hv.tracked.counted hm ht with hs | ⟨-,⟨r,hdone,hr⟩,-⟩ | ⟨hs,-⟩
    · exact h.failed err hs
    · rw [hw] at hdone
      cases hdone
      rw [hr]
      simp [terminal,RunError.isCanceled,WriterError.isCanceled,he]
    · have hgoing := h.going
      simp [hs,Scheduler.hasGivenUp] at hgoing

end Step

section Runs

variable {cfg : Config π} {evs : List (Event π)} {as : List Label} {g t : Ledger π}

def Admitted (cfg : Config π) (evs : List (Event π)) (g : Ledger π) (l : Label) : Prop :=
  SinkReports g l ∧ Sound cfg evs g l

instance [DecidableEq π] (cfg : Config π) (evs : List (Event π)) (g : Ledger π) (l : Label) :
    Decidable (Admitted cfg evs g l) := inferInstanceAs (Decidable (_ ∧ _))

theorem run_verdict (hr : Run Ledger.step (Admitted cfg evs) g as t) (h : Verdict cfg evs g) : Verdict cfg evs t :=
  hr.invariant (Verdict cfg evs) (fun _ _ _ hv hok hst => verdict_step hv hok.1 hok.2 hst) h

theorem run_doomed (hr : Run Ledger.step (Admitted cfg evs) g as t) (hv : Verdict cfg evs g)
    (h : Doomed cfg evs g) : Doomed cfg evs t := by
  refine (hr.invariant (fun u => Verdict cfg evs u ∧ Doomed cfg evs u) ?_ ⟨hv,h⟩).2
  intro u l u' hu hok hst
  have hv' := verdict_step hu.1 hok.1 hok.2 hst
  exact ⟨hv',doomed_step hu.1 hv' hu.2 hok.2 hst⟩

theorem run_failing (hr : Run Ledger.step (Admitted cfg evs) g as t) (hv : Verdict cfg evs g)
    (h : Failing g) : Failing t := by
  refine (hr.invariant (fun u => Verdict cfg evs u ∧ Failing u) ?_ ⟨hv,h⟩).2
  intro u l u' hu hok hst
  exact ⟨verdict_step hu.1 hok.1 hok.2 hst,failing_step hu.1 hu.2 hok.2 hst⟩

theorem doomed_cancel (hst : g.step .cancel = some t) (hret : g.run.scheduler.isReturned = false)
    (hmiss : ¬ AllAccepted cfg evs g) (hnone : g.run.writer.sinkError = none) : Doomed cfg evs t := by
  obtain ⟨hm,-,-,-⟩ := Ledger.step_run hst
  have hrun : t.run = { g.run with canceled := true } := by
    generalize t.run = s at hm
    cases hm
    rfl
  refine ⟨by rw [hrun],?_,?_,?_⟩
  · unfold AllAccepted
    rw [hrun]
    exact hmiss
  · intro e he
    rw [hrun] at he
    exact absurd he (by simp [hnone])
  · intro err he
    rw [hrun] at he
    simp only at he
    rw [he] at hret
    cases hret

theorem failing_insert {e : SinkError} (hv : Verdict cfg evs g) (hlaw : SinkReports g (.insert (some e)))
    (hst : g.step (.insert (some e)) = some t) (hcan : g.run.canceled = false) : Failing t := by
  obtain ⟨hm,-,-,-⟩ := Ledger.step_run hst
  have hgoing : g.run.scheduler.hasGivenUp = false := by
    cases h : g.run.scheduler.hasGivenUp with
    | false => rfl
    | true =>
      rw [hv.gaveUp h] at hcan
      cases hcan
  generalize hs : t.run = s at hm
  cases hm with
  | insert why _ hw =>
    refine ⟨⟨e,?_,hlaw.2 hcan e rfl⟩,by rw [hs]; exact hgoing,?_⟩
    · rw [hs]
      cases why with
      | cancel =>
        rw [hv.tracked.stopping hw] at hcan
        cases hcan
      | _ => rfl
    · intro err he
      rw [hs] at he
      rcases hv.ended err he with ⟨r,hdone⟩ | ⟨hsel,-⟩
      · simp [hw] at hdone
      · simp [hw] at hsel

/-- The terminal status of every admitted run is truthful. -/
theorem terminal_truthful {err : Option RunError}
    (hr : Run Ledger.step (Admitted cfg evs) (.init cfg evs) as g) (hret : g.run.scheduler = .returned err) :
    Truthful cfg evs as g (terminal err).1 := by
  have hv := run_verdict hr (verdict_init cfg evs)
  refine ⟨?_,?_,?_⟩
  · intro hdone
    apply hv.completed
    cases err with
    | none => exact hret
    | some e =>
      simp only [terminal] at hdone
      split_ifs at hdone
  · intro pre post u has hu hlive hmiss hnone
    subst has
    obtain ⟨v,hpre,hpost⟩ := hr.of_append
    obtain rfl : v = u := Option.some.inj (hpre.exec_eq.symm.trans hu)
    cases hpost with
    | cons hok hst hrest =>
      have hv' := verdict_step (run_verdict hpre (verdict_init cfg evs)) hok.1 hok.2 hst
      exact (run_doomed hrest hv' (doomed_cancel hst hlive hmiss hnone)).cancelled err hret
  · intro pre post e u has hu hcan
    subst has
    obtain ⟨v,hpre,hpost⟩ := hr.of_append
    obtain rfl : v = u := Option.some.inj (hpre.exec_eq.symm.trans hu)
    have hbefore := run_verdict hpre (verdict_init cfg evs)
    cases hpost with
    | cons hok hst hrest =>
      have hv' := verdict_step hbefore hok.1 hok.2 hst
      exact (run_failing hrest hv' (failing_insert hbefore hok.1 hst hcan)).failed err hret

end Runs

/-- The worker drops its row when the run is canceled, and the writer takes the closed channel for
the end of the run. -/
def vanishedRun : List Label :=
  soloStart ++ ([.cancel,.skip 0,.release 0,.finish 0,.schedule 0,.receive,.schedule 0] : List Label)

theorem vanished_run_completed :
    Along Ledger.step SinkReports (.init soloConfig soloEvents) vanishedRun ∧
    ∃ g ∈ exec Ledger.step (.init soloConfig soloEvents) vanishedRun,
      ∃ err, g.run.scheduler = .returned err ∧ ¬ Truthful soloConfig soloEvents vanishedRun g (terminal err).1 := by
  have hend : ∃ g ∈ exec Ledger.step (.init soloConfig soloEvents) vanishedRun,
      g.run.scheduler = .returned none ∧ ¬ AllAccepted soloConfig soloEvents g := by decide +kernel
  obtain ⟨g,hg,hret,hmiss⟩ := hend
  exact ⟨by decide +kernel,g,hg,none,hret,fun h => hmiss (h.completed rfl)⟩

/-- The run is canceled while its row is in the channel; the writer's last flush fails. -/
def interruptedRun : List Label :=
  soloStart ++ ([.send 0,.cancel,.receive,.release 0,.finish 0,.schedule 0,.receive,
    .insert (some ⟨"context canceled",true⟩),.schedule 0] : List Label)

theorem terminal_truthful_interruptedRun :
    ∃ g ∈ exec Ledger.step (.init soloConfig soloEvents) interruptedRun,
      ∃ err, g.run.scheduler = .returned err ∧ (terminal err).1 = .cancelled ∧
        Truthful soloConfig soloEvents interruptedRun g (terminal err).1 := by
  have hend : ∃ g ∈ exec Ledger.step (.init soloConfig soloEvents) interruptedRun,
      g.run.scheduler = .returned (some (.writer (.sink ⟨"context canceled",true⟩))) := by decide +kernel
  obtain ⟨g,hg,hret⟩ := hend
  have hr : Run Ledger.step (Admitted soloConfig soloEvents) (.init soloConfig soloEvents) interruptedRun g :=
    .of_exec (by decide +kernel) (Option.mem_def.mp hg)
  exact ⟨g,hg,_,hret,rfl,terminal_truthful hr hret⟩

end Replay
end Clearvoiance
