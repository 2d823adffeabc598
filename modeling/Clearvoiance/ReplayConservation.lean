import Clearvoiance.ReplayProgress

/-! Replay runs that nobody cancels and whose sink never fails.  Every such run comes to an end: a
weight of the state drops with every step but a tick of the flush timer that finds nothing to flush.
What it has handed to the sink by then is one row for each event that can be dispatched and each
virtual user. -/
namespace Clearvoiance
namespace Replay

open Transition

variable {π : Type}

/-- Nobody cancels, and the sink takes what it is given. -/
def Undisturbed (_ : State π) : Label → Prop
  | .cancel | .insert (some _) => False
  | _ => True

instance (s : State π) : DecidablePred (Undisturbed s)
  | .cancel | .insert (some _) => inferInstanceAs (Decidable False)
  | .insert none | .schedule _ | .abandon | .dispatched .. | .send _ | .skip _ | .release _ | .finish _ | .receive
  | .tick | .stop => inferInstanceAs (Decidable True)

theorem undisturbed_of_proper {s : State π} {l : Label} (h : l.proper = true) : Undisturbed s l := by
  cases l with
  | cancel => cases h
  | insert err =>
    cases err with
    | none => trivial
    | some m => cases h
  | _ => trivial

/-- The worker has not counted its event as dispatched. -/
def Worker.busy (w : Worker π) : Bool := w.phase = .dispatching

def skipped (cfg : Config π) (evs : List (Event π)) : List (Event π) := evs.filter fun ev => !canDispatch cfg ev

/-- The events that the scheduler has still to look at. -/
def Scheduler.ahead : Scheduler π → List (Event π)
  | .loop rest | .fan _ _ _ rest | .blocked _ _ _ rest => rest
  | .sleeping ev rest => ev :: rest
  | _ => []

section Ahead

variable (ev : Event π) (t : Timing) (vu : ℕ) (rest : List (Event π))

@[simp] theorem ahead_loop : (Scheduler.loop rest).ahead = rest := rfl

@[simp] theorem ahead_sleeping : (Scheduler.sleeping ev rest).ahead = ev :: rest := rfl

@[simp] theorem ahead_fan : (Scheduler.fan ev t vu rest).ahead = rest := rfl

@[simp] theorem ahead_blocked : (Scheduler.blocked ev t vu rest).ahead = rest := rfl

end Ahead

/-- The events that count as dispatched, now or later. -/
def State.tally (s : State π) : ℕ :=
  s.summary.eventsDispatched+(s.workers.filter Worker.busy).length+(s.scheduler.outstanding s.cfg).length+
    (skipped s.cfg s.scheduler.ahead).length

/-- The rows of a run: written, buffered, or to come. -/
def State.rows (s : State π) : List String :=
  (s.inserted.flatten ++ s.buf).map (·.eventID) ++ s.toCome

theorem rows_move {s t : State π} {l : Label} (h : Counting s) (hm : Moves s l t) (hok : Undisturbed s l)
    (hc : s.canceled = false) : t.rows.Perm s.rows := by
  have hkeep : l ≠ .receive → t.inserted = s.inserted → t.buf = s.buf → t.rows.Perm s.rows := by
    intro hl hi hb
    unfold State.rows
    rw [hi,hb]
    exact (toCome_move h hm hl hc).append_left _
  cases hm with
  | receive row rest hw hr next hnext => simp [State.rows,State.toCome,hr]
  | receiveEnd hw hr hclosed => exact .refl _
  | insert why err hw =>
    cases err with
    | some m => cases hok
    | none => simp [State.rows,State.toCome,State.insert]
  | close | abandon =>
    apply hkeep
    · simp
    all_goals
      unfold State.close
      split <;> rfl
  | _ => exact hkeep (by simp) rfl rfl

theorem tally_spawn {s : State π} {ev : Event π} {t : Timing} {vu : ℕ} {rest : List (Event π)}
    (hs : s.scheduler.outstanding s.cfg = remaining s.cfg ev vu ++ expected s.cfg rest)
    (ha : s.scheduler.ahead = rest) (hvu : vu < vuCount s.cfg) : (s.spawn ev t vu rest).tally = s.tally := by
  simp only [State.tally,State.spawn,outstanding_fan,ahead_fan,hs,ha,remaining_of_lt hvu,List.filter_append,
    List.length_append,List.length_cons]
  simp only [Worker.busy,decide_true,List.filter_cons_of_pos,List.filter_nil,List.length_cons,List.length_nil]
  omega

theorem Due.ahead {s : State π} {ev : Event π} {rest : List (Event π)} (h : Due s ev rest) :
    s.scheduler.ahead = ev :: rest := by
  rcases h with h | h <;> simp [h]

theorem tally_move {s t : State π} {l : Label} (h : Counting s) (hm : Moves s l t) (hc : s.canceled = false) :
    t.tally = s.tally := by
  cases hm with
  | drained now hs => simp [State.tally,hs,Scheduler.ahead,expected_nil]
  | sleep now ev rest hs => simp [State.tally,hs]
  | skipEvent now ev rest hd hn =>
    simp only [State.tally,hd.outstanding,hd.ahead,expected_cons_of_not hn,outstanding_loop,ahead_loop,
      Summary.recordSkipped,skipped,List.filter_cons,hn,Bool.not_false,if_true,List.length_cons]
    omega
  | startEvent now ev t rest hd hn =>
    simp [State.tally,hd.outstanding,hd.ahead,expected_cons_of hn,skipped,hn]
  | nextEvent now ev t vu rest hs hvu => simp [State.tally,hs,remaining_of_le hvu]
  | spawn now ev t vu rest hs hvu hp =>
    have hout : s.scheduler.outstanding s.cfg = remaining s.cfg ev vu ++ expected s.cfg rest := by simp [hs]
    exact tally_spawn (t := t) hout (by simp [hs]) hvu
  | block now ev t vu rest hs hvu hp => simp [State.tally,hs,Summary.recordBackpressured]
  | unblock now ev t vu rest hs hp =>
    have hout : s.scheduler.outstanding s.cfg = remaining s.cfg ev vu ++ expected s.cfg rest := by simp [hs]
    exact tally_spawn (t := t) hout (by simp [hs]) (h ev t vu rest hs)
  | close now hs hw =>
    unfold State.close
    split <;> simp [State.tally,hs,Scheduler.ahead]
  | finishRun now r hs hw => simp [State.tally,hs,Scheduler.ahead]
  | join now hs hw => simp [State.tally,hs,Scheduler.ahead]
  | giveUp now r hs hw => simp [State.tally,hs,Scheduler.ahead]
  | abandon ev rest hs hcan => simp [hc] at hcan
  | dispatched i l r w res derr hl hp =>
    simp [State.tally,hl,Worker.busy,hp,Summary.record]
    omega
  | send i l r w row hl hp hopen hlen => simp [State.tally,hl,Worker.busy,hp]
  | skip i l r w row hl hp hcan => simp [hc] at hcan
  | release i l r w hl hp => simp [State.tally,hl,Worker.busy,hp]
  | finish i l r w hl hp => simp [State.tally,hl,Worker.busy,hp]
  | insert why err hw => cases err <;> rfl
  | _ => rfl

def Worker.weight (w : Worker π) : ℕ :=
  match w.phase with
  | .dispatching => 8
  | .sending _ => 7
  | .releasing => 2
  | .finishing => 1

def Writer.weight (w : Writer) (buffered : ℕ) : ℕ :=
  match w with
  | .selecting => 2*buffered+2
  | .inserting _ => 2*buffered+1
  | .done _ => 0

/-- The steps of the scheduler up to the point where it next looks at an event. -/
def Scheduler.weight : Scheduler π → ℕ
  | .loop _ => 3
  | .sleeping _ _ => 2
  | .fan .. => 4
  | .blocked .. => 3
  | .waiting | .abandoned => 2
  | .awaiting | .abandonedAwaiting => 1
  | .returned _ => 0

/-- What every step but an idle tick of the flush timer uses up. -/
def State.weight (s : State π) : ℕ :=
  (s.workers.map Worker.weight).sum+4*s.results.length+s.writer.weight s.buf.length+
    10*(s.scheduler.outstanding s.cfg).length+3*s.scheduler.ahead.length+s.scheduler.weight

def Filled (s : State π) : Prop := ∀ why, s.writer = .inserting why → s.buf ≠ []

theorem filled_move {s t : State π} {l : Label} (h : Filled s) (hm : Moves s l t) : Filled t := by
  by_cases hl : l.writes = true
  · cases hm with
    | receive row rest hw hr next hnext =>
      intro why _
      simp
    | receiveEnd hw hr hc =>
      intro why hwhy
      simp only at hwhy ⊢
      split_ifs at hwhy with hb
      exact hb
    | idle hw hb => exact h
    | tick hw hb =>
      intro why _
      exact hb
    | stop hw hc =>
      intro why hwhy
      simp only at hwhy ⊢
      split_ifs at hwhy with hb
      exact hb
    | insert why err hw =>
      intro why' hwhy
      cases err <;> cases why <;> cases hwhy
    | _ => cases hl
  · intro why hwhy
    have hwriter := writer_move hm (by simpa using hl)
    have hbuf := h why (hwriter ▸ hwhy)
    cases hm with
    | close | abandon =>
      unfold State.close
      split <;> exact hbuf
    | receive | receiveEnd | idle | tick | stop | insert => exact absurd rfl hl
    | _ => exact hbuf

theorem weight_spawn {s : State π} {ev : Event π} {t : Timing} {vu : ℕ} {rest : List (Event π)}
    (hs : s.scheduler.outstanding s.cfg = remaining s.cfg ev vu ++ expected s.cfg rest)
    (ha : s.scheduler.ahead = rest) (hvu : vu < vuCount s.cfg) (hw : 3 ≤ s.scheduler.weight) :
    (s.spawn ev t vu rest).weight < s.weight := by
  simp only [State.weight,State.spawn,outstanding_fan,ahead_fan,hs,ha,remaining_of_lt hvu,List.map_append,
    List.sum_append,List.map_cons,List.map_nil,List.sum_cons,List.sum_nil,List.length_append,List.length_cons]
  simp only [Worker.weight]
  have hfan : (Scheduler.fan ev t (vu+1) rest).weight = 4 := rfl
  omega

theorem weight_fire {s : State π} {ev : Event π} {rest : List (Event π)} (hd : Due s ev rest) {sum : Summary}
    {next : Scheduler π} (hout : next.outstanding s.cfg = expected s.cfg (ev :: rest)) (ha : next.ahead = rest)
    (hw : next.weight ≤ 4) : ({ s with summary := sum, scheduler := next } : State π).weight < s.weight := by
  simp only [State.weight,hd.outstanding,hd.ahead,hout,ha,List.length_cons]
  have hdue : 2 ≤ s.scheduler.weight := by
    rcases hd with h | h <;> simp [h,Scheduler.weight]
  omega

theorem weight_move {s t : State π} {l : Label} (h : Tracked s) (hf : Filled s) (hm : Moves s l t)
    (hok : Undisturbed s l) (hc : s.canceled = false) (hne : l ≠ .tick) : t.weight < s.weight := by
  cases hm with
  | cancel => cases hok
  | drained now hs => simp [State.weight,hs,Scheduler.weight,expected_nil,Scheduler.ahead]
  | sleep now ev rest hs => simp [State.weight,hs,Scheduler.weight]
  | skipEvent now ev rest hd hn => exact weight_fire hd (by simp [expected_cons_of_not hn]) rfl (by simp [Scheduler.weight])
  | startEvent now ev t rest hd hn => exact weight_fire hd (by simp [expected_cons_of hn]) rfl (by simp [Scheduler.weight])
  | nextEvent now ev t vu rest hs hvu => simp [State.weight,hs,Scheduler.weight,remaining_of_le hvu]
  | spawn now ev t vu rest hs hvu hp =>
    exact weight_spawn (t := t) (by simp [hs]) (by simp [hs]) hvu (by simp [hs,Scheduler.weight])
  | block now ev t vu rest hs hvu hp => simp [State.weight,hs,Scheduler.weight]
  | unblock now ev t vu rest hs hp =>
    exact weight_spawn (t := t) (by simp [hs]) (by simp [hs]) (h.counting ev t vu rest hs) (by simp [hs,Scheduler.weight])
  | close now hs hw =>
    have hopen := not_closed h.counted (by simp [hs,Scheduler.isLate])
    simp [State.close,hopen,State.weight,hs,Scheduler.weight,Scheduler.ahead]
  | finishRun now r hs hw => simp [State.weight,hs,Scheduler.weight,Scheduler.ahead]
  | join now hs hw => simp [State.weight,hs,Scheduler.weight,Scheduler.ahead]
  | giveUp now r hs hw => simp [State.weight,hs,Scheduler.weight,Scheduler.ahead]
  | abandon ev rest hs hcan => simp [hc] at hcan
  | dispatched i l r w res derr hl hp => simp [State.weight,hl,Worker.weight,hp]
  | send i l r w row hl hp hopen hlen =>
    simp [State.weight,hl,Worker.weight,hp]
    omega
  | sendClosed i l r w row hl hp hclosed =>
    rcases h.counted.joined hclosed with hcan | hnil
    · simp [hc] at hcan
    · simp [hl] at hnil
  | skip i l r w row hl hp hcan => simp [hc] at hcan
  | release i l r w hl hp => simp [State.weight,hl,Worker.weight,hp]
  | finish i l r w hl hp => simp [State.weight,hl,Worker.weight,hp]
  | receive row rest hw hr next hnext =>
    rcases hnext with rfl | rfl <;> simp [State.weight,hw,hr,Writer.weight] <;> omega
  | receiveEnd hw hr hclosed =>
    simp only [State.weight,hw]
    split_ifs <;> simp [Writer.weight]
  | idle hw hb => exact absurd rfl hne
  | tick hw hb => exact absurd rfl hne
  | stop hw hcan => simp [hc] at hcan
  | insert why err hw =>
    cases err with
    | some m => cases hok
    | none =>
      have hpos := List.length_pos_iff.mpr (hf why hw)
      cases why <;> simp [State.weight,State.insert,hw,Writer.weight] <;> omega

theorem weight_tick {s t : State π} (hm : Moves s .tick t) : t.weight ≤ s.weight := by
  cases hm with
  | idle hw hb => exact le_rfl
  | tick hw hb => simp [State.weight,hw,Writer.weight]

/-- The writer stops only when there is nothing left to write, the scheduler returns only after that
and without an error, and the run is never abandoned. -/
structure Settled (s : State π) : Prop where
  done : ∀ e, s.writer = .done e → e = none ∧ s.closed = true ∧ s.results = [] ∧ s.buf = []
  kept : s.scheduler ≠ .abandoned ∧ s.scheduler ≠ .abandonedAwaiting
  returned : ∀ err, s.scheduler = .returned err → err = none ∧ s.workers = [] ∧ s.results = [] ∧ s.buf = []

theorem Settled.done_move {s t : State π} {l : Label} (h : Settled s) (ht : Tracked s) (hm : Moves s l t)
    (hok : Undisturbed s l) (hc : s.canceled = false) {e : Option WriterError} (he : t.writer = .done e) :
    e = none ∧ t.closed = true ∧ t.results = [] ∧ t.buf = [] := by
  by_cases hl : l.writes = true
  · cases hm with
    | receive row rest hw hr next hnext => rcases hnext with rfl | rfl <;> cases he
    | receiveEnd hw hr hclosed =>
      simp only at he ⊢
      split_ifs at he with hb
      cases he
      exact ⟨rfl,hclosed,hr,hb⟩
    | idle hw hb => simp [hw] at he
    | tick => cases he
    | stop hw hcan => simp [hc] at hcan
    | insert why err hw =>
      cases err with
      | some m => cases hok
      | none =>
        cases why with
        | full => cases he
        | tick => cases he
        | cancel => simp [ht.stopping hw] at hc
        | final =>
          obtain ⟨hclosed,hres⟩ := ht.finishing hw
          cases he
          exact ⟨rfl,hclosed,hres,rfl⟩
    | _ => cases hl
  · have hwriter := writer_move hm (by simpa using hl)
    obtain ⟨hnone,hclosed,hres,hbuf⟩ := h.done e (hwriter ▸ he)
    refine ⟨hnone,closed_move hclosed hm,?_⟩
    cases hm with
    | send i l r w row hl hp hopen hlen => simp [hopen] at hclosed
    | close | abandon =>
      unfold State.close
      split <;> exact ⟨hres,hbuf⟩
    | receive | receiveEnd | idle | tick | stop | insert => exact absurd rfl hl
    | _ => exact ⟨hres,hbuf⟩

theorem Settled.kept_move {s t : State π} {l : Label} (h : Settled s) (ht : Tracked s) (hm : Moves s l t)
    (hc : s.canceled = false) : t.scheduler ≠ .abandoned ∧ t.scheduler ≠ .abandonedAwaiting := by
  cases hm with
  | drained | sleep | skipEvent | startEvent | nextEvent | spawn | block | unblock | finishRun => simp [State.spawn]
  | close now hs hw => simp [State.close,not_closed ht.counted (by simp [hs,Scheduler.isLate])]
  | join now hs hw => exact absurd hs h.kept.1
  | giveUp now r hs hw => exact absurd hs h.kept.2
  | abandon ev rest hs hcan => simp [hc] at hcan
  | insert why err hw => cases err <;> exact h.kept
  | _ => exact h.kept

theorem Settled.returned_move {s t : State π} {l : Label} (h : Settled s) (ht : Tracked s) (hm : Moves s l t)
    (hc : s.canceled = false) {err : Option RunError} (he : t.scheduler = .returned err) :
    err = none ∧ t.workers = [] ∧ t.results = [] ∧ t.buf = [] := by
  cases hm with
  | drained | sleep | skipEvent | startEvent | nextEvent | spawn | block | unblock | join => cases he
  | close now hs hw =>
    have hopen := not_closed ht.counted (by simp [hs,Scheduler.isLate])
    simp [State.close,hopen] at he
  | abandon ev rest hs hcan => simp [hc] at hcan
  | giveUp now r hs hw => exact absurd hs h.kept.2
  | finishRun now r hs hw =>
    cases he
    obtain ⟨rfl,hclosed,hres,hbuf⟩ := h.done r hw
    rcases ht.counted.joined hclosed with hcan | hnil
    · simp [hc] at hcan
    · exact ⟨rfl,hnil,hres,hbuf⟩
  | dispatched i l r w res derr hl hp =>
    have hnil := (h.returned err he).2.1
    simp [hl] at hnil
  | send i l r w row hl hp hopen hlen =>
    have hnil := (h.returned err he).2.1
    simp [hl] at hnil
  | skip i l r w row hl hp hcan => simp [hc] at hcan
  | release i l r w hl hp =>
    have hnil := (h.returned err he).2.1
    simp [hl] at hnil
  | finish i l r w hl hp =>
    have hnil := (h.returned err he).2.1
    simp [hl] at hnil
  | receive row rest hw hr next hnext =>
    have hres := (h.returned err he).2.2.1
    simp [hr] at hres
  | insert why err' hw =>
    cases err' with
    | some m => exact h.returned err he
    | none =>
      obtain ⟨hnone,hnil,hres,-⟩ := h.returned err he
      exact ⟨hnone,hnil,hres,rfl⟩
  | _ => exact h.returned err he

structure Conserved (cfg : Config π) (evs : List (Event π)) (s : State π) : Prop where
  tracked : Tracked s
  alive : s.panicked = false
  canceled : s.canceled = false
  cfg_eq : s.cfg = cfg
  filled : Filled s
  settled : Settled s
  rows : s.rows.Perm (expected cfg evs)
  tally : s.tally = (expected cfg evs).length+(skipped cfg evs).length

theorem conserved_init (cfg : Config π) (evs : List (Event π)) : Conserved cfg (selected cfg evs) (init cfg evs) := by
  refine ⟨tracked_init cfg evs,rfl,rfl,rfl,?_,⟨?_,?_,?_⟩,?_,?_⟩
  · intro why h
    cases h
  · intro e h
    cases h
  · simp only [init]
    split_ifs <;> simp
  · intro err h
    simp only [init] at h
    split_ifs at h
    cases h
    exact ⟨rfl,rfl,rfl,rfl⟩
  · simp only [init,State.rows,State.toCome]
    split_ifs with hnil
    · simp [hnil,expected_nil]
    · simp
  · simp only [init,State.tally]
    split_ifs with hnil
    · simp [hnil,expected_nil,Scheduler.ahead]
    · simp

theorem cfg_move {s t : State π} {l : Label} (hm : Moves s l t) : t.cfg = s.cfg := by
  cases hm with
  | close | abandon =>
    unfold State.close
    split <;> rfl
  | insert why err hw => cases err <;> rfl
  | _ => rfl

theorem uncanceled_move {s t : State π} {l : Label} (hm : Moves s l t) (hok : Undisturbed s l)
    (hc : s.canceled = false) : t.canceled = false := by
  cases hm with
  | cancel => cases hok
  | close | abandon =>
    unfold State.close
    split <;> exact hc
  | insert why err hw => cases err <;> exact hc
  | _ => exact hc

theorem steady_of_undisturbed {s : State π} {l : Label} {t : State π} (ht : Tracked s) (hc : s.canceled = false)
    (hok : Undisturbed s l) (hm : Moves s l t) : Steady s l := by
  cases hm with
  | send i l r w row hl hp hopen hlen => exact hopen
  | sendClosed i l r w row hl hp hclosed =>
    rcases ht.counted.joined hclosed with hcan | hnil
    · simp [hc] at hcan
    · simp [hl] at hnil
  | insert why err hw =>
    cases err with
    | none => trivial
    | some m => cases hok
  | _ => trivial

theorem conserved_move {cfg : Config π} {evs : List (Event π)} {s t : State π} {l : Label} (h : Conserved cfg evs s)
    (hok : Undisturbed s l) (hm : Moves s l t) : Conserved cfg evs t where
  tracked := tracked_move h.tracked hm
  alive := alive_move h.tracked.counted h.alive (steady_of_undisturbed h.tracked h.canceled hok hm) hm
  canceled := uncanceled_move hm hok h.canceled
  cfg_eq := (cfg_move hm).trans h.cfg_eq
  filled := filled_move h.filled hm
  settled := ⟨fun _ => h.settled.done_move h.tracked hm hok h.canceled,h.settled.kept_move h.tracked hm h.canceled,
    fun _ => h.settled.returned_move h.tracked hm h.canceled⟩
  rows := (rows_move h.tracked.counting hm hok h.canceled).trans h.rows
  tally := (tally_move h.tracked.counting hm h.canceled).trans h.tally

theorem run_weight {cfg : Config π} {evs : List (Event π)} {as : List Label} {s t : State π}
    (hr : Run step Undisturbed s as t) (h : Conserved cfg evs s) :
    (as.filter (· ≠ .tick)).length+t.weight ≤ s.weight := by
  induction hr with
  | nil => simp
  | @cons s u t l as hok hst _ ih =>
    have hm := (moves_of_step hst).2
    have hrest := ih (conserved_move h hok hm)
    by_cases hl : l = .tick
    · subst hl
      have hle := weight_tick hm
      simp only [ne_eq,not_true_eq_false,decide_false,Bool.false_eq_true,not_false_eq_true,List.filter_cons_of_neg]
      exact hrest.trans hle
    · have hlt := weight_move h.tracked h.filled hm hok h.canceled hl
      simp only [ne_eq,hl,not_false_eq_true,decide_true,List.filter_cons_of_pos,List.length_cons]
      simp only [ne_eq] at hrest
      omega

theorem weight_init (cfg : Config π) (evs : List (Event π)) : (init cfg evs).weight ≤
    10*(expected cfg (selected cfg evs)).length+3*(selected cfg evs).length+5 := by
  simp only [init,State.weight]
  split_ifs with hnil
  · simp [Writer.weight,Scheduler.weight,Scheduler.ahead]
  · simp [Writer.weight,Scheduler.weight]
    omega

theorem Conserved.of_returned {cfg : Config π} {evs : List (Event π)} {s : State π} (h : Conserved cfg evs s)
    {err : Option RunError} (hret : s.scheduler = .returned err) :
    (s.inserted.flatten.map (·.eventID)).Perm (expected cfg evs) ∧
    s.summary.eventsDispatched = s.inserted.flatten.length+(skipped cfg evs).length := by
  obtain ⟨-,hworkers,hres,hbuf⟩ := h.settled.returned err hret
  have hrows : (s.inserted.flatten.map (·.eventID)).Perm (expected cfg evs) := by
    have hall := h.rows
    simpa [State.rows,State.toCome,hworkers,hres,hbuf,hret] using hall
  refine ⟨hrows,?_⟩
  have hlen := hrows.length_eq
  have htally := h.tally
  simp only [State.tally,hworkers,hret,outstanding_returned,List.filter_nil,List.length_nil,Scheduler.ahead,
    skipped] at htally
  rw [List.length_map] at hlen
  rw [hlen]
  simpa [skipped] using htally

/-- A run that nobody cancels and whose sink never fails takes a bounded number of steps other than
ticks of the flush timer, can always take one until it returns, and returns without an error after
one row for each event with a dispatcher and each virtual user has gone to the sink. -/
theorem undisturbed_run_conserves {cfg : Config π} {evs : List (Event π)} {as : List Label} {s : State π}
    (hr : Run step Undisturbed (init cfg evs) as s) :
    (as.filter (· ≠ .tick)).length ≤
      10*(expected cfg (selected cfg evs)).length+3*(selected cfg evs).length+5 ∧
    ((∀ err, s.scheduler ≠ .returned err) → ∃ l, Undisturbed s l ∧ l ≠ .tick ∧ (step s l).isSome = true) ∧
    ∀ err, s.scheduler = .returned err → err = none ∧
      (s.inserted.flatten.map (·.eventID)).Perm (expected cfg (selected cfg evs)) ∧
      s.summary.eventsDispatched = s.inserted.flatten.length+(skipped cfg (selected cfg evs)).length := by
  have hinit := conserved_init cfg evs
  have hs : Conserved cfg (selected cfg evs) s := by
    refine hr.invariant (Conserved cfg (selected cfg evs)) ?_ hinit
    intro s l t hs hok hst
    exact conserved_move hs hok (moves_of_step hst).2
  refine ⟨?_,?_,?_⟩
  · have hweight := run_weight hr hinit
    have hbound := weight_init cfg evs
    omega
  · intro hret
    have hroomy : Roomy s := by
      intro e he
      obtain ⟨-,hclosed,hres,-⟩ := hs.settled.done e he
      rcases toCome_of_closed hs.tracked.counted hclosed hres with hcan | hnil
      · exact .inl hcan
      · exact .inr (by simp [hnil])
    obtain ⟨l,hproper,hl⟩ := progresses hs.tracked hroomy hs.alive hret
    refine ⟨l,undisturbed_of_proper hproper,?_,hl⟩
    rintro rfl
    cases hproper
  · intro err hret
    exact ⟨(hs.settled.returned err hret).1,hs.of_returned hret⟩

/-- Two events for two virtual users, the second event without a dispatcher. -/
def sharedConfig : Config Unit := ⟨"rep_1",2,1,0,0,1,0,0,[fun ev => decide (ev.id = "ev_1")]⟩

def sharedRun : List Label :=
  [.schedule 0,.schedule 0,.schedule 0,.dispatched 0 nothing none,.send 0,.release 0,.schedule 0,.finish 0,.receive,
    .tick,.insert none,.dispatched 0 nothing none,.send 0,.release 0,.finish 0,.schedule 0,.schedule 0,
    .schedule 1000000000,.schedule 1000000000,.schedule 1000000000,.receive,.receive,.insert none,
    .schedule 1000000000]

theorem undisturbed_run_conserves_shared :
    ∃ s ∈ exec step (init sharedConfig pairEvents) sharedRun, s.scheduler = .returned none ∧
      s.summary.eventsDispatched = 3 ∧
      (s.inserted.flatten.map (·.eventID)).Perm (expected sharedConfig (selected sharedConfig pairEvents)) := by
  have h : ∃ s ∈ exec step (init sharedConfig pairEvents) sharedRun, s.scheduler = .returned none ∧
      s.summary.eventsDispatched = 3 := by
    decide +kernel
  obtain ⟨s,hs,hret,hd⟩ := h
  have hall := undisturbed_run_conserves (Run.of_exec (by decide +kernel) (Option.mem_def.mp hs))
  exact ⟨s,hs,hret,hd,(hall.2.2 none hret).2.1⟩

end Replay
end Clearvoiance
