import Clearvoiance.ReplaySafety

/-! The rows that a replay run still owes to its writer, and what keeps the run going.  The writer
stops receiving after a failed call of the sink; from then on the rows to come have to fit into the
channel, since nobody takes them out again. -/
namespace Clearvoiance
namespace Replay

open Transition

variable {π : Type}

/-- The ids of the rows that replaying some events gives, in the order of the scheduler. -/
def expected (cfg : Config π) (evs : List (Event π)) : List String :=
  (evs.filter (canDispatch cfg)).flatMap fun ev => (List.range (vuCount cfg)).map (eventIDFor ev.id)

/-- The ids of the rows of an event from a virtual user on. -/
def remaining (cfg : Config π) (ev : Event π) (vu : ℕ) : List String :=
  (List.range' vu (vuCount cfg-vu)).map (eventIDFor ev.id)

/-- The ids of the rows whose workers the scheduler has not started. -/
def Scheduler.outstanding (cfg : Config π) : Scheduler π → List String
  | .loop rest => expected cfg rest
  | .sleeping ev rest => expected cfg (ev :: rest)
  | .fan ev _ vu rest | .blocked ev _ vu rest => remaining cfg ev vu ++ expected cfg rest
  | _ => []

/-- The id of the row that a worker has not handed over. -/
def Worker.owes (w : Worker π) : List String :=
  match w.phase with
  | .dispatching => [eventIDFor w.ev.id w.vu]
  | .sending row => [row.eventID]
  | .releasing | .finishing => []

/-- The ids of the rows that the writer has not received. -/
def State.toCome (s : State π) : List String :=
  s.results.map (·.eventID) ++ (s.workers.flatMap Worker.owes ++ s.scheduler.outstanding s.cfg)

section Outstanding

variable (cfg : Config π) (ev : Event π) (t : Timing) (vu : ℕ) (rest : List (Event π))

@[simp] theorem outstanding_loop : (Scheduler.loop rest).outstanding cfg = expected cfg rest := rfl

@[simp] theorem outstanding_sleeping :
    (Scheduler.sleeping ev rest).outstanding cfg = expected cfg (ev :: rest) := rfl

@[simp] theorem outstanding_fan :
    (Scheduler.fan ev t vu rest).outstanding cfg = remaining cfg ev vu ++ expected cfg rest := rfl

@[simp] theorem outstanding_blocked :
    (Scheduler.blocked ev t vu rest).outstanding cfg = remaining cfg ev vu ++ expected cfg rest := rfl

@[simp] theorem outstanding_waiting : (Scheduler.waiting : Scheduler π).outstanding cfg = [] := rfl

theorem outstanding_late {sch : Scheduler π} (h : sch.isLate = true) : sch.outstanding cfg = [] := by
  cases sch with
  | awaiting | abandoned | abandonedAwaiting | returned => rfl
  | _ => cases h

@[simp] theorem outstanding_awaiting : (Scheduler.awaiting : Scheduler π).outstanding cfg = [] := rfl

@[simp] theorem outstanding_abandoned : (Scheduler.abandoned : Scheduler π).outstanding cfg = [] := rfl

@[simp] theorem outstanding_abandonedAwaiting :
    (Scheduler.abandonedAwaiting : Scheduler π).outstanding cfg = [] := rfl

@[simp] theorem outstanding_returned (err : Option RunError) :
    (Scheduler.returned err : Scheduler π).outstanding cfg = [] := rfl

end Outstanding

theorem expected_nil (cfg : Config π) : expected cfg [] = [] := rfl

theorem expected_cons_of_not {cfg : Config π} {ev : Event π} (h : canDispatch cfg ev = false)
    (rest : List (Event π)) : expected cfg (ev :: rest) = expected cfg rest := by
  simp [expected,h]

theorem expected_cons_of {cfg : Config π} {ev : Event π} (h : canDispatch cfg ev = true)
    (rest : List (Event π)) : expected cfg (ev :: rest) = remaining cfg ev 0 ++ expected cfg rest := by
  simp [expected,remaining,h,List.range_eq_range']

theorem remaining_of_le {cfg : Config π} {vu : ℕ} (h : vuCount cfg ≤ vu) (ev : Event π) :
    remaining cfg ev vu = [] := by
  have hzero : vuCount cfg-vu = 0 := by omega
  simp [remaining,hzero]

theorem remaining_of_lt {cfg : Config π} {vu : ℕ} (h : vu < vuCount cfg) (ev : Event π) :
    remaining cfg ev vu = eventIDFor ev.id vu :: remaining cfg ev (vu+1) := by
  have hsucc : vuCount cfg-vu = vuCount cfg-(vu+1)+1 := by omega
  simp [remaining,hsucc,List.range'_succ]

theorem Due.outstanding {s : State π} {ev : Event π} {rest : List (Event π)} (h : Due s ev rest) :
    s.scheduler.outstanding s.cfg = expected s.cfg (ev :: rest) := by
  rcases h with h | h <;> simp [h]

/-- A scheduler that waits for the semaphore waits on behalf of a virtual user of the run. -/
def Counting (s : State π) : Prop :=
  ∀ ev t vu rest, s.scheduler = .blocked ev t vu rest → vu < vuCount s.cfg

theorem counting_move {s t : State π} {l : Label} (h : Counting s) (hm : Moves s l t) : Counting t := by
  cases hm with
  | block now ev t vu rest hs hvu hp =>
    intro ev' t' vu' rest' heq
    cases heq
    exact hvu
  | insert why err hw => cases err <;> exact h
  | close now hs hw =>
    intro ev' t' vu' rest' heq
    cases hclosed : s.closed <;> simp only [State.close,hclosed,if_true,if_false,Bool.false_eq_true] at heq ⊢
    · cases heq
    · exact h _ _ _ _ heq
  | abandon ev rest hs hc =>
    intro ev' t' vu' rest' heq
    cases hclosed : s.closed <;> simp only [State.close,hclosed,if_true,if_false,Bool.false_eq_true] at heq ⊢
    · cases heq
    · exact h _ _ _ _ heq
  | drained | sleep | skipEvent | startEvent | nextEvent | spawn | unblock | finishRun | join | giveUp =>
    intro ev' t' vu' rest' heq
    cases heq
  | _ => exact h

/-- The scheduler starts a worker: what it owed, the worker owes. -/
theorem toCome_spawn {s : State π} {ev : Event π} {t : Timing} {vu : ℕ} {rest : List (Event π)}
    (hs : s.scheduler.outstanding s.cfg = remaining s.cfg ev vu ++ expected s.cfg rest) (hvu : vu < vuCount s.cfg) :
    (s.spawn ev t vu rest).toCome = s.toCome := by
  simp only [State.toCome,State.spawn,outstanding_fan,hs,remaining_of_lt hvu]
  simp [Worker.owes]

/-- A step that is neither a receive of the writer nor a reaction to a cancellation keeps the rows
to come. -/
theorem toCome_keep {s t : State π} {l : Label} (h : Counting s) (hm : Moves s l t) (hne : l ≠ .receive)
    (hskip : ∀ i, l ≠ .skip i) (hgo : l ≠ .abandon) : t.toCome.Perm s.toCome := by
  cases hm with
  | cancel => exact .refl _
  | drained now hs => simp [State.toCome,hs,expected_nil]
  | sleep now ev rest hs => simp [State.toCome,hs]
  | skipEvent now ev rest hd hn =>
    simp [State.toCome,hd.outstanding,expected_cons_of_not hn]
  | startEvent now ev t rest hd hn =>
    simp [State.toCome,hd.outstanding,expected_cons_of hn]
  | nextEvent now ev t vu rest hs hvu =>
    simp [State.toCome,hs,remaining_of_le hvu]
  | spawn now ev t vu rest hs hvu hp =>
    have hout : s.scheduler.outstanding s.cfg = remaining s.cfg ev vu ++ expected s.cfg rest := by simp [hs]
    exact .of_eq (toCome_spawn (t := t) hout hvu)
  | block now ev t vu rest hs hvu hp => simp [State.toCome,hs]
  | unblock now ev t vu rest hs hp =>
    have hout : s.scheduler.outstanding s.cfg = remaining s.cfg ev vu ++ expected s.cfg rest := by simp [hs]
    exact .of_eq (toCome_spawn (t := t) hout (h ev t vu rest hs))
  | close now hs hw =>
    unfold State.close
    split <;> simp [State.toCome,hs]
  | finishRun now r hs hw => simp [State.toCome,hs]
  | join now hs hw => simp [State.toCome,hs]
  | giveUp now r hs hw => simp [State.toCome,hs]
  | abandon ev rest hs hcan => exact absurd rfl hgo
  | dispatched i l r w res derr hl hp => simp [State.toCome,hl,Worker.owes,hp,resultRow]
  | send i l r w row hl hp hopen hlen =>
    simp only [State.toCome,hl,Worker.owes,hp,List.flatMap_append,List.flatMap_cons,List.map_append,List.map_cons,
      List.map_nil,List.nil_append,List.append_assoc]
    exact (List.perm_append_comm_assoc _ _ _).append_left _
  | sendClosed i l r w row hl hp hclosed => exact .refl _
  | skip i l r w row hl hp hcan => exact absurd rfl (hskip i)
  | release i l r w hl hp => simp [State.toCome,hl,Worker.owes,hp]
  | finish i l r w hl hp => simp [State.toCome,hl,Worker.owes,hp]
  | receive row rest hw hr next hnext => simp at hne
  | receiveEnd hw hr hclosed => simp at hne
  | idle hw hb => exact .refl _
  | tick hw hb => exact .refl _
  | stop hw hcan => exact .refl _
  | insert why err hw => cases err <;> exact .refl _

theorem toCome_move {s t : State π} {l : Label} (h : Counting s) (hm : Moves s l t) (hne : l ≠ .receive)
    (hc : s.canceled = false) : t.toCome.Perm s.toCome := by
  refine toCome_keep h hm hne ?_ ?_
  · intro i hl
    subst hl
    cases hm with
    | skip _ l r w row _ _ hcan => simp [hc] at hcan
  · intro hl
    subst hl
    cases hm with
    | abandon ev rest _ hcan => simp [hc] at hcan

theorem canceled_move {s t : State π} {l : Label} (h : s.canceled = true) (hm : Moves s l t) : t.canceled = true := by
  cases hm with
  | cancel => rfl
  | close | abandon =>
    unfold State.close
    split <;> exact h
  | insert why err hw => cases err <;> exact h
  | _ => exact h

def Label.writes : Label → Bool
  | .receive | .tick | .stop | .insert _ => true
  | _ => false

theorem writer_move {s t : State π} {l : Label} (hm : Moves s l t) (hl : l.writes = false) : t.writer = s.writer := by
  cases hm with
  | close | abandon =>
    unfold State.close
    split <;> rfl
  | receive | receiveEnd | idle | tick | stop | insert => cases hl
  | _ => rfl

theorem closed_move {s t : State π} {l : Label} (h : s.closed = true) (hm : Moves s l t) : t.closed = true := by
  cases hm with
  | close | abandon => simp [State.close,h]
  | insert why err hw => cases err <;> exact h
  | _ => exact h

/-- A scheduler that is past its loop has closed the channel, or had nothing to replay. -/
def Opened (s : State π) : Prop :=
  s.scheduler.isLate = true → s.closed = true ∨ ∃ err, s.scheduler = .returned err

theorem opened_move {s t : State π} {l : Label} (h : Opened s) (hm : Moves s l t) : Opened t := by
  cases hm with
  | drained | sleep | skipEvent | startEvent | nextEvent | spawn | block | unblock =>
    intro hlate
    cases hlate
  | close now hs hw =>
    intro _
    cases hc : s.closed <;> simp [State.close,hc]
  | abandon ev rest hs hcan =>
    intro _
    cases hc : s.closed <;> simp [State.close,hc]
  | finishRun now r hs hw => exact fun _ => .inr ⟨_,rfl⟩
  | giveUp now r hs hw => exact fun _ => .inr ⟨_,rfl⟩
  | join now hs hw =>
    intro _
    have hclosed := h (by simp [hs,Scheduler.isLate])
    simpa [hs] using hclosed
  | insert why err hw => cases err <;> exact h
  | _ => exact h

/-- The last flush comes when the channel is closed and empty. -/
def Finishing (s : State π) : Prop := s.writer = .inserting .final → s.closed = true ∧ s.results = []

theorem finishing_move {s t : State π} {l : Label} (h : Finishing s) (hm : Moves s l t) : Finishing t := by
  intro hfinal
  by_cases hl : l.writes = true
  · cases hm with
    | receive row rest hw hr next hnext => rcases hnext with rfl | rfl <;> cases hfinal
    | receiveEnd hw hr hc => exact ⟨hc,hr⟩
    | idle hw hb => exact h hfinal
    | tick => cases hfinal
    | stop =>
      simp only at hfinal
      split_ifs at hfinal
      cases hfinal
    | insert why err hw => cases err <;> cases why <;> cases hfinal
    | _ => cases hl
  · have hwriter := writer_move hm (by simpa using hl)
    obtain ⟨hclosed,hres⟩ := h (hwriter ▸ hfinal)
    refine ⟨closed_move hclosed hm,?_⟩
    cases hm with
    | send i l r w row hl hp hopen hlen => simp [hopen] at hclosed
    | close | abandon => simpa [State.close,hclosed] using hres
    | receive | receiveEnd | idle | tick | stop | insert => exact absurd rfl hl
    | _ => exact hres

def Stopping (s : State π) : Prop := s.writer = .inserting .cancel → s.canceled = true

theorem stopping_move {s t : State π} {l : Label} (h : Stopping s) (hm : Moves s l t) : Stopping t := by
  intro hcancel
  by_cases hl : l.writes = true
  · cases hm with
    | receive row rest hw hr next hnext => rcases hnext with rfl | rfl <;> cases hcancel
    | receiveEnd hw hr hc =>
      simp only at hcancel
      split_ifs at hcancel
      cases hcancel
    | idle hw hb => exact h hcancel
    | tick => cases hcancel
    | stop hw hc => exact hc
    | insert why err hw => cases err <;> cases why <;> cases hcancel
    | _ => cases hl
  · have hwriter := writer_move hm (by simpa using hl)
    exact canceled_move (h (hwriter ▸ hcancel)) hm

/-- The rows to come fit into the channel once the writer has stopped. -/
def Roomy (s : State π) : Prop := ∀ e, s.writer = .done e → s.canceled = true ∨ s.toCome.length ≤ capacity

/-- What holds in every state of a run whatever the sink answers. -/
structure Tracked (s : State π) : Prop where
  counted : Counted s
  counting : Counting s
  opened : Opened s
  finishing : Finishing s
  stopping : Stopping s

theorem tracked_init (cfg : Config π) (evs : List (Event π)) : Tracked (init cfg evs) := by
  refine ⟨counted_init cfg evs,?_,?_,?_,?_⟩
  · intro ev t vu rest heq
    simp only [init] at heq
    split_ifs at heq
  · intro hlate
    simp only [init] at hlate ⊢
    split_ifs at hlate ⊢
    · exact .inr ⟨none,rfl⟩
    · cases hlate
  · intro h
    cases h
  · intro h
    cases h

theorem tracked_move {s t : State π} {l : Label} (h : Tracked s) (hm : Moves s l t) : Tracked t :=
  ⟨counted_move h.counted hm,counting_move h.counting hm,opened_move h.opened hm,finishing_move h.finishing hm,
    stopping_move h.stopping hm⟩

/-- A closed channel of a run that goes on has no worker behind it, and no worker to come. -/
theorem toCome_of_closed {s : State π} (h : Counted s) (hclosed : s.closed = true) (hres : s.results = []) :
    s.canceled = true ∨ s.toCome = [] := by
  rcases h.joined hclosed with hcan | hnil
  · exact .inl hcan
  · exact .inr (by simp [State.toCome,hres,hnil,outstanding_late _ (h.late hclosed)])

/-- A call of the sink fails only when the rows to come fit into the channel, unless the run is
canceled; and no worker sends on the closed channel. -/
def Steady (s : State π) : Label → Prop
  | .insert (some _) => s.canceled = true ∨ s.toCome.length ≤ capacity
  | .send _ => s.closed = false
  | _ => True

instance (s : State π) : DecidablePred (Steady s)
  | .insert (some _) => inferInstanceAs (Decidable (s.canceled = true ∨ s.toCome.length ≤ capacity))
  | .send _ => inferInstanceAs (Decidable (s.closed = false))
  | .insert none | .cancel | .schedule _ | .abandon | .dispatched .. | .skip _ | .release _ | .finish _ | .receive
  | .tick | .stop => inferInstanceAs (Decidable True)

theorem roomy_move {s t : State π} {l : Label} (h : Roomy s) (ht : Tracked s) (hok : Steady s l) (hm : Moves s l t) :
    Roomy t := by
  intro e he
  cases hcan : s.canceled with
  | true => exact .inl (canceled_move hcan hm)
  | false =>
    by_cases hl : l.writes = true
    · cases hm with
      | receive row rest hw hr next hnext => rcases hnext with rfl | rfl <;> cases he
      | receiveEnd hw hr hc =>
        rcases toCome_of_closed ht.counted hc hr with hcan' | hnil
        · exact .inl hcan'
        · refine .inr ?_
          have hnil' : ({ s with writer := if s.buf = [] then .done none else .inserting .final } : State π).toCome = [] :=
            hnil
          simp [hnil']
      | idle hw hb => exact h e he
      | tick => cases he
      | stop hw hc => simp [hc] at hcan
      | insert why err hw =>
        cases err with
        | some m => exact hok
        | none =>
          cases why with
          | full => cases he
          | tick => cases he
          | cancel => exact .inl (ht.stopping hw)
          | final =>
            obtain ⟨hclosed,hres⟩ := ht.finishing hw
            rcases toCome_of_closed ht.counted hclosed hres with hcan' | hnil
            · exact .inl hcan'
            · refine .inr ?_
              have hnil' : (s.insert .final none).toCome = [] := hnil
              simp [hnil']
      | _ => cases hl
    · have hwriter := writer_move hm (by simpa using hl)
      rcases h e (hwriter ▸ he) with hcan' | hroom
      · simp [hcan'] at hcan
      · have hne : l ≠ .receive := by
          rintro rfl
          exact hl rfl
        exact .inr ((toCome_move ht.counting hm hne hcan).length_eq.trans_le hroom)

/-- Neither the cancellation, nor the flush timer, nor a failure of the sink. -/
def Label.proper : Label → Bool
  | .cancel | .tick | .insert (some _) => false
  | _ => true

/-- The scheduler, a worker or the writer can move. -/
def Progresses (s : State π) : Prop := ∃ l : Label, l.proper = true ∧ (step s l).isSome = true

theorem writer_progresses {s : State π} (ha : s.panicked = false) (hw : ∀ e, s.writer ≠ .done e)
    (hinput : s.closed = true ∨ s.results ≠ []) : Progresses s := by
  cases hwriter : s.writer with
  | done e => exact absurd hwriter (hw e)
  | inserting why => exact ⟨.insert none,rfl,by simp [step,ha,hwriter]⟩
  | selecting =>
    refine ⟨.receive,rfl,?_⟩
    cases hres : s.results with
    | cons row rest => simp [step,ha,hwriter,State.receive,hres]
    | nil =>
      have hclosed : s.closed = true := by simpa [hres] using hinput
      simp [step,ha,hwriter,State.receive,hres,hclosed]

/-- A worker can hand its row over, or somebody makes room for it. -/
theorem sending_progresses {s : State π} (ht : Tracked s) (hr : Roomy s) (ha : s.panicked = false) {i : ℕ}
    {w : Worker π} (hi : s.workers[i]? = some w) {row : ResultRow} (hp : w.phase = .sending row) : Progresses s := by
  cases hcan : s.canceled with
  | true => exact ⟨.skip i,rfl,by simp [step,ha,State.phase,hi,hp,hcan]⟩
  | false =>
    have hopen : s.closed = false := by
      cases hclosed : s.closed with
      | false => rfl
      | true =>
        rcases ht.counted.joined hclosed with hcan' | hnil
        · simp [hcan'] at hcan
        · simp [hnil] at hi
    by_cases hlen : s.results.length < capacity
    · exact ⟨.send i,rfl,by simp [step,ha,State.phase,hi,hp,State.send,hopen,hlen]⟩
    · refine writer_progresses ha ?_ (.inr ?_)
      · intro e he
        rcases hr e he with hcan' | hroom
        · simp [hcan'] at hcan
        · have hmem : row.eventID ∈ s.workers.flatMap Worker.owes := by
            refine List.mem_flatMap.mpr ⟨w,List.mem_of_getElem? hi,?_⟩
            simp [Worker.owes,hp]
          have hpos := List.length_pos_of_mem hmem
          simp only [State.toCome,List.length_append,List.length_map] at hroom
          omega
      · intro hnil
        simp [hnil,capacity] at hlen

theorem worker_progresses {s : State π} (ht : Tracked s) (hr : Roomy s) (ha : s.panicked = false)
    (hne : s.workers ≠ []) : Progresses s := by
  obtain ⟨w,hw⟩ := List.exists_mem_of_ne_nil _ hne
  obtain ⟨i,hi⟩ := List.getElem?_of_mem hw
  cases hp : w.phase with
  | dispatching => exact ⟨.dispatched i ⟨0,0,0,0,"","","","",""⟩ none,rfl,by simp [step,ha,hi,hp]⟩
  | sending row => exact sending_progresses ht hr ha hi hp
  | releasing => exact ⟨.release i,rfl,by simp [step,ha,State.phase,hi,hp]⟩
  | finishing => exact ⟨.finish i,rfl,by simp [step,ha,State.phase,hi,hp]⟩

theorem hasPermit_of_idle {s : State π} (h : Counted s) (hnil : s.workers = []) : s.hasPermit = true := by
  have htaken : s.taken = 0 := by simpa [hnil] using h.taken
  unfold State.hasPermit slots
  split_ifs with hmax
  · simp only [htaken,decide_eq_true_eq]
    omega
  · rfl

theorem scheduler_progresses {s : State π} (ht : Tracked s) (ha : s.panicked = false) (hnil : s.workers = [])
    (hret : ∀ err, s.scheduler ≠ .returned err) : Progresses s := by
  have hwg := ht.counted.wg
  rw [hnil] at hwg
  have hpermit := hasPermit_of_idle ht.counted hnil
  have hwriter : s.scheduler.isLate = true → (∀ e, s.writer ≠ .done e) → Progresses s := by
    intro hlate hw
    refine writer_progresses ha hw (.inl ?_)
    rcases ht.opened hlate with hclosed | ⟨err,hs⟩
    · exact hclosed
    · exact absurd hs (hret err)
  have hgo : (s.schedule 0).isSome = true → Progresses s := by
    intro h
    exact ⟨.schedule 0,rfl,by simpa [step,ha] using h⟩
  cases hs : s.scheduler with
  | loop rest =>
    apply hgo
    cases rest with
    | nil => simp [State.schedule,hs]
    | cons ev rest =>
      simp only [State.schedule,hs]
      split_ifs <;> rfl
  | sleeping ev rest => exact hgo (by simp [State.schedule,hs])
  | fan ev t vu rest =>
    apply hgo
    simp only [State.schedule,hs]
    split_ifs <;> rfl
  | blocked ev t vu rest => exact hgo (by simp [State.schedule,hs,hpermit])
  | waiting => exact hgo (by simp [State.schedule,hs,hwg,Scheduler.isBlocked])
  | awaiting =>
    by_cases hdone : ∃ e, s.writer = .done e
    · obtain ⟨e,he⟩ := hdone
      apply hgo
      rcases e with _ | _ | m <;> simp [State.schedule,hs,he]
    · exact hwriter (by simp [hs,Scheduler.isLate]) (by simpa using hdone)
  | abandoned => exact hgo (by simp [State.schedule,hs,hwg,Scheduler.isBlocked])
  | abandonedAwaiting =>
    by_cases hdone : ∃ e, s.writer = .done e
    · obtain ⟨e,he⟩ := hdone
      exact hgo (by simp [State.schedule,hs,he])
    · exact hwriter (by simp [hs,Scheduler.isLate]) (by simpa using hdone)
  | returned err => exact absurd hs (hret err)

theorem progresses {s : State π} (ht : Tracked s) (hr : Roomy s) (ha : s.panicked = false)
    (hret : ∀ err, s.scheduler ≠ .returned err) : Progresses s := by
  by_cases hnil : s.workers = []
  · exact scheduler_progresses ht ha hnil hret
  · exact worker_progresses ht hr ha hnil

theorem alive_move {s t : State π} {l : Label} (h : Counted s) (ha : s.panicked = false) (hok : Steady s l)
    (hm : Moves s l t) : t.panicked = false := by
  cases hm with
  | close now hs hw => simp [State.close,not_closed h (by simp [hs,Scheduler.isLate]),ha]
  | abandon ev rest hs hc => simp [State.close,not_closed h (by simp [hs,Scheduler.isLate]),ha]
  | sendClosed i l r w row hl hp hc =>
    have hopen : s.closed = false := hok
    simp [hopen] at hc
  | insert why err hw => cases err <;> exact ha
  | _ => exact ha

/-- In every run in which the sink fails only when the rows to come fit into the channel, and in
which no worker crashes on the closed channel, a state that has not returned can move on without a
cancellation. -/
theorem steady_run_progresses {cfg : Config π} {evs : List (Event π)} {as : List Label} {s : State π}
    (hr : Run step Steady (init cfg evs) as s) (hret : ∀ err, s.scheduler ≠ .returned err) :
    ∃ l : Label, l ≠ .cancel ∧ l ≠ .tick ∧ (step s l).isSome = true := by
  have hinit : Tracked (init cfg evs) ∧ Roomy (init cfg evs) ∧ (init cfg evs).panicked = false := by
    refine ⟨tracked_init cfg evs,?_,rfl⟩
    intro e he
    cases he
  have hinv : Tracked s ∧ Roomy s ∧ s.panicked = false := by
    refine hr.invariant (fun s => Tracked s ∧ Roomy s ∧ s.panicked = false) ?_ hinit
    intro s l t hs hok hst
    obtain ⟨ht,hroomy,halive⟩ := hs
    have hm := (moves_of_step hst).2
    exact ⟨tracked_move ht hm,roomy_move hroomy ht hok hm,alive_move ht.counted halive hok hm⟩
  obtain ⟨l,hproper,hl⟩ := progresses hinv.1 hinv.2.1 hinv.2.2 hret
  refine ⟨l,?_,?_,hl⟩
  · rintro rfl
    cases hproper
  · rintro rfl
    cases hproper

/-- One event for more virtual users than the channel has room for. -/
def crowdConfig : Config Unit := ⟨"rep_1",1026,0,0,0,1,0,0,[fun _ => true]⟩

def crowdEvent : Event Unit := ⟨"ev_1",0,()⟩

/-- The sink has failed, nobody cancels, and `n` rows sit in the channel when the scheduler is about to
start the worker of virtual user `vu`. -/
structure Outage (s : State Unit) (vu n : ℕ) : Prop where
  alive : s.panicked = false
  users : vuCount s.cfg = 1026
  unlimited : slots s.cfg = none
  scheduler : ∃ ev t, s.scheduler = .fan ev t vu []
  workers : s.workers = []
  wg : s.wg = 0
  results : s.results.length = n
  isOpen : s.closed = false
  writer : ∃ m, s.writer = .done (some (.sink m))
  canceled : s.canceled = false

theorem outage_opens : ∃ s, exec step (init crowdConfig [crowdEvent]) [.schedule 0,.schedule 0,
    .dispatched 0 nothing none,.send 0,.release 0,.finish 0,.receive,.tick,.insert (some ⟨"sink down",false⟩)] = some s ∧
    Outage s 1 0 := by
  have hdue : ¬ (0 : ℤ) < (init crowdConfig [crowdEvent]).fireAt crowdEvent := by decide +kernel
  have hstep : step (init crowdConfig [crowdEvent]) (.schedule 0) =
      some ((init crowdConfig [crowdEvent]).fire crowdEvent [] 0) := if_neg hdue
  have hfire : exec step (init crowdConfig [crowdEvent]) [.schedule 0] =
      some ((init crowdConfig [crowdEvent]).fire crowdEvent [] 0) := by
    simp only [exec,hstep,Option.bind_some]
  refine ⟨_,(exec_append hfire).trans rfl,?_⟩
  exact ⟨rfl,rfl,rfl,⟨_,_,rfl⟩,rfl,rfl,rfl,rfl,⟨_,rfl⟩,rfl⟩

/-- The worker of one more virtual user puts its row into the channel. -/
theorem outage_round {s : State Unit} {vu n : ℕ} (h : Outage s vu n) (hvu : vu < 1026) (hn : n < capacity) :
    ∃ as u, exec step s as = some u ∧ Outage u (vu+1) (n+1) := by
  obtain ⟨halive,husers,hslots,⟨ev,t,hs⟩,hworkers,hwg,hres,hopen,hwriter,hcan⟩ := h
  have hle : ¬ vuCount s.cfg ≤ vu := by omega
  have hlen : s.results.length < capacity := by omega
  have hpermit : s.hasPermit = true := by simp [State.hasPermit,hslots]
  let row := resultRow s.cfg ev vu t nothing none
  refine ⟨[.schedule 0,.dispatched 0 nothing none,.send 0,.release 0,.finish 0],
    { s with scheduler := .fan ev t (vu+1) [], results := s.results ++ [row]
             summary := s.summary.record row false },?_,?_⟩
  · simp [exec,step,halive,State.schedule,hs,hle,hpermit,State.spawn,hworkers,State.dispatched,State.setPhase,
      State.phase,State.send,hopen,hlen,nothing,row]
  · exact ⟨halive,husers,hslots,⟨ev,t,rfl⟩,hworkers,hwg,by simp [hres],hopen,hwriter,hcan⟩

theorem outage_rounds {s : State Unit} {vu n : ℕ} (h : Outage s vu n) (k : ℕ) (hvu : vu+k ≤ 1026) (hn : n+k ≤ capacity) :
    ∃ as u, exec step s as = some u ∧ Outage u (vu+k) (n+k) := by
  induction k with
  | zero => exact ⟨[],s,rfl,h⟩
  | succ k ih =>
    obtain ⟨as,u,hu,hout⟩ := ih (by omega) (by omega)
    obtain ⟨bs,v,hv,hout'⟩ := outage_round hout (by omega) (by omega)
    exact ⟨as ++ bs,v,(exec_append hu).trans hv,hout'⟩

/-- The last worker finds the channel full, and everybody waits for it. -/
theorem outage_blocks {s : State Unit} (h : Outage s 1025 capacity) : ∃ as u, exec step s as = some u ∧
    (∀ err, u.scheduler ≠ .returned err) ∧ ∀ l : Label, l ≠ .cancel → step u l = none := by
  obtain ⟨halive,husers,hslots,⟨ev,t,hs⟩,hworkers,hwg,hres,hopen,⟨m,hwriter⟩,hcan⟩ := h
  have hpermit : s.hasPermit = true := by simp [State.hasPermit,hslots]
  let row := resultRow s.cfg ev 1025 t nothing none
  refine ⟨[.schedule 0,.dispatched 0 nothing none,.schedule 0,.schedule 0],
    { s with scheduler := .waiting, workers := [⟨ev,1025,t,.sending row⟩], taken := s.taken+1, wg := s.wg+1
             summary := s.summary.record row false },?_,?_,?_⟩
  · simp [exec,step,halive,State.schedule,hs,husers,hpermit,State.spawn,hworkers,State.dispatched,State.setPhase,
      nothing,row]
  · intro err
    simp
  · intro l hl
    cases l with
    | cancel => exact absurd rfl hl
    | schedule now => simp [step,State.schedule]
    | abandon => simp [step,State.abandon]
    | dispatched i res derr => rcases i with _ | i <;> simp [step]
    | send i => rcases i with _ | i <;> simp [step,State.phase,State.send,hopen,hres]
    | skip i => rcases i with _ | i <;> simp [step,State.phase,hcan]
    | release i => rcases i with _ | i <;> simp [step,State.phase]
    | finish i => rcases i with _ | i <;> simp [step,State.phase]
    | receive => simp [step,hwriter]
    | tick => simp [step,hwriter]
    | stop => simp [step,hwriter]
    | insert err => simp [step,hwriter]

theorem outage_run_blocks : ∃ as s, exec step (init crowdConfig [crowdEvent]) as = some s ∧
    (∀ err, s.scheduler ≠ .returned err) ∧ ∀ l : Label, l ≠ .cancel → step s l = none := by
  obtain ⟨s,hs,hout⟩ := outage_opens
  obtain ⟨as,u,hu,hout'⟩ := outage_rounds hout 1024 (by omega) (by decide)
  obtain ⟨bs,v,hv,hret,hstuck⟩ := outage_blocks (by simpa [capacity] using hout')
  exact ⟨_,v,(exec_append hs).trans ((exec_append hu).trans hv),hret,hstuck⟩

/-- The sink fails for a run of two events. -/
def failedRun : List Label :=
  [.schedule 0,.schedule 0,.schedule 0,.schedule 0,.dispatched 0 nothing none,.send 0,.receive,.tick,
    .insert (some ⟨"sink down",false⟩)]

theorem steady_run_progresses_failed : ∃ s ∈ exec step (init pairConfig pairEvents) failedRun,
    s.writer = .done (some (.sink ⟨"sink down",false⟩)) ∧
    ∃ l : Label, l ≠ .cancel ∧ l ≠ .tick ∧ (step s l).isSome = true := by
  have h : ∃ s ∈ exec step (init pairConfig pairEvents) failedRun,
      s.writer = .done (some (.sink ⟨"sink down",false⟩)) ∧ s.scheduler = .sleeping ⟨"ev_2",1000000000,()⟩ [] := by
    decide +kernel
  obtain ⟨s,hs,hw,hsch⟩ := h
  refine ⟨s,hs,hw,steady_run_progresses (Run.of_exec ?_ (Option.mem_def.mp hs)) ?_⟩
  · decide +kernel
  · simp [hsch]

end Replay
end Clearvoiance
