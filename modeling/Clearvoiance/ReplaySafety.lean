import Clearvoiance.Replay

/-! The results channel of a replay run.  The scheduler closes it after the last worker is done, or,
when the run is canceled during a sleep, at once; a worker that still has a row to hand over then
sends on a closed channel if its `select` picks that side. -/
namespace Clearvoiance
namespace Replay

open Transition

variable {π : Type}

/-- The worker has not left the `select` that hands over its row. -/
def Worker.unsent (w : Worker π) : Bool :=
  match w.phase with
  | .dispatching | .sending _ => true
  | .releasing | .finishing => false

def Worker.holds (w : Worker π) : Bool := w.phase ≠ .finishing

/-- The scheduler has closed the channel, or never opened it. -/
def Scheduler.isLate : Scheduler π → Bool
  | .awaiting | .abandoned | .abandonedAwaiting | .returned _ => true
  | _ => false

def Scheduler.isBlocked : Scheduler π → Bool
  | .blocked .. => true
  | _ => false

/-- The counters agree with the workers, and the channel is closed only by a scheduler that is past
its loop. -/
structure Counted (s : State π) : Prop where
  wg : s.wg = s.workers.length+(if s.scheduler.isBlocked then 1 else 0)
  taken : s.taken = (s.workers.filter Worker.holds).length
  late : s.closed = true → s.scheduler.isLate = true
  joined : s.closed = true → s.canceled = true ∨ s.workers = []

theorem counted_init (cfg : Config π) (evs : List (Event π)) : Counted (init cfg evs) := by
  constructor
  · simp only [init]
    split_ifs <;> simp_all [Scheduler.isBlocked]
  · simp [init]
  · intro h
    cases h
  · intro h
    cases h

theorem not_closed {s : State π} (h : Counted s) (hs : s.scheduler.isLate = false) : s.closed = false := by
  cases hc : s.closed with
  | false => rfl
  | true =>
    rw [h.late hc] at hs
    cases hs

theorem Due.not_late {s : State π} {ev : Event π} {rest : List (Event π)} (h : Due s ev rest) :
    s.scheduler.isLate = false ∧ s.scheduler.isBlocked = false := by
  rcases h with h | h <;> simp [h,Scheduler.isLate,Scheduler.isBlocked]

theorem Counted.advance {s : State π} (h : Counted s) (hlate : s.scheduler.isLate = false)
    (hblocked : s.scheduler.isBlocked = false) (sum : Summary) {next : Scheduler π} (hnext : next.isBlocked = false) :
    Counted { s with summary := sum, scheduler := next } := by
  have hopen := not_closed h hlate
  refine ⟨?_,h.taken,?_,?_⟩
  · simpa [hblocked,hnext] using h.wg
  · intro hc
    exact absurd hc (by simp [hopen])
  · intro hc
    exact absurd hc (by simp [hopen])

theorem Counted.setPhase {s : State π} (h : Counted s) {l r : List (Worker π)} {w w' : Worker π}
    (hl : s.workers = l ++ w :: r) (hh : w'.holds = w.holds) (sum : Summary) (rows : List ResultRow) :
    Counted { s with workers := l ++ w' :: r, summary := sum, results := rows } := by
  refine ⟨?_,?_,h.late,?_⟩
  · have := h.wg
    rw [hl] at this
    simpa using this
  · have hcount := h.taken
    rw [hl] at hcount
    simp only [List.filter_append,List.filter_cons,hh,List.length_append] at hcount ⊢
    rw [hcount]
    cases w.holds <;> simp
  · intro hc
    rcases h.joined hc with hcan | hnil
    · exact .inl hcan
    · simp [hl] at hnil

theorem Counted.spawn {s : State π} (h : Counted s) (ev : Event π) (t : Timing) (vu : ℕ) (rest : List (Event π))
    {n : ℕ} (hn : n = s.workers.length+1) (hlate : s.scheduler.isLate = false) :
    Counted { s.spawn ev t vu rest with wg := n } := by
  have hopen := not_closed h hlate
  refine ⟨?_,?_,?_,?_⟩
  · simp [State.spawn,Scheduler.isBlocked,hn]
  · simp [State.spawn,h.taken,Worker.holds]
  · intro hc
    exact absurd hc (by simp [State.spawn,hopen])
  · intro hc
    exact absurd hc (by simp [State.spawn,hopen])

theorem counted_move {s t : State π} {l : Label} (h : Counted s) (hm : Moves s l t) : Counted t := by
  cases hm with
  | cancel => exact ⟨h.wg,h.taken,h.late,fun _ => .inl rfl⟩
  | drained now hs => exact h.advance (by simp [hs,Scheduler.isLate]) (by simp [hs,Scheduler.isBlocked]) _ rfl
  | sleep now ev rest hs => exact h.advance (by simp [hs,Scheduler.isLate]) (by simp [hs,Scheduler.isBlocked]) _ rfl
  | skipEvent now ev rest hd hc => exact h.advance hd.not_late.1 hd.not_late.2 _ rfl
  | startEvent now ev t rest hd hc => exact h.advance hd.not_late.1 hd.not_late.2 _ rfl
  | nextEvent now ev t vu rest hs hvu =>
    exact h.advance (by simp [hs,Scheduler.isLate]) (by simp [hs,Scheduler.isBlocked]) _ rfl
  | spawn now ev t vu rest hs hvu hp =>
    refine h.spawn ev t vu rest ?_ (by simp [hs,Scheduler.isLate])
    simpa [hs,Scheduler.isBlocked] using h.wg
  | block now ev t vu rest hs hvu hp =>
    have hopen := not_closed h (by simp [hs,Scheduler.isLate])
    refine ⟨?_,h.taken,fun hc => ?_,fun hc => ?_⟩
    · simpa [hs,Scheduler.isBlocked] using h.wg
    · exact absurd hc (by simp [hopen])
    · exact absurd hc (by simp [hopen])
  | unblock now ev t vu rest hs hp =>
    refine h.spawn ev t vu rest ?_ (by simp [hs,Scheduler.isLate])
    simpa [hs,Scheduler.isBlocked] using h.wg
  | close now hs hw =>
    have hopen := not_closed h (by simp [hs,Scheduler.isLate])
    have hnil : s.workers = [] := by
      have := h.wg
      rw [hw] at this
      exact List.length_eq_zero_iff.mp (by omega)
    simp only [State.close,hopen,Bool.false_eq_true,if_false]
    refine ⟨?_,h.taken,fun _ => rfl,fun _ => .inr hnil⟩
    simp [hw,hnil,Scheduler.isBlocked]
  | finishRun now r hs hw =>
    refine ⟨?_,h.taken,fun _ => rfl,h.joined⟩
    simpa [hs,Scheduler.isBlocked] using h.wg
  | join now hs hw =>
    refine ⟨?_,h.taken,fun _ => rfl,h.joined⟩
    simpa [hs,Scheduler.isBlocked] using h.wg
  | giveUp now r hs hw =>
    refine ⟨?_,h.taken,fun _ => rfl,h.joined⟩
    simpa [hs,Scheduler.isBlocked] using h.wg
  | abandon ev rest hs hc =>
    have hopen := not_closed h (by simp [hs,Scheduler.isLate])
    simp only [State.close,hopen,Bool.false_eq_true,if_false]
    refine ⟨?_,h.taken,fun _ => rfl,fun _ => .inl hc⟩
    simpa [hs,Scheduler.isBlocked] using h.wg
  | dispatched i l r w res derr hl hp => exact h.setPhase hl (by simp [Worker.holds,hp]) _ _
  | send i l r w row hl hp hc hlen => exact h.setPhase hl (by simp [Worker.holds,hp]) _ _
  | sendClosed i l r w row hl hp hc => exact ⟨h.wg,h.taken,h.late,h.joined⟩
  | skip i l r w row hl hp hc => exact h.setPhase hl (by simp [Worker.holds,hp]) _ _
  | release i l r w hl hp =>
    refine ⟨?_,?_,h.late,?_⟩
    · have := h.wg
      rw [hl] at this
      simpa using this
    · have := h.taken
      rw [hl] at this
      simp [Worker.holds,hp] at this ⊢
      omega
    · intro hc
      rcases h.joined hc with hcan | hnil
      · exact .inl hcan
      · simp [hl] at hnil
  | finish i l r w hl hp =>
    refine ⟨?_,?_,h.late,?_⟩
    · have := h.wg
      rw [hl] at this
      simp only [List.length_append,List.length_cons] at this ⊢
      omega
    · have := h.taken
      rw [hl] at this
      simpa [List.filter_cons,Worker.holds,hp] using this
    · intro hc
      rcases h.joined hc with hcan | hnil
      · exact .inl hcan
      · simp [hl] at hnil
  | receive row rest hw hr next hnext => exact ⟨h.wg,h.taken,h.late,h.joined⟩
  | receiveEnd hw hr hc => exact ⟨h.wg,h.taken,h.late,h.joined⟩
  | idle hw hb => exact h
  | tick hw hb => exact ⟨h.wg,h.taken,h.late,h.joined⟩
  | stop hw hc => exact ⟨h.wg,h.taken,h.late,h.joined⟩
  | insert why err hw =>
    cases err <;> exact ⟨h.wg,h.taken,h.late,h.joined⟩

/-- The scheduler leaves its sleep on a cancellation only when no worker has a row to hand over. -/
def Unhurried (s : State π) : Label → Prop
  | .abandon => ∀ w ∈ s.workers, w.unsent = false
  | _ => True

instance (s : State π) (l : Label) : Decidable (Unhurried s l) := by
  induction l using Label.casesOn <;> unfold Unhurried <;> infer_instance

/-- Nothing has gone wrong with the channel, and nothing can. -/
structure Safe (s : State π) : Prop where
  counted : Counted s
  sent : s.closed = true → ∀ w ∈ s.workers, w.unsent = false
  alive : s.panicked = false

theorem safe_move {s t : State π} {l : Label} (h : Safe s) (hok : Unhurried s l) (hm : Moves s l t) : Safe t := by
  have hcounted := counted_move h.counted hm
  have hopen : ∀ hs : s.scheduler.isLate = false, s.closed = false := not_closed h.counted
  cases hm with
  | cancel => exact ⟨hcounted,h.sent,h.alive⟩
  | drained now hs => exact ⟨hcounted,h.sent,h.alive⟩
  | sleep now ev rest hs => exact ⟨hcounted,h.sent,h.alive⟩
  | skipEvent now ev rest hd hc => exact ⟨hcounted,h.sent,h.alive⟩
  | startEvent now ev t rest hd hc => exact ⟨hcounted,h.sent,h.alive⟩
  | nextEvent now ev t vu rest hs hvu => exact ⟨hcounted,h.sent,h.alive⟩
  | spawn now ev t vu rest hs hvu hp =>
    refine ⟨hcounted,fun hc => ?_,h.alive⟩
    exact absurd hc (by simp [State.spawn,hopen (by simp [hs,Scheduler.isLate])])
  | block now ev t vu rest hs hvu hp => exact ⟨hcounted,h.sent,h.alive⟩
  | unblock now ev t vu rest hs hp =>
    refine ⟨hcounted,fun hc => ?_,h.alive⟩
    exact absurd hc (by simp [State.spawn,hopen (by simp [hs,Scheduler.isLate])])
  | close now hs hw =>
    have hnil : s.workers = [] := by
      have := h.counted.wg
      rw [hw] at this
      exact List.length_eq_zero_iff.mp (by omega)
    simp only [State.close,hopen (by simp [hs,Scheduler.isLate]),Bool.false_eq_true,if_false] at hcounted ⊢
    refine ⟨hcounted,fun _ w hw' => ?_,h.alive⟩
    simp [hnil] at hw'
  | finishRun now r hs hw => exact ⟨hcounted,h.sent,h.alive⟩
  | join now hs hw => exact ⟨hcounted,h.sent,h.alive⟩
  | giveUp now r hs hw => exact ⟨hcounted,h.sent,h.alive⟩
  | abandon ev rest hs hc =>
    simp only [State.close,hopen (by simp [hs,Scheduler.isLate]),Bool.false_eq_true,if_false] at hcounted ⊢
    exact ⟨hcounted,fun _ => hok,h.alive⟩
  | dispatched i l r w res derr hl hp =>
    refine ⟨hcounted,fun hc w' hw' => ?_,h.alive⟩
    have hbusy := h.sent hc w (by simp [hl])
    simp [Worker.unsent,hp] at hbusy
  | send i l r w row hl hp hc hlen =>
    refine ⟨hcounted,fun hc' => ?_,h.alive⟩
    exact absurd hc' (by simp [hc])
  | sendClosed i l r w row hl hp hc =>
    have hbusy := h.sent hc w (by simp [hl])
    simp [Worker.unsent,hp] at hbusy
  | skip i l r w row hl hp hc =>
    refine ⟨hcounted,fun hc' w' hw' => ?_,h.alive⟩
    have hbusy := h.sent hc' w (by simp [hl])
    simp [Worker.unsent,hp] at hbusy
  | release i l r w hl hp =>
    refine ⟨hcounted,fun hc w' hw' => ?_,h.alive⟩
    have hall := h.sent hc
    rw [hl] at hall
    simp only [List.mem_append,List.mem_cons] at hall hw'
    rcases hw' with hw' | rfl | hw'
    · exact hall w' (.inl hw')
    · rfl
    · exact hall w' (.inr (.inr hw'))
  | finish i l r w hl hp =>
    refine ⟨hcounted,fun hc w' hw' => ?_,h.alive⟩
    have hall := h.sent hc
    rw [hl] at hall
    simp only [List.mem_append,List.mem_cons] at hall hw'
    rcases hw' with hw' | hw'
    · exact hall w' (.inl hw')
    · exact hall w' (.inr (.inr hw'))
  | receive row rest hw hr next hnext => exact ⟨hcounted,h.sent,h.alive⟩
  | receiveEnd hw hr hc => exact ⟨hcounted,h.sent,h.alive⟩
  | idle hw hb => exact h
  | tick hw hb => exact ⟨hcounted,h.sent,h.alive⟩
  | stop hw hc => exact ⟨hcounted,h.sent,h.alive⟩
  | insert why err hw =>
    cases err <;> exact ⟨hcounted,h.sent,h.alive⟩

/-- In every run in which the scheduler abandons its sleep only when all rows are handed over, no
worker sends on the closed channel and nobody closes it twice. -/
theorem unhurried_run_safe {cfg : Config π} {evs : List (Event π)} {as : List Label} {s : State π}
    (hr : Run step Unhurried (init cfg evs) as s) : s.panicked = false := by
  have hinit : Safe (init cfg evs) := by
    refine ⟨counted_init cfg evs,fun hc => ?_,rfl⟩
    cases hc
  refine (hr.invariant Safe ?_ hinit).alive
  intro s l t hs hok hst
  exact safe_move hs hok (moves_of_step hst).2

def nothing : DispatchResult := ⟨0,0,0,0,"","","","",""⟩

/-- Two events a second apart, one dispatcher for all. -/
def pairConfig : Config Unit := ⟨"rep_1",1,0,0,0,1,0,0,[fun _ => true]⟩

def pairEvents : List (Event Unit) := [⟨"ev_1",0,()⟩,⟨"ev_2",1000000000,()⟩]

/-- The run is canceled while the scheduler sleeps before the second event and the first one is
still being dispatched. -/
def canceledRun : List Label :=
  [.schedule 0,.schedule 0,.schedule 0,.schedule 0,.cancel,.abandon,.dispatched 0 nothing none,.send 0]

theorem canceled_run_panics :
    ∃ s ∈ exec step (init pairConfig pairEvents) canceledRun, s.panicked = true := by
  decide +kernel

theorem unhurried_run_safe_drained :
    ∃ s ∈ exec step (init pairConfig pairEvents)
        [.schedule 0,.schedule 0,.schedule 0,.schedule 0,.dispatched 0 nothing none,.send 0,.cancel,.abandon],
      s.closed = true ∧ s.panicked = false := by
  have h : ∃ s ∈ exec step (init pairConfig pairEvents)
      [.schedule 0,.schedule 0,.schedule 0,.schedule 0,.dispatched 0 nothing none,.send 0,.cancel,.abandon],
      s.closed = true := by
    decide +kernel
  obtain ⟨s,hs,hc⟩ := h
  refine ⟨s,hs,hc,unhurried_run_safe (Run.of_exec ?_ (Option.mem_def.mp hs))⟩
  decide +kernel

end Replay
end Clearvoiance
