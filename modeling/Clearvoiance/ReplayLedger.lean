import Clearvoiance.ReplayConservation

/-! A replay run with a ledger of its result rows: those of all dispatches that the summary has counted,
and those that their workers dropped because the run was canceled.  A run that is canceled keeps its
results exactly when at that moment every counted row is accepted or in a call of the sink that goes
through, and no dispatch returns later. -/
namespace Clearvoiance
namespace Replay

open Transition

variable {π : Type}

structure Ledger (π : Type) where
  run : State π
  /-- The rows of the counted dispatches. -/
  rows : List ResultRow
  /-- The rows that workers gave up on a canceled context. -/
  dropped : List ResultRow
  /-- The call of the sink in progress was made with a canceled context. -/
  late : Bool

namespace Ledger

def counts (s : State π) : Label → List ResultRow
  | .dispatched i res derr =>
    match s.workers[i]? with
    | some w => [resultRow s.cfg w.ev w.vu w.timing res derr]
    | none => []
  | _ => []

def drops (s : State π) : Label → List ResultRow
  | .skip i =>
    match s.phase i with
    | some (.sending row) => [row]
    | _ => []
  | _ => []

def step (g : Ledger π) (l : Label) : Option (Ledger π) :=
  (Replay.step g.run l).map fun t =>
    ⟨t,g.rows ++ counts g.run l,g.dropped ++ drops g.run l,if g.run.writer = .selecting then g.run.canceled else g.late⟩

def init (cfg : Config π) (evs : List (Event π)) : Ledger π := ⟨Replay.init cfg evs,[],[],false⟩

theorem step_run {g g' : Ledger π} {l : Label} (h : step g l = some g') :
    Moves g.run l g'.run ∧ g'.rows = g.rows ++ counts g.run l ∧ g'.dropped = g.dropped ++ drops g.run l ∧
    g'.late = if g.run.writer = .selecting then g.run.canceled else g.late := by
  obtain ⟨t,ht,rfl⟩ := Option.map_eq_some_iff.mp h
  exact ⟨(moves_of_step ht).2,rfl,rfl,rfl⟩

end Ledger

/-- The row that a worker has counted and not handed over. -/
def Worker.held (w : Worker π) : List ResultRow :=
  match w.phase with
  | .sending row => [row]
  | _ => []

/-- The counted rows on their way: with a worker, in the channel, or with the writer. -/
def State.pending (s : State π) : List ResultRow := s.buf ++ (s.results ++ s.workers.flatMap Worker.held)

def State.accepted (s : State π) : List ResultRow := s.inserted.flatten

/-- The rows of a call of the sink that was made before the cancellation. -/
def Ledger.calling (g : Ledger π) : List ResultRow :=
  match g.run.writer with
  | .inserting _ => if g.late then [] else g.run.buf
  | _ => []

/-- A sink that fails every call made with a canceled context, and no call that ends before the
cancellation. -/
def SinkLaw (g : Ledger π) : Label → Prop
  | .insert err => (g.late = true → err ≠ none) ∧ (g.run.canceled = false → err = none)
  | _ => True

instance (g : Ledger π) (l : Label) : Decidable (SinkLaw g l) := by
  induction l using Label.casesOn <;> unfold SinkLaw <;> infer_instance

/-- The cancellation finds every counted row accepted or in a call of the sink, no dispatch returns
after it, and the call goes through. -/
def Quiet (g : Ledger π) : Label → Prop
  | .cancel => g.run.pending = g.calling
  | .dispatched .. => g.run.canceled = false
  | .insert err => err = none
  | _ => True

instance (g : Ledger π) (l : Label) : Decidable (Quiet g l) := by
  induction l using Label.casesOn <;> unfold Quiet <;> infer_instance

/-- Every counted row is accepted, on its way, or dropped. -/
def Ledger.Balanced (g : Ledger π) : Prop := g.rows.Perm (g.run.accepted ++ (g.run.pending ++ g.dropped))

inductive Flows (g : Ledger π) : Label → Ledger π → Prop
  | same (l : Label) (g' : Ledger π) : g'.run.accepted = g.run.accepted → g'.run.pending = g.run.pending →
      g'.dropped = g.dropped → g'.rows = g.rows → (∀ i res derr, l ≠ .dispatched i res derr) → Flows g l g'
  | count (i : ℕ) (res : DispatchResult) (derr : Option String) (row : ResultRow) (g' : Ledger π) :
      g'.run.accepted = g.run.accepted → g'.run.pending.Perm (row :: g.run.pending) → g'.dropped = g.dropped →
      g'.rows = g.rows ++ [row] → Flows g (.dispatched i res derr) g'
  | pass (l : Label) (g' : Ledger π) : g'.run.accepted = g.run.accepted → g'.run.pending.Perm g.run.pending →
      g'.dropped = g.dropped → g'.rows = g.rows → (∀ i res derr, l ≠ .dispatched i res derr) → Flows g l g'
  | drop (i : ℕ) (row : ResultRow) (g' : Ledger π) : g.run.canceled = true → g'.run.accepted = g.run.accepted →
      g.run.pending.Perm (row :: g'.run.pending) → g'.dropped = g.dropped ++ [row] → g'.rows = g.rows →
      Flows g (.skip i) g'
  | accept (g' : Ledger π) : g'.run.accepted = g.run.accepted ++ g.run.buf →
      g.run.pending = g.run.buf ++ g'.run.pending → g'.dropped = g.dropped → g'.rows = g.rows →
      Flows g (.insert none) g'

theorem flows_of_step {g g' : Ledger π} {l : Label} (h : g.step l = some g') : Flows g l g' := by
  obtain ⟨hm,hrows,hdrop,-⟩ := Ledger.step_run h
  obtain ⟨t,rows',dropped',late'⟩ := g'
  simp only at hm hrows hdrop
  subst hrows hdrop
  cases hm with
  | dispatched i l r w res derr hl hp hi =>
    refine .count i res derr (resultRow g.run.cfg w.ev w.vu w.timing res derr) _ rfl ?_ (by simp [Ledger.drops])
      (by simp [Ledger.counts,hi])
    have hw : w.held = [] := by simp [Worker.held,hp]
    simp only [State.pending,hl,List.flatMap_append,List.flatMap_cons,hw,List.nil_append]
    simp only [Worker.held,← List.append_assoc,List.singleton_append]
    exact List.perm_middle
  | send i l r w row hl hp hopen hlen =>
    refine .pass _ _ rfl ?_ (by simp [Ledger.drops]) (by simp [Ledger.counts]) (by simp)
    have hw : w.held = [row] := by simp [Worker.held,hp]
    simp only [State.pending,hl,List.flatMap_append,List.flatMap_cons,hw]
    simp only [Worker.held,List.nil_append,List.append_assoc,List.singleton_append]
    refine List.Perm.append_left _ (List.Perm.append_left _ ?_)
    exact List.perm_middle.symm
  | skip i l r w row hl hp hcan hi =>
    refine .drop i row _ hcan rfl ?_ (by simp [Ledger.drops,hi]) (by simp [Ledger.counts])
    have hw : w.held = [row] := by simp [Worker.held,hp]
    simp only [State.pending,hl,List.flatMap_append,List.flatMap_cons,hw]
    simp only [Worker.held,List.nil_append,← List.append_assoc,List.singleton_append]
    exact List.perm_middle
  | release i l r w hl hp =>
    refine .same _ _ rfl ?_ (by simp [Ledger.drops]) (by simp [Ledger.counts]) (by simp)
    simp [State.pending,hl,Worker.held,hp]
  | finish i l r w hl hp =>
    refine .same _ _ rfl ?_ (by simp [Ledger.drops]) (by simp [Ledger.counts]) (by simp)
    simp [State.pending,hl,Worker.held,hp]
  | receive row rest hw hr next hnext =>
    refine .same _ _ rfl ?_ (by simp [Ledger.drops]) (by simp [Ledger.counts]) (by simp)
    simp [State.pending,hr]
  | insert why err hw =>
    cases err with
    | none => exact .accept _ (by simp [State.accepted,State.insert]) rfl (by simp [Ledger.drops]) (by simp [Ledger.counts])
    | some e => exact .same _ _ rfl rfl (by simp [Ledger.drops]) (by simp [Ledger.counts]) (by simp)
  | close now hs hw =>
    refine .same _ _ ?_ ?_ (by simp [Ledger.drops]) (by simp [Ledger.counts]) (by simp)
    all_goals
      unfold State.close
      split <;> rfl
  | abandon ev rest hs hc =>
    refine .same _ _ ?_ ?_ (by simp [Ledger.drops]) (by simp [Ledger.counts]) (by simp)
    all_goals
      unfold State.close
      split <;> rfl
  | spawn now ev t vu rest hs hvu hp =>
    refine .same _ _ rfl ?_ (by simp [Ledger.drops]) (by simp [Ledger.counts]) (by simp)
    simp [State.pending,State.spawn,Worker.held]
  | unblock now ev t vu rest hs hp =>
    refine .same _ _ rfl ?_ (by simp [Ledger.drops]) (by simp [Ledger.counts]) (by simp)
    simp [State.pending,State.spawn,Worker.held]
  | _ => exact .same _ _ rfl rfl (by simp [Ledger.drops]) (by simp [Ledger.counts]) (by simp)

theorem balanced_init (cfg : Config π) (evs : List (Event π)) : (Ledger.init cfg evs).Balanced := by
  simp [Ledger.Balanced,Ledger.init,Replay.init,State.accepted,State.pending]

theorem balanced_flow {g g' : Ledger π} {l : Label} (h : g.Balanced) (hf : Flows g l g') : g'.Balanced := by
  unfold Ledger.Balanced at h ⊢
  cases hf with
  | same _ _ ha hp hd hr _ => rwa [ha,hp,hd,hr]
  | count i res derr row _ ha hp hd hr =>
    rw [ha,hd,hr]
    have hgrow : (g.rows ++ [row]).Perm (row :: (g.run.accepted ++ (g.run.pending ++ g.dropped))) :=
      (List.perm_append_singleton row g.rows).trans (h.cons row)
    refine hgrow.trans ?_
    refine List.perm_middle.symm.trans (List.Perm.append_left _ ?_)
    exact (hp.append_right g.dropped).symm
  | pass _ _ ha hp hd hr _ =>
    rw [ha,hd,hr]
    exact h.trans (List.Perm.append_left _ (hp.symm.append_right _))
  | drop i row _ _ ha hp hd hr =>
    rw [ha,hd,hr]
    refine h.trans (List.Perm.append_left _ ?_)
    refine (hp.append_right _).trans ?_
    rw [← List.append_assoc]
    exact (List.perm_append_singleton row _).symm
  | accept _ ha hp hd hr =>
    rw [ha,hd,hr]
    rw [hp] at h
    simpa [List.append_assoc] using h

theorem canceled_eq_move {s t : State π} {l : Label} (hm : Moves s l t) (hl : l ≠ .cancel) : t.canceled = s.canceled := by
  cases hm with
  | cancel => exact absurd rfl hl
  | close | abandon =>
    unfold State.close
    split <;> rfl
  | insert why err => cases err <;> rfl
  | _ => rfl

theorem rows_flow {g g' : Ledger π} {l : Label} (hf : Flows g l g') : g.rows.length ≤ g'.rows.length := by
  cases hf with
  | same _ _ _ _ _ hr _ => rw [hr]
  | count _ _ _ row _ _ _ _ hr => simp [hr]
  | pass _ _ _ _ _ hr _ => rw [hr]
  | drop _ _ _ _ _ _ _ hr => rw [hr]
  | accept _ _ _ _ hr => rw [hr]

/-- A step that is not the writer's leaves the calls of the sink as they are. -/
theorem calling_keep {g g' : Ledger π} {l : Label} (hst : g.step l = some g') (hl : l.writes = false) :
    g'.calling = g.calling ∧ g'.run.accepted = g.run.accepted := by
  obtain ⟨hm,-,-,hlate⟩ := Ledger.step_run hst
  have hwriter := writer_move hm hl
  have hkept : g'.run.buf = g.run.buf ∧ g'.run.accepted = g.run.accepted := by
    generalize g'.run = t at hm
    cases hm with
    | close | abandon =>
      unfold State.close
      split <;> exact ⟨rfl,rfl⟩
    | receive | receiveEnd | idle | tick | stop | insert => cases hl
    | _ => exact ⟨rfl,rfl⟩
  refine ⟨?_,hkept.2⟩
  unfold Ledger.calling
  rw [hwriter]
  cases hw : g.run.writer with
  | inserting why => simp [hlate,hw,hkept.1]
  | _ => rfl

theorem calling_eq (g : Ledger π) : g.calling = [] ∨ g.calling = g.run.buf := by
  unfold Ledger.calling
  split
  · split
    · exact .inl rfl
    · exact .inr rfl
  · exact .inl rfl

theorem calling_length_le (g : Ledger π) : g.calling.length ≤ g.run.buf.length := by
  rcases calling_eq g with h | h <;> simp [h]

/-- After the cancellation only the rows of a call in progress are still accepted. -/
theorem accepted_step {g g' : Ledger π} {l : Label} (hc : g.run.canceled = true) (hlaw : SinkLaw g l)
    (hst : g.step l = some g') :
    g'.run.accepted.length+g'.calling.length ≤ g.run.accepted.length+g.calling.length := by
  by_cases hl : l.writes = true
  · obtain ⟨hm,-,-,hlate⟩ := Ledger.step_run hst
    have hlater : g.run.writer = .selecting → g'.calling = [] := by
      intro hw
      unfold Ledger.calling
      rw [hlate,if_pos hw,hc]
      split <;> rfl
    obtain ⟨t,rows',dropped',late'⟩ := g'
    simp only at hm hlater ⊢
    cases hm with
    | receive row rest hw hr next hnext => simp [hlater hw,State.accepted]
    | receiveEnd hw hr hclosed => simp [hlater hw,State.accepted]
    | idle hw hb => simp [hlater hw,State.accepted]
    | tick hw hb => simp [hlater hw,State.accepted]
    | stop hw hcan => simp [hlater hw,State.accepted]
    | insert why err hw =>
      cases err with
      | none =>
        have hlive : g.late = false := by
          cases h : g.late with
          | false => rfl
          | true => exact absurd rfl (hlaw.1 h)
        cases why <;> simp [Ledger.calling,State.insert,State.accepted,hw,hlive]
      | some e => cases why <;> simp [Ledger.calling,State.insert,State.accepted]
    | _ => cases hl
  · obtain ⟨hcall,hacc⟩ := calling_keep hst (by simpa using hl)
    rw [hcall,hacc]

theorem Ledger.Balanced.length {g : Ledger π} (h : g.Balanced) :
    g.rows.length = g.run.accepted.length+(g.run.pending.length+g.dropped.length) := by
  rw [List.Perm.length_eq h,List.length_append,List.length_append]

/-- Once a run is canceled, rows that are neither accepted nor in a call are lost. -/
theorem nothing_lost_of_kept {g t : Ledger π} {as : List Label} (hr : Run Ledger.step SinkLaw g as t) (hb : g.Balanced)
    (hc : g.run.canceled = true) (hkept : t.rows.Perm t.run.accepted) : g.run.pending.length ≤ g.calling.length := by
  have hlate : t.run.accepted.length+t.calling.length ≤ g.run.accepted.length+g.calling.length ∧
      g.rows.length ≤ t.rows.length := by
    clear hkept hb
    induction hr with
    | nil => exact ⟨le_refl _,le_refl _⟩
    | cons hlaw hst _ ih =>
      obtain ⟨ha,hl⟩ := ih (canceled_move hc (Ledger.step_run hst).1)
      exact ⟨ha.trans (accepted_step hc hlaw hst),(rows_flow (flows_of_step hst)).trans hl⟩
  have hlen := hb.length
  have hlen' := hkept.length_eq
  omega

theorem calling_of_length {g : Ledger π} (h : g.run.pending.length ≤ g.calling.length) : g.run.pending = g.calling := by
  rcases calling_eq g with hcall | hcall
  · rw [hcall] at h ⊢
    exact List.eq_nil_of_length_eq_zero (Nat.le_zero.mp h)
  · rw [hcall] at h ⊢
    simp only [State.pending,List.length_append] at h ⊢
    have hrest : g.run.results ++ g.run.workers.flatMap Worker.held = [] := by
      rw [← List.length_eq_zero_iff,List.length_append]
      omega
    rw [hrest,List.append_nil]

theorem quiet_of_kept {g t : Ledger π} {as : List Label} (hr : Run Ledger.step SinkLaw g as t) (hb : g.Balanced)
    (hfill : Filled g.run) (hkept : t.rows.Perm t.run.accepted) : Along Ledger.step Quiet g as := by
  induction hr with
  | nil => trivial
  | @cons g g' t l as hlaw hst hr ih =>
    have hf := flows_of_step hst
    have hb' := balanced_flow hb hf
    obtain ⟨hm,-,-,-⟩ := Ledger.step_run hst
    have hafter : g'.run.canceled = true → g'.run.pending = g'.calling :=
      fun hc => calling_of_length (nothing_lost_of_kept hr hb' hc hkept)
    refine ⟨?_,by rw [hst]; exact ih hb' (filled_move hfill hm) hkept⟩
    cases l with
    | cancel =>
      have hcall := (calling_keep hst rfl).1
      have hrun : g'.run = { g.run with canceled := true } := by
        generalize g'.run = s at hm
        cases hm
        rfl
      have hpending := hafter (by rw [hrun])
      rw [hcall,hrun] at hpending
      exact hpending
    | dispatched i res derr =>
      cases hc : g.run.canceled with
      | false => exact hc
      | true =>
        have hcall := (calling_keep hst rfl).1
        have hpending := hafter ((canceled_eq_move hm (by simp)).trans hc)
        have hle := calling_length_le g
        have hbuf : g.run.buf.length ≤ g.run.pending.length := by simp [State.pending]
        cases hf with
        | same _ _ _ _ _ _ hne => exact absurd rfl (hne i res derr)
        | pass _ _ _ _ _ _ hne => exact absurd rfl (hne i res derr)
        | count _ _ _ row _ _ hp _ _ =>
          have hlen := hp.length_eq
          rw [hpending,hcall,List.length_cons] at hlen
          omega
    | insert err =>
      cases err with
      | none => rfl
      | some e =>
        have hcan : g.run.canceled = true := by
          cases hc : g.run.canceled with
          | true => rfl
          | false => cases hlaw.2 hc
        have hpending := hafter ((canceled_eq_move hm (by simp)).trans hcan)
        obtain ⟨s',rows',dropped',late'⟩ := g'
        simp only at hm hpending
        cases hm with
        | insert why _ hw =>
          have hnil : g.run.pending = [] := by
            cases why <;> exact hpending
          exact absurd (List.append_eq_nil_iff.mp hnil).1 (hfill why hw)
    | _ => trivial

/-- Along a quiet run nothing is dropped, and after the cancellation all that is under way is in a call
made before it. -/
structure Ledger.Calm (g : Ledger π) : Prop where
  balanced : g.Balanced
  dropped : g.dropped = []
  pending : g.run.canceled = true → g.run.pending = g.calling

theorem Ledger.Calm.idle {g : Ledger π} (h : g.Calm) (hc : g.run.canceled = true) :
    g.run.results = [] ∧ g.run.workers.flatMap Worker.held = [] ∧ g.run.buf = g.calling := by
  have hlen := congrArg List.length (h.pending hc)
  have hle := calling_length_le g
  simp only [State.pending,List.length_append] at hlen
  have hres : g.run.results = [] := List.length_eq_zero_iff.mp (by omega)
  have hheld : g.run.workers.flatMap Worker.held = [] := List.length_eq_zero_iff.mp (by omega)
  refine ⟨hres,hheld,?_⟩
  simpa [State.pending,hres,hheld] using h.pending hc

theorem calling_of_selecting {g : Ledger π} (hw : g.run.writer = .selecting) : g.calling = [] := by
  simp [Ledger.calling,hw]

/-- A step of the writer in a canceled run leaves nothing under way. -/
theorem Ledger.Calm.drained {g g' : Ledger π} {l : Label} (h : g.Calm) (hok : Quiet g l) (hst : g.step l = some g')
    (hl : l.writes = true) (hc : g.run.canceled = true) : g'.run.pending = [] := by
  obtain ⟨hm,-,-,-⟩ := Ledger.step_run hst
  obtain ⟨hres,hheld,-⟩ := h.idle hc
  have hnil : g.run.writer = .selecting → g.run.pending = [] :=
    fun hw => (h.pending hc).trans (calling_of_selecting hw)
  generalize g'.run = t at hm
  cases hm with
  | receive row rest hw hr next hnext => simp [hr] at hres
  | receiveEnd hw hr hclosed => exact hnil hw
  | idle hw hb => exact hnil hw
  | tick hw hb => exact hnil hw
  | stop hw hcan => exact hnil hw
  | insert why err hw =>
    cases err with
    | none => simp [State.pending,State.insert,hres,hheld]
    | some e => cases hok
  | _ => cases hl

theorem calm_step {g g' : Ledger π} {l : Label} (h : g.Calm) (hok : Quiet g l) (hst : g.step l = some g') :
    g'.Calm := by
  have hf := flows_of_step hst
  obtain ⟨hm,-,-,-⟩ := Ledger.step_run hst
  refine ⟨balanced_flow h.balanced hf,?_,fun hc => ?_⟩
  · cases hf with
    | drop i row _ hc _ hp _ _ =>
      have hcall := congrArg List.length (calling_keep hst rfl).1
      have hlen := hp.length_eq
      have hle := calling_length_le g'
      have hbuf : g'.run.buf.length ≤ g'.run.pending.length := by simp [State.pending]
      rw [h.pending hc,List.length_cons] at hlen
      omega
    | same _ _ _ _ hd _ _ => rw [hd,h.dropped]
    | count _ _ _ _ _ _ _ hd _ => rw [hd,h.dropped]
    | pass _ _ _ _ hd _ _ => rw [hd,h.dropped]
    | accept _ _ _ hd _ => rw [hd,h.dropped]
  · have hbefore : g.run.canceled = true ∨ l = .cancel := by
      by_cases hl : l = .cancel
      · exact .inr hl
      · exact .inl ((canceled_eq_move hm hl).symm.trans hc)
    by_cases hl : l.writes = true
    · have hcan : g.run.canceled = true := by
        rcases hbefore with hcan | rfl
        · exact hcan
        · cases hl
      exact calling_of_length (by simp [h.drained hok hst hl hcan])
    · have hcall := (calling_keep hst (by simpa using hl)).1
      have hpending : g.run.pending = g.calling := by
        rcases hbefore with hcan | rfl
        · exact h.pending hcan
        · exact hok
      apply calling_of_length
      rw [hcall,← hpending]
      cases hf with
      | same _ _ _ hp _ _ _ => rw [hp]
      | pass _ _ _ hp _ _ _ => exact hp.length_eq.le
      | drop i row _ _ _ hp _ _ => simp [hp.length_eq]
      | accept => exact absurd rfl hl
      | count i res derr row _ _ _ _ _ =>
        rcases hbefore with hcan | hcancel
        · rw [show g.run.canceled = false from hok] at hcan
          cases hcan
        · cases hcancel

/-- A run that has returned makes no call of the sink: the writer is done, or was never given a row. -/
def Ended (s : State π) : Prop :=
  ∀ err, s.scheduler = .returned err → (∃ r, s.writer = .done r) ∨
    s.writer = .selecting ∧ s.buf = [] ∧ s.results = [] ∧ s.workers = [] ∧ s.closed = false

theorem ended_init (cfg : Config π) (evs : List (Event π)) : Ended (init cfg evs) :=
  fun _ _ => .inr ⟨rfl,rfl,rfl,rfl,rfl⟩

theorem ended_move {s t : State π} {l : Label} (h : Ended s) (hcount : Counted s) (hm : Moves s l t) : Ended t := by
  intro err he
  have hworker : ∀ {l r : List (Worker π)} {w : Worker π}, s.workers = l ++ w :: r → s.scheduler = .returned err →
      ∃ r, s.writer = .done r := by
    intro l r w hl hret
    rcases h err hret with hdone | ⟨-,-,-,hnil,-⟩
    · exact hdone
    · simp [hl] at hnil
  cases hm with
  | drained | sleep | skipEvent | startEvent | nextEvent | spawn | block | unblock | join => cases he
  | close now hs hw =>
    have hopen := not_closed hcount (by simp [hs,Scheduler.isLate])
    simp [State.close,hopen] at he
  | abandon ev rest hs hcan =>
    have hopen := not_closed hcount (by simp [hs,Scheduler.isLate])
    simp [State.close,hopen] at he
  | finishRun now r hs hw => exact .inl ⟨r,hw⟩
  | giveUp now r hs hw => exact .inl ⟨r,hw⟩
  | dispatched i l r w res derr hl hp => exact .inl (hworker hl he)
  | send i l r w row hl hp hopen hlen => exact .inl (hworker hl he)
  | sendClosed i l r w row hl hp hclosed => exact h err he
  | skip i l r w row hl hp hcan => exact .inl (hworker hl he)
  | release i l r w hl hp => exact .inl (hworker hl he)
  | finish i l r w hl hp => exact .inl (hworker hl he)
  | receive row rest hw hr next hnext =>
    rcases h err he with ⟨r,hdone⟩ | ⟨-,-,hnil,-⟩
    · simp [hw] at hdone
    · simp [hr] at hnil
  | receiveEnd hw hr hclosed =>
    rcases h err he with ⟨r,hdone⟩ | ⟨-,-,-,-,hopen⟩
    · simp [hw] at hdone
    · simp [hclosed] at hopen
  | idle hw hb => exact h err he
  | tick hw hb =>
    rcases h err he with ⟨r,hdone⟩ | ⟨-,hnil,-⟩
    · simp [hw] at hdone
    · exact absurd hnil hb
  | stop hw hcan =>
    rcases h err he with ⟨r,hdone⟩ | ⟨-,hnil,-⟩
    · simp [hw] at hdone
    · exact .inl ⟨some .canceled,by simp [hnil]⟩
  | insert why err' hw =>
    have hsched : s.scheduler = .returned err := by cases err' <;> exact he
    rcases h err hsched with ⟨r,hdone⟩ | ⟨hsel,-⟩
    · simp [hw] at hdone
    · simp [hw] at hsel
  | cancel => exact h err he

theorem latencies_step {g g' : Ledger π} {l : Label} (hst : g.step l = some g')
    (h : g.run.summary.latencies = g.rows.map (·.result.responseDurationNs)) :
    g'.run.summary.latencies = g'.rows.map (·.result.responseDurationNs) := by
  obtain ⟨hm,hrows,-,-⟩ := Ledger.step_run hst
  rw [hrows]
  generalize g'.run = s at hm
  cases hm with
  | dispatched i l r w res derr hl hp hi => simp [Ledger.counts,hi,Summary.record,h]
  | close | abandon =>
    unfold State.close
    split <;> simpa [Ledger.counts] using h
  | insert why err => cases err <;> simpa [Ledger.counts,State.insert] using h
  | _ => simpa [Ledger.counts,Summary.recordSkipped,Summary.recordBackpressured,State.spawn] using h

/-- What holds in every state of a run with its ledger. -/
structure Ledger.Kept (g : Ledger π) : Prop where
  counted : Counted g.run
  ended : Ended g.run
  latencies : g.run.summary.latencies = g.rows.map (·.result.responseDurationNs)

theorem kept_init (cfg : Config π) (evs : List (Event π)) : (Ledger.init cfg evs).Kept :=
  ⟨counted_init cfg evs,ended_init cfg evs,rfl⟩

theorem kept_step {g g' : Ledger π} {l : Label} (h : g.Kept) (hst : g.step l = some g') : g'.Kept where
  counted := counted_move h.counted (Ledger.step_run hst).1
  ended := ended_move h.ended h.counted (Ledger.step_run hst).1
  latencies := latencies_step hst h.latencies

/-- A canceled run that has returned counts in its summary the dispatches of the ledger, and has kept
their rows exactly when it was canceled at a quiet moment. -/
theorem canceled_run_kept_iff {cfg : Config π} {evs : List (Event π)} {as : List Label} {g : Ledger π}
    {err : Option RunError} (hr : Run Ledger.step SinkLaw (.init cfg evs) as g) (hcan : g.run.canceled = true)
    (hret : g.run.scheduler = .returned err) :
    g.run.summary.latencies.length = g.rows.length ∧
    (g.rows.Perm g.run.accepted ↔ Along Ledger.step Quiet (.init cfg evs) as) := by
  have hkept : g.Kept := hr.invariant Ledger.Kept (fun _ _ _ h _ hst => kept_step h hst) (kept_init cfg evs)
  refine ⟨by simp [hkept.latencies],?_,?_⟩
  · intro h
    refine quiet_of_kept hr (balanced_init cfg evs) ?_ h
    intro why hw
    cases hw
  · intro h
    have hrun := Run.of_exec h hr.exec_eq
    have hinit : (Ledger.init cfg evs).Calm := by
      refine ⟨balanced_init cfg evs,rfl,?_⟩
      intro hc
      cases hc
    have hcalm : g.Calm := hrun.invariant Ledger.Calm (fun _ _ _ h hok hst => calm_step h hok hst) hinit
    have hcall : g.calling = [] := by
      unfold Ledger.calling
      rcases hkept.ended err hret with ⟨r,hw⟩ | ⟨hw,-⟩ <;> rw [hw]
    have hbalanced := hcalm.balanced
    unfold Ledger.Balanced at hbalanced
    rwa [hcalm.pending hcan,hcall,hcalm.dropped,List.append_nil,List.append_nil] at hbalanced

def soloConfig : Config Unit := ⟨"rep_1",1,0,0,0,1,0,0,[fun _ => true]⟩

def soloEvents : List (Event Unit) := [⟨"ev_1",0,()⟩]

/-- The steps of the scheduler up to the dispatch of the only event, and its return. -/
def soloStart : List Label := [.schedule 0,.schedule 0,.schedule 0,.schedule 0,.dispatched 0 nothing none]

/-- The run is canceled while the row waits to be handed over; the worker drops it. -/
def droppedRun : List Label :=
  soloStart ++ ([.cancel,.skip 0,.release 0,.finish 0,.schedule 0,.stop,.schedule 0] : List Label)

theorem dropped_row_not_kept :
    ∃ g ∈ exec Ledger.step (.init soloConfig soloEvents) droppedRun,
      Along Ledger.step SinkLaw (.init soloConfig soloEvents) droppedRun ∧ g.run.canceled = true ∧
      g.run.scheduler = .returned (some (.writer .canceled)) ∧ g.run.summary.eventsDispatched = 1 ∧
      g.rows.length = 1 ∧ ¬ g.rows.Perm g.run.accepted := by
  decide +kernel

/-- The run is canceled during the call of the sink. -/
def keptRun : List Label :=
  soloStart ++ ([.send 0,.receive,.tick,.cancel,.insert none,.release 0,.finish 0,.schedule 0,.stop,
    .schedule 0] : List Label)

theorem canceled_run_kept_iff_keptRun :
    ∃ g ∈ exec Ledger.step (.init soloConfig soloEvents) keptRun, g.run.canceled = true ∧
      g.run.summary.eventsDispatched = 1 ∧ g.rows.Perm g.run.accepted := by
  have hend : ∃ g ∈ exec Ledger.step (.init soloConfig soloEvents) keptRun, g.run.canceled = true ∧
      g.run.scheduler = .returned (some (.writer .canceled)) ∧ g.run.summary.eventsDispatched = 1 := by decide +kernel
  obtain ⟨g,hg,hcan,hret,hcount⟩ := hend
  have hr : Run Ledger.step SinkLaw (.init soloConfig soloEvents) keptRun g :=
    .of_exec (by decide +kernel) (Option.mem_def.mp hg)
  exact ⟨g,hg,hcan,hcount,(canceled_run_kept_iff hr hcan hret).2.mpr (by decide +kernel)⟩

end Replay
end Clearvoiance
