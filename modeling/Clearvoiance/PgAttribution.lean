import Clearvoiance.PgTransparency

/-! The application name under which the server runs the queries of a wrapped client.  Between the `SET` of
a call and its query, or a call that counts on the pinned name and its query, the `SET` of another scope or
a rollback can change the name of the session. -/
namespace Clearvoiance
namespace PgWrap

open JsonStrings Transition

def Args.InScope (a : Args) : Prop := a.scope ≠ none

instance (a : Args) : Decidable a.InScope := inferInstanceAs (Decidable (_ ≠ _))

/-- A query that was submitted without a failed `SET` and has not run. -/
def Item.committed : Item → Option Call
  | .set _ => none
  | .user c failed => if failed = false ∧ c.args.InScope then some c else none

/-- A call whose `SET` succeeded, or was not needed, and whose query has not been submitted. -/
def Job.committed (j : Job) : Option Call :=
  if j.turns ≤ 4 ∧ j.failed = false ∧ j.call.args.InScope ∧ j.call.args.refused = none then some j.call else none

/-- The calls in scopes that are past their `SET`, or needed none, and whose queries are still to run. -/
def State.committed (s : State) : List Call := s.queue.filterMap Item.committed ++ s.jobs.filterMap Job.committed

/-- Every query of a scope whose `SET` did not fail has run under the name of the scope. -/
def Attributed (cfg : Config) (s : State) : Prop :=
  ∀ x ∈ s.executed, x.call.args.InScope → x.failed = false → x.name = appName cfg x.call.args

/-- The session has the name of every call that is past its `SET`. -/
def NameStands (cfg : Config) (s : State) : Prop := ∀ c ∈ s.committed, appName cfg c.args = s.session.name

/-- The answer to the oldest query keeps the name: a `SET` succeeds only if no call of another name is past its
own, and is not for an empty name unless the session has none; a query of the application changes the name of
the session only if no call is past its `SET`. -/
def AnswerKeepsName (cfg : Config) (s : State) (outcome : Outcome) (effects : List Effect) : List Item → Prop
  | [] => True
  | .set c :: _ =>
    outcome.isError = true ∨
      (c.args.InScope → c.args.refused = none → appName cfg c.args = [] → s.session.name = []) ∧
        (appName cfg c.args ≠ [] → ∀ d ∈ s.committed, appName cfg d.args = appName cfg c.args)
  | .user _ _ :: queue =>
    (effects.foldl Session.apply s.session).name = s.session.name ∨ queue.filterMap Item.committed = []

/-- A call that counts on the pinned name finds it in the session, and an answer keeps the name. -/
def KeepsName (cfg : Config) (s : State) : Label → Prop
  | .query a => a.InScope → a.refused = none → needsSet s a = false → appName cfg a = s.session.name
  | .job => True
  | .answer outcome effects => AnswerKeepsName cfg s outcome effects s.queue

instance (cfg : Config) (s : State) (outcome : Outcome) (effects : List Effect) (queue : List Item) :
    Decidable (AnswerKeepsName cfg s outcome effects queue) := by
  rcases queue with _ | ⟨_ | _,_⟩ <;> unfold AnswerKeepsName <;> infer_instance

instance (cfg : Config) (s : State) (l : Label) : Decidable (KeepsName cfg s l) := by
  induction l using Label.casesOn <;> unfold KeepsName <;> infer_instance

theorem literal_escaped (name : JsString) : literal (escaped name ++ [quote]) = some name := by
  induction name with
  | nil => simp [escaped,literal]
  | cons u name ih =>
    by_cases hu : u = quote
    · subst hu
      have hcons : escaped (quote :: name) ++ [quote] = quote :: quote :: (escaped name ++ [quote]) := by
        simp [escaped]
      rw [hcons,literal,if_pos rfl,if_pos rfl,ih]
      rfl
    · have hcons : escaped (u :: name) ++ [quote] = u :: (escaped name ++ [quote]) := by
        simp [escaped,hu]
      rw [hcons]
      cases hrest : escaped name ++ [quote] with
      | nil => simp at hrest
      | cons v rest => rw [literal,if_neg hu,← hrest,ih]; rfl

theorem escaped_eq_nil {name : JsString} : escaped name = [] ↔ name = [] := by
  cases name with
  | nil => simp [escaped]
  | cons u name =>
    by_cases hu : u = quote <;> simp [escaped,hu]

/-- The server reads the name back from the statement that the wrapper sends. -/
theorem assigned_setSQL (cfg : Config) (a : Args) :
    assigned (setSQL cfg a) = if appName cfg a = [] then none else some (appName cfg a) := by
  by_cases hname : appName cfg a = []
  · have hpre : setStart.isPrefixOf [] = false := by decide +kernel
    simp [setSQL,hname,escaped,assigned,hpre]
  · simp [setSQL,hname,escaped_eq_nil,assigned,List.append_assoc,literal_escaped]

theorem afterSet_name (cfg : Config) (t : Session) (a : Args) :
    (t.afterSet (setSQL cfg a)).name = if appName cfg a = [] then t.name else appName cfg a := by
  unfold Session.afterSet
  rw [assigned_setSQL]
  split_ifs <;> rfl

@[simp] theorem item_committed_set (c : Call) : Item.committed (.set c) = none := rfl

@[simp] theorem submit_session (s : State) (c : Call) (failed heard : Bool) :
    (s.submit c failed heard).session = s.session := by
  unfold State.submit
  split <;> rfl

@[simp] theorem submit_executed (s : State) (c : Call) (failed heard : Bool) :
    (s.submit c failed heard).executed = s.executed := by
  unfold State.submit
  split <;> rfl

theorem mem_item_committed {c d : Call} {failed : Bool} :
    Item.committed (.user c failed) = some d ↔ d = c ∧ failed = false ∧ c.args.InScope := by
  simp [Item.committed,and_comm,eq_comm]

theorem mem_job_committed {j : Job} {d : Call} : Job.committed j = some d ↔
    d = j.call ∧ j.turns ≤ 4 ∧ j.failed = false ∧ j.call.args.InScope ∧ j.call.args.refused = none := by
  simp only [Job.committed,Option.ite_none_right_eq_some,Option.some.injEq]
  tauto

theorem mem_committed {s : State} {d : Call} : d ∈ s.committed ↔
    (∃ i ∈ s.queue, Item.committed i = some d) ∨ ∃ j ∈ s.jobs, Job.committed j = some d := by
  simp [State.committed]

theorem mem_committed_submit {s : State} {c d : Call} {failed heard : Bool} :
    d ∈ (s.submit c failed heard).committed ↔
      d ∈ s.committed ∨ d = c ∧ failed = false ∧ c.args.InScope ∧ c.args.refused = none := by
  cases hr : c.args.refused with
  | none =>
    simp only [State.submit,hr,mem_committed,List.mem_append,List.mem_singleton,or_and_right,exists_or,
      exists_eq_left,mem_item_committed,and_true]
    exact or_right_comm
  | some err => simp [State.submit,hr,State.committed]

theorem mem_committed_next {s : State} {j : Job} {stage : Stage} {d : Call} :
    d ∈ (s.next j stage).committed ↔ d ∈ s.committed ∨ Job.committed { j with stage := stage } = some d := by
  simp [State.next,State.committed,or_assoc]

theorem mem_committed_job {s : State} {j : Job} {jobs : List Job} (hj : s.jobs = j :: jobs) {d : Call} :
    d ∈ s.committed ↔ d ∈ State.committed { s with jobs := jobs } ∨ Job.committed j = some d := by
  simp only [mem_committed,hj,List.mem_cons,or_and_right,exists_or,exists_eq_left]
  exact (or_congr_right or_comm).trans or_assoc.symm

theorem mem_committed_runJob {s : State} {j : Job} {d : Call} :
    d ∈ (s.runJob j).committed ↔ d ∈ s.committed ∨ Job.committed j = some d := by
  obtain ⟨c,needs,failed,stage⟩ := j
  have hpin : ∀ a, (s.pin a).committed = s.committed := fun _ => rfl
  cases stage with
  | start =>
    cases needs with
    | true => simp [State.runJob,State.committed,Job.committed,Job.turns]
    | false => simp [State.runJob,mem_committed_next,Job.committed,Job.turns]
  | settled => simp [State.runJob,mem_committed_next,Job.committed,Job.turns]
  | pinning => cases needs <;> cases failed <;> simp [State.runJob,mem_committed_next,hpin,Job.committed,Job.turns]
  | caught => simp [State.runJob,mem_committed_next,Job.committed,Job.turns]
  | send => simp [State.runJob,mem_committed_submit,mem_job_committed,Job.turns]
  | resume => cases failed <;> simp [State.runJob,mem_committed_submit,hpin,mem_job_committed,Job.turns]

theorem runJob_kept (s : State) (j : Job) :
    (s.runJob j).session = s.session ∧ (s.runJob j).executed = s.executed := by
  obtain ⟨c,needs,failed,stage⟩ := j
  cases stage with
  | start => cases needs <;> exact ⟨rfl,rfl⟩
  | settled => exact ⟨rfl,rfl⟩
  | pinning => cases needs <;> cases failed <;> exact ⟨rfl,rfl⟩
  | caught => exact ⟨rfl,rfl⟩
  | send => exact ⟨submit_session _ _ _ _,submit_executed _ _ _ _⟩
  | resume => cases failed <;> exact ⟨submit_session _ _ _ _,submit_executed _ _ _ _⟩

theorem patchedQuery_kept (cfg : Config) (s : State) (a : Args) :
    (s.patchedQuery cfg a).session = s.session ∧ (s.patchedQuery cfg a).executed = s.executed := by
  unfold State.patchedQuery
  dsimp only
  split_ifs <;> simp

theorem mem_committed_patchedQuery {cfg : Config} {s : State} {a : Args} {d : Call} :
    d ∈ (s.patchedQuery cfg a).committed ↔ d ∈ s.committed ∨
      d = ⟨s.issued.length,a⟩ ∧ needsSet s a = false ∧ a.InScope ∧ a.refused = none := by
  have hissued : ∀ xs, State.committed { s with issued := xs } = s.committed := fun _ => rfl
  unfold State.patchedQuery
  dsimp only
  split_ifs with hpass hcb hset
  · have hn : needsSet s a = false := by
      revert hpass
      cases needsSet s a <;> simp
    simp [mem_committed_submit,hissued,hn]
  · cases hn : needsSet s a <;> simp [State.committed,mem_job_committed,Job.turns,or_assoc]
  · simp [State.committed,hset]
  · simp [mem_committed_submit,hissued,hset]

theorem mem_committed_settle {cfg : Config} {s : State} {c d : Call} {queue : List Item} {failed : Bool}
    (hq : s.queue = .set c :: queue) : d ∈ (State.settle cfg { s with queue := queue } c failed).committed ↔
      d ∈ s.committed ∨ d = c ∧ failed = false ∧ c.args.InScope ∧ c.args.refused = none := by
  cases hc : c.args.callback <;>
    simp [State.settle,State.committed,hq,mem_job_committed,hc,Job.turns,or_assoc]

theorem mem_committed_finish {s : State} {c d : Call} {queue : List Item} {failed : Bool} (o : Outcome)
    (effects : List Effect) (hq : s.queue = .user c failed :: queue) : d ∈ s.committed ↔
      d ∈ (State.finish { s with queue := queue } c failed o effects).committed ∨
        d = c ∧ failed = false ∧ c.args.InScope := by
  simp only [mem_committed,hq,List.mem_cons,or_and_right,exists_or,exists_eq_left,mem_item_committed,State.finish]
  rw [or_assoc]
  exact or_comm

theorem settle_name (cfg : Config) (s : State) (c : Call) (failed : Bool) : (s.settle cfg c failed).session.name =
    if failed = true ∨ appName cfg c.args = [] then s.session.name else appName cfg c.args := by
  cases failed with
  | true => simp [State.settle]
  | false => simp [State.settle,afterSet_name]

/-- A `SET` that succeeds leaves the names standing if it is for the name of every call that is past its own,
or for none. -/
theorem settle_stands_iff {cfg : Config} {s : State} {c : Call} {queue : List Item} (failed : Bool)
    (hq : s.queue = .set c :: queue) (hs : NameStands cfg s) :
    NameStands cfg (State.settle cfg { s with queue := queue } c failed) ↔ failed = true ∨
      (c.args.InScope → c.args.refused = none → appName cfg c.args = [] → s.session.name = []) ∧
        (appName cfg c.args ≠ [] → ∀ d ∈ s.committed, appName cfg d.args = appName cfg c.args) := by
  simp only [NameStands,mem_committed_settle hq,settle_name]
  cases failed with
  | true => simpa [NameStands] using hs
  | false =>
    by_cases hname : appName cfg c.args = []
    · simp only [hname,or_true,if_true,true_and,Bool.false_eq_true,false_or,ne_eq,not_true,false_imp_iff,and_true,
        forall_const]
      constructor
      · intro h hin hr
        rw [← h c (.inr ⟨rfl,hin,hr⟩),hname]
      · rintro h d (hd | ⟨rfl,hin,hr⟩)
        · exact hs d hd
        · rw [hname,h hin hr]
    · simp only [hname,or_self,if_false,true_and,Bool.false_eq_true,false_or,false_imp_iff,implies_true,ne_eq,
        not_false_eq_true,forall_const]
      constructor
      · exact fun h d hd => h d (.inl hd)
      · rintro h d (hd | ⟨rfl,-,-⟩)
        · exact h d hd
        · rfl

/-- A query of the application leaves the names standing if it does not change the name of the session or no
call is past its `SET`. -/
theorem finish_stands_iff {cfg : Config} {s : State} {c : Call} {queue : List Item} (failed : Bool) (o : Outcome)
    (effects : List Effect) (hj : s.jobs = []) (hq : s.queue = .user c failed :: queue) (hs : NameStands cfg s) :
    NameStands cfg (State.finish { s with queue := queue } c failed o effects) ↔
      (effects.foldl Session.apply s.session).name = s.session.name ∨ queue.filterMap Item.committed = [] := by
  have hlist : (State.finish { s with queue := queue } c failed o effects).committed =
      queue.filterMap Item.committed := by
    simp [State.committed,State.finish,hj]
  have hold : ∀ d ∈ queue.filterMap Item.committed, appName cfg d.args = s.session.name := by
    intro d hd
    exact hs d ((mem_committed_finish o effects hq).mpr (.inl (hlist ▸ hd)))
  rw [NameStands,hlist]
  constructor
  · intro h
    refine or_iff_not_imp_right.mpr fun hne => ?_
    obtain ⟨d,hd⟩ := List.exists_mem_of_ne_nil _ hne
    exact (h d hd).symm.trans (hold d hd)
  · rintro (heq | hnil) d hd
    · exact (hold d hd).trans heq.symm
    · rw [hnil] at hd
      cases hd

theorem finish_attributed {cfg : Config} {s : State} {c : Call} {queue : List Item} (failed : Bool) (o : Outcome)
    (effects : List Effect) (hq : s.queue = .user c failed :: queue) (hs : NameStands cfg s) (ha : Attributed cfg s) :
    Attributed cfg (State.finish { s with queue := queue } c failed o effects) := by
  intro x hx hin hok
  rcases List.mem_append.mp hx with hx | hx
  · exact ha x hx hin hok
  · obtain rfl := List.mem_singleton.mp hx
    exact (hs c ((mem_committed_finish o effects hq).mpr (.inr ⟨rfl,hok,hin⟩))).symm

/-- In a state in which the names stand and every query so far has been attributed, a step keeps it so exactly
when it keeps the name. -/
theorem nameStands_step {cfg : Config} {s t : State} {l : Label} (hs : NameStands cfg s ∧ Attributed cfg s)
    (h : step cfg s l = some t) : NameStands cfg t ∧ Attributed cfg t ↔ KeepsName cfg s l := by
  obtain ⟨hnames,hattr⟩ := hs
  rcases step_cases h with ⟨a,rfl,rfl⟩ | ⟨j,jobs,rfl,hj,rfl⟩ | ⟨o,effects,c,queue,rfl,hj,hq,rfl⟩ |
    ⟨o,effects,c,failed,queue,rfl,hj,hq,rfl⟩
  · obtain ⟨hsession,hexec⟩ := patchedQuery_kept cfg s a
    have hattr' : Attributed cfg (s.patchedQuery cfg a) := by
      unfold Attributed
      rwa [hexec]
    simp only [NameStands,hsession,mem_committed_patchedQuery,KeepsName,hattr',and_true]
    constructor
    · exact fun ht hin hr hn => ht _ (.inr ⟨rfl,hn,hin,hr⟩)
    · rintro hok d (hd | ⟨rfl,hn,hin,hr⟩)
      · exact hnames d hd
      · exact hok hin hr hn
  · obtain ⟨hsession,hexec⟩ := runJob_kept { s with jobs := jobs } j
    refine iff_of_true ⟨fun d hd => ?_,?_⟩ trivial
    · rw [mem_committed_runJob,← mem_committed_job hj] at hd
      rw [hsession]
      exact hnames d hd
    · unfold Attributed
      rwa [hexec]
  · have hattr' : Attributed cfg (State.settle cfg { s with queue := queue } c o.isError) := hattr
    rw [and_iff_left hattr',settle_stands_iff _ hq hnames,KeepsName,hq]
    rfl
  · rw [and_iff_left (finish_attributed _ _ _ hq hnames hattr),finish_stands_iff _ _ _ hj hq hnames,KeepsName,hq]
    rfl

/-- No call is made, and the client answers with an error that leaves the session as it is. -/
def Label.Quiet : Label → Prop
  | .query _ => False
  | .job => True
  | .answer outcome effects => outcome.isError = true ∧ effects = []

/-- A quiet step leaves a call past its `SET` where it is, or runs its query under the name of the session. -/
theorem quiet_step {cfg : Config} {s t : State} {l : Label} (hl : l.Quiet) (h : step cfg s l = some t) {c : Call}
    (hc : c ∈ s.committed) :
    (Attributed cfg t → appName cfg c.args = s.session.name) ∨ c ∈ t.committed ∧ t.session = s.session := by
  rcases step_cases h with ⟨a,rfl,rfl⟩ | ⟨j,jobs,rfl,hj,rfl⟩ | ⟨o,effects,d,queue,rfl,hj,hq,rfl⟩ |
    ⟨o,effects,d,failed,queue,rfl,hj,hq,rfl⟩
  · exact hl.elim
  · exact .inr ⟨mem_committed_runJob.mpr ((mem_committed_job hj).mp hc),(runJob_kept _ j).1⟩
  · exact .inr ⟨(mem_committed_settle hq).mpr (.inl hc),by simp [State.settle,hl.1]⟩
  · obtain ⟨-,rfl⟩ := hl
    rcases (mem_committed_finish o [] hq).mp hc with hc | ⟨rfl,hok,hin⟩
    · exact .inr ⟨hc,rfl⟩
    · exact .inl fun hattr => (hattr ⟨c,failed,s.session.name⟩ (by simp [State.finish]) hin hok).symm

/-- A call past its `SET` whose name the session does not have runs under the wrong name if nothing more
happens to the session. -/
theorem exists_misattributed {cfg : Config} {s : State} {c : Call} (hc : c ∈ s.committed)
    (hname : appName cfg c.args ≠ s.session.name) : ∃ more t, (∀ l ∈ more, l.Quiet) ∧
      exec (step cfg) s more = some t ∧ ¬ Attributed cfg t := by
  induction hn : s.work using Nat.strong_induction_on generalizing s with
  | _ n ih =>
    have hstep : ∃ l t, Label.Quiet l ∧ step cfg s l = some t ∧ t.work < s.work := by
      by_cases hj : s.jobs = []
      · have hq : s.queue ≠ [] := by
          intro hq
          simp [State.committed,hj,hq] at hc
        obtain ⟨t,ht,hlt⟩ := answer_work cfg (.error []) [] hj hq
        exact ⟨.answer (.error []) [],t,⟨rfl,rfl⟩,ht,hlt⟩
      · obtain ⟨t,ht,hlt⟩ := job_work cfg hj
        exact ⟨.job,t,trivial,ht,hlt⟩
    obtain ⟨l,u,hl,hu,hlt⟩ := hstep
    rcases quiet_step hl hu hc with hrun | ⟨hcu,hsession⟩
    · exact ⟨[l],u,by simpa using hl,by simp [exec,hu],hname ∘ hrun⟩
    · obtain ⟨more,t,hquiet,ht,hbad⟩ := ih u.work (hn ▸ hlt) hcu (hsession ▸ hname) rfl
      exact ⟨l :: more,t,List.forall_mem_cons.mpr ⟨hl,hquiet⟩,by simp [exec,hu,ht],hbad⟩

theorem keepsName_of_quiet {cfg : Config} {s : State} {l : Label} (h : l.Quiet) : KeepsName cfg s l := by
  cases l with
  | query a => exact h.elim
  | job => trivial
  | answer o effects =>
    obtain ⟨ho,rfl⟩ := h
    unfold KeepsName
    rcases s.queue with _ | ⟨_ | _,_⟩
    · trivial
    · exact .inl ho
    · exact .inl rfl

section Runs

variable {cfg : Config} {session : Session} {labels : List Label} {s : State}

theorem quiet_iff : (∀ more t, (∀ l ∈ more, l.Quiet) → exec (step cfg) s more = some t → Attributed cfg t) ↔
    NameStands cfg s ∧ Attributed cfg s := by
  constructor
  · intro h
    refine ⟨fun c hc => ?_,h [] s (by simp) rfl⟩
    by_contra hname
    obtain ⟨more,t,hquiet,ht,hbad⟩ := exists_misattributed hc hname
    exact hbad (h more t hquiet ht)
  · intro hs more t hquiet ht
    have hkeeps : Along (step cfg) (KeepsName cfg) s more :=
      along_of_forall (fun l hl _ => keepsName_of_quiet (hquiet l hl)) ht
    have hall := (forall_reached_iff (fun u => NameStands cfg u ∧ Attributed cfg u)
      (fun _ _ _ hu huv => nameStands_step hu huv) ht hs).mpr hkeeps
    exact (hall more [] t (by simp) ht).2

/-- In every state that a run reaches, and however quietly the client then answers what it still has, each
query has run under the name of its scope, exactly when all steps of the run keep the name. -/
theorem attributed_iff (he : exec (step cfg) (init session) labels = some s) :
    (∀ pre post u, labels = pre ++ post → exec (step cfg) (init session) pre = some u →
      ∀ more t, (∀ l ∈ more, l.Quiet) → exec (step cfg) u more = some t → Attributed cfg t) ↔
      Along (step cfg) (KeepsName cfg) (init session) labels := by
  have hinit : NameStands cfg (init session) ∧ Attributed cfg (init session) := by
    simp [NameStands,Attributed,init,State.committed]
  rw [← forall_reached_iff (fun u => NameStands cfg u ∧ Attributed cfg u)
    (fun _ _ _ hu huv => nameStands_step hu huv) he hinit]
  exact forall₃_congr fun pre post u => forall₂_congr fun _ _ => quiet_iff

end Runs

/-- Two scopes that do not wait for one another. -/
def twoScopes : List Label :=
  [.query (pgArgs (some "ev_1") "INSERT INTO orders DEFAULT VALUES"),
    .query (pgArgs (some "ev_2") "SELECT count(*) FROM orders"),
    done,.job,done,.job,done]

/-- The query of the first scope runs under the name of the second. -/
theorem first_scope_under_second_name : ∃ s ∈ exec (step pgConfig) (init pgSession) twoScopes,
    ¬ Attributed pgConfig s ∧
    s.executed.map (fun x => (x.call.id,x.failed,x.name)) = [(0,false,utf16 "clv:ev_2".toList)] ∧
    s.executed.map (fun x => appName pgConfig x.call.args) = [utf16 "clv:ev_1".toList] := by
  have hend : ∃ s ∈ exec (step pgConfig) (init pgSession) twoScopes,
      (∃ x ∈ s.executed, x.call.args.InScope ∧ x.failed = false ∧ x.name ≠ appName pgConfig x.call.args) ∧
      s.executed.map (fun x => (x.call.id,x.failed,x.name)) = [(0,false,utf16 "clv:ev_2".toList)] ∧
      s.executed.map (fun x => appName pgConfig x.call.args) = [utf16 "clv:ev_1".toList] := by decide +kernel
  obtain ⟨s,hs,⟨x,hx,hin,hok,hname⟩,hexec,hnames⟩ := hend
  exact ⟨s,hs,fun h => hname (h x hx hin hok),hexec,hnames⟩

/-- Two scopes one after the other, with a transaction that is rolled back and a `SET` that fails. -/
def scopesInTurn : List Label :=
  [.query (pgArgs (some "ev_1") "SELECT 1"),done,.job,done,
    .query (pgArgs (some "ev_1") "BEGIN"),.answer (.result []) [.begin],
    .query (pgArgs (some "ev_1") "ROLLBACK"),.answer (.result []) [.rollback],
    .query (pgArgs (some "ev_2") "SELECT 2"),.answer (.error []) [],.job,done,
    .query (pgArgs (some "ev_2") "SELECT 3"),done,.job,done]

theorem attributed_iff_scopesInTurn : ∃ s ∈ exec (step pgConfig) (init pgSession) scopesInTurn,
    Attributed pgConfig s ∧ s.executed.map (fun x => (x.call.id,x.failed)) =
      [(0,false),(1,false),(2,false),(3,true),(4,false)] := by
  have hend : ∃ s ∈ exec (step pgConfig) (init pgSession) scopesInTurn,
      s.executed.map (fun x => (x.call.id,x.failed)) = [(0,false),(1,false),(2,false),(3,true),(4,false)] := by
    decide +kernel
  obtain ⟨s,hs,hexec⟩ := hend
  have he := Option.mem_def.mp hs
  exact ⟨s,hs,(attributed_iff he).mpr (by decide +kernel) scopesInTurn [] s (by simp) he [] s (by simp) rfl,hexec⟩

end PgWrap
end Clearvoiance
