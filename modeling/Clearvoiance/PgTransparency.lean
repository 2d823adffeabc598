import Clearvoiance.PgWrap

/-! The order in which the queries of a wrapped client reach the underlying client.  The calls that wait
stand in a line: by the turns they have left in the microtask queue, then those whose `SET` is in the queue
of the client, then those whose `SET` is yet to be sent.  Jobs and answers keep the line, and a call joins
it behind all earlier calls or overtakes the last of them. -/
namespace Clearvoiance
namespace PgWrap

open JsonStrings Transition

/-- The turns of the microtask queue that a call has left; five stand for a `SET` that is not sent yet. -/
def Job.turns (j : Job) : ℕ :=
  match j.stage with
  | .send => 1
  | .resume => 1
  | .caught => 2
  | .pinning => 3
  | .settled => 4
  | .start => if j.needsSet then 5 else 4

def callsWith (k : ℕ) (jobs : List Job) : List Call := (jobs.filter fun j => j.turns = k).map (·.call)

def Item.pending : Item → Option Call
  | .set c => some c
  | .user _ _ => none

def setCalls (queue : List Item) : List Call := queue.filterMap Item.pending

/-- The calls whose queries have not been submitted, in the order in which they will be. -/
def State.waiting (s : State) : List Call :=
  callsWith 1 s.jobs ++ callsWith 2 s.jobs ++ callsWith 3 s.jobs ++ callsWith 4 s.jobs ++ setCalls s.queue ++
    callsWith 5 s.jobs

def State.order (s : State) : List Call := s.received ++ s.waiting

/-- The waiting calls that a new call comes to stand before. -/
def overtaken (cfg : Config) (s : State) (a : Args) : List Call :=
  if !needsSet s a && (!cfg.emit || !a.callback) then s.waiting
  else if !a.callback then callsWith 5 s.jobs
  else if needsSet s a then []
  else setCalls s.queue ++ callsWith 5 s.jobs

/-- The client throws on the arguments of a callback, and a later turn submits the query, so that the caller
does not learn of it. -/
def Args.Unheard (a : Args) : Prop := a.callback = true ∧ a.refused ≠ none

def Deferred (cfg : Config) (s : State) (a : Args) : Prop := needsSet s a = true ∨ cfg.emit = true

/-- A call overtakes no earlier one, and a callback whose query throws is submitted at once. -/
def TakesTurn (cfg : Config) (s : State) : Label → Prop
  | .query a => overtaken cfg s a = [] ∧ ¬(a.Unheard ∧ Deferred cfg s a)
  | _ => True

instance (a : Args) : Decidable a.Unheard := inferInstanceAs (Decidable (_ ∧ _))

instance (cfg : Config) (s : State) (a : Args) : Decidable (Deferred cfg s a) := inferInstanceAs (Decidable (_ ∨ _))

instance (cfg : Config) (s : State) (l : Label) : Decidable (TakesTurn cfg s l) := by
  induction l using Label.casesOn <;> unfold TakesTurn <;> infer_instance

/-- The underlying client receives every query once, with its arguments, in the order of the calls; it gets
each as soon as there is nothing left to do, and every caller is told what became of it. -/
structure Transparent (s : State) : Prop where
  inOrder : s.received <+: s.issued
  delivered : s.delivered = s.answered
  complete : s.Settled → s.received = s.issued ∧ ∀ c ∈ s.issued, ∃ o, (c,o) ∈ s.delivered

/-- The calls stand in the order in which they were made, and all callers have learnt or will learn what
becomes of their queries. -/
@[mk_iff]
structure InLine (s : State) : Prop where
  order : s.order = s.issued
  delivered : s.delivered = s.answered
  heard : ∀ c ∈ s.waiting, ¬c.args.Unheard

/-- A query that was received has been answered or is in the queue of the client. -/
def State.Accounted (s : State) : Prop :=
  ∀ c ∈ s.received, (∃ o, (c,o) ∈ s.answered) ∨ ∃ failed, .user c failed ∈ s.queue

structure Sound (s : State) : Prop where
  fresh : ∀ c ∈ s.order, c.id < s.issued.length
  told : s.delivered.length ≤ s.answered.length
  accounted : s.Accounted

@[simp] theorem callsWith_nil (k : ℕ) : callsWith k [] = [] := rfl

@[simp] theorem callsWith_cons (k : ℕ) (j : Job) (jobs : List Job) :
    callsWith k (j :: jobs) = (if j.turns = k then [j.call] else []) ++ callsWith k jobs := by
  by_cases h : j.turns = k <;> simp [callsWith,h]

@[simp] theorem callsWith_append (k : ℕ) (xs ys : List Job) :
    callsWith k (xs ++ ys) = callsWith k xs ++ callsWith k ys := by
  simp [callsWith]

@[simp] theorem setCalls_nil : setCalls [] = [] := rfl

@[simp] theorem setCalls_set (c : Call) (queue : List Item) : setCalls (.set c :: queue) = c :: setCalls queue := rfl

@[simp] theorem setCalls_user (c : Call) (failed : Bool) (queue : List Item) :
    setCalls (.user c failed :: queue) = setCalls queue := rfl

@[simp] theorem setCalls_append (xs ys : List Item) : setCalls (xs ++ ys) = setCalls xs ++ setCalls ys := by
  simp [setCalls]

@[simp] theorem submit_received (s : State) (c : Call) (failed heard : Bool) :
    (s.submit c failed heard).received = s.received ++ [c] := by
  unfold State.submit
  split <;> rfl

@[simp] theorem submit_jobs (s : State) (c : Call) (failed heard : Bool) :
    (s.submit c failed heard).jobs = s.jobs := by
  unfold State.submit
  split <;> rfl

@[simp] theorem submit_issued (s : State) (c : Call) (failed heard : Bool) :
    (s.submit c failed heard).issued = s.issued := by
  unfold State.submit
  split <;> rfl

@[simp] theorem setCalls_submit (s : State) (c : Call) (failed heard : Bool) :
    setCalls (s.submit c failed heard).queue = setCalls s.queue := by
  unfold State.submit
  split <;> simp

@[simp] theorem submit_waiting (s : State) (c : Call) (failed heard : Bool) :
    (s.submit c failed heard).waiting = s.waiting := by
  simp [State.waiting]

/-- The error that the client throws on the arguments of a call. -/
def thrown (c : Call) : List (Call × Outcome) := (c.args.refused.map fun err => (c,.error err)).toList

@[simp] theorem submit_answered (s : State) (c : Call) (failed heard : Bool) :
    (s.submit c failed heard).answered = s.answered ++ thrown c := by
  cases hr : c.args.refused <;> simp [State.submit,thrown,hr]

@[simp] theorem submit_delivered (s : State) (c : Call) (failed heard : Bool) :
    (s.submit c failed heard).delivered = s.delivered ++ if heard then thrown c else [] := by
  cases hr : c.args.refused <;> simp [State.submit,thrown,hr]

/-- A list with an element put into it ends with that element only if it was put at the end. -/
theorem insert_eq_concat_iff {α : Type*} {front back xs : List α} {x : α} (hx : x ∉ back) :
    front ++ x :: back = xs ++ [x] ↔ front ++ back = xs ∧ back = [] := by
  constructor
  · intro h
    rcases List.eq_nil_or_concat back with rfl | ⟨ys,y,rfl⟩
    · simpa using h
    · have h' : (front ++ x :: ys) ++ [y] = xs ++ [x] := by simpa using h
      have hyx : y = x := by simpa using List.append_inj_right' h' rfl
      simp [hyx] at hx
  · rintro ⟨rfl,rfl⟩
    simp

/-- What a later turn tells the caller of what its query throws. -/
theorem tell_iff {xs ys : List (Call × Outcome)} {c : Call} (h : ys.length ≤ xs.length) :
    ys ++ (if c.args.callback then [] else thrown c) = xs ++ thrown c ↔ ys = xs ∧ ¬c.args.Unheard := by
  cases hc : c.args.callback with
  | false => simp [Args.Unheard,hc]
  | true =>
    cases hr : c.args.refused with
    | none => simp [Args.Unheard,hr,thrown]
    | some err =>
      have hunheard : c.args.Unheard := ⟨hc,by simp [hr]⟩
      refine ⟨fun heq => ?_,fun heq => absurd hunheard heq.2⟩
      have hlen := congrArg List.length heq
      simp [thrown,hr] at hlen
      omega

/-- What one step does to the line and to what is known of the queries. -/
inductive Progress (cfg : Config) (s t : State) : Label → Prop
  | turned (l : Label) : l.isQuery = false → t.issued = s.issued → t.received = s.received →
      t.waiting = s.waiting → t.answered = s.answered → t.delivered = s.delivered → Progress cfg s t l
  | submitted (l : Label) (c : Call) : l.isQuery = false → t.issued = s.issued → t.received = s.received ++ [c] →
      s.waiting = c :: t.waiting → t.answered = s.answered ++ thrown c →
      t.delivered = s.delivered ++ (if c.args.callback then [] else thrown c) → Progress cfg s t l
  | answered (l : Label) (c : Call) (o : Outcome) : l.isQuery = false → t.issued = s.issued →
      t.received = s.received → t.waiting = s.waiting → t.answered = s.answered ++ [(c,o)] →
      t.delivered = s.delivered ++ [(c,o)] → Progress cfg s t l
  | passed (a : Args) (c : Call) : c = ⟨s.issued.length,a⟩ → t.issued = s.issued ++ [c] →
      t.received = s.received ++ [c] → t.waiting = s.waiting → overtaken cfg s a = s.waiting →
      ¬(a.Unheard ∧ Deferred cfg s a) → t.answered = s.answered ++ thrown c →
      t.delivered = s.delivered ++ thrown c → Progress cfg s t (.query a)
  | joined (a : Args) (c : Call) (front : List Call) : c = ⟨s.issued.length,a⟩ → t.issued = s.issued ++ [c] →
      t.received = s.received → s.waiting = front ++ overtaken cfg s a →
      t.waiting = front ++ c :: overtaken cfg s a → Deferred cfg s a → t.answered = s.answered →
      t.delivered = s.delivered → Progress cfg s t (.query a)

theorem runJob_progress {cfg : Config} {s : State} {j : Job} {jobs : List Job} (hj : s.jobs = j :: jobs) :
    Progress cfg s ({ s with jobs := jobs }.runJob j) .job := by
  obtain ⟨c,needs,failed,stage⟩ := j
  cases stage with
  | start =>
    cases needs <;> exact .turned _ rfl rfl rfl (by simp [State.waiting,State.runJob,State.next,hj,Job.turns]) rfl rfl
  | settled => exact .turned _ rfl rfl rfl (by simp [State.waiting,State.runJob,State.next,hj,Job.turns]) rfl rfl
  | pinning =>
    cases needs <;> cases failed <;>
      exact .turned _ rfl rfl rfl
        (by simp [State.waiting,State.runJob,State.next,State.pin,hj,Job.turns]) rfl rfl
  | caught => exact .turned _ rfl rfl rfl (by simp [State.waiting,State.runJob,State.next,hj,Job.turns]) rfl rfl
  | send =>
    refine .submitted _ c rfl ?_ ?_ ?_ ?_ ?_ <;> cases hc : c.args.callback <;>
      simp [State.runJob,State.waiting,hj,hc,Job.turns]
  | resume =>
    refine .submitted _ c rfl ?_ ?_ ?_ ?_ ?_ <;> cases failed <;> cases hc : c.args.callback <;>
      simp [State.runJob,State.waiting,State.pin,hj,hc,Job.turns]

theorem patchedQuery_progress (cfg : Config) (s : State) (a : Args) :
    Progress cfg s (s.patchedQuery cfg a) (.query a) := by
  cases hn : needsSet s a <;> cases he : cfg.emit <;> cases hc : a.callback
  case false.false.false | false.false.true | false.true.false =>
    refine .passed a ⟨s.issued.length,a⟩ rfl ?_ ?_ ?_ ?_ ?_ ?_ ?_ <;>
      simp [State.patchedQuery,hn,he,hc,overtaken,State.waiting,Args.Unheard,Deferred]
  case false.true.true =>
    refine .joined a ⟨s.issued.length,a⟩ (callsWith 1 s.jobs ++ callsWith 2 s.jobs ++ callsWith 3 s.jobs ++
      callsWith 4 s.jobs) rfl ?_ ?_ ?_ ?_ ?_ ?_ ?_ <;>
      simp [State.patchedQuery,hn,he,hc,overtaken,State.waiting,Deferred,Job.turns]
  case true.false.false | true.true.false =>
    refine .joined a ⟨s.issued.length,a⟩ (callsWith 1 s.jobs ++ callsWith 2 s.jobs ++ callsWith 3 s.jobs ++
      callsWith 4 s.jobs ++ setCalls s.queue) rfl ?_ ?_ ?_ ?_ ?_ ?_ ?_ <;>
      simp [State.patchedQuery,hn,he,hc,overtaken,State.waiting,Deferred]
  case true.false.true | true.true.true =>
    refine .joined a ⟨s.issued.length,a⟩ s.waiting rfl ?_ ?_ ?_ ?_ ?_ ?_ ?_ <;>
      simp [State.patchedQuery,hn,he,hc,overtaken,State.waiting,Deferred,Job.turns]

theorem settle_progress {cfg : Config} {s : State} {c : Call} {queue : List Item} (failed : Bool) (o : Outcome)
    (effects : List Effect) (hj : s.jobs = []) (hq : s.queue = .set c :: queue) :
    Progress cfg s ({ s with queue := queue }.settle cfg c failed) (.answer o effects) := by
  refine .turned _ rfl rfl rfl ?_ rfl rfl
  cases hc : c.args.callback <;> simp [State.waiting,State.settle,hj,hq,hc,Job.turns]

theorem step_progress {cfg : Config} {s t : State} {l : Label} (h : step cfg s l = some t) : Progress cfg s t l := by
  rcases step_cases h with ⟨a,rfl,rfl⟩ | ⟨j,jobs,rfl,hj,rfl⟩ | ⟨o,effects,c,queue,rfl,hj,hq,rfl⟩ |
    ⟨o,effects,c,failed,queue,rfl,hj,hq,rfl⟩
  · exact patchedQuery_progress cfg s a
  · exact runJob_progress hj
  · exact settle_progress _ o effects hj hq
  · exact .answered _ c o rfl rfl rfl (by simp [State.waiting,State.finish,hj,hq]) rfl rfl

theorem submit_accounted {s : State} (c : Call) (failed heard : Bool) (h : s.Accounted) :
    (s.submit c failed heard).Accounted := by
  intro d hd
  rw [submit_received,List.mem_append,List.mem_singleton] at hd
  cases hr : c.args.refused with
  | none =>
    rcases hd with hd | rfl
    · rcases h d hd with ho | ⟨f,hf⟩
      · exact .inl (by simpa [State.submit,hr] using ho)
      · exact .inr ⟨f,by simp [State.submit,hr,hf]⟩
    · exact .inr ⟨failed,by simp [State.submit,hr]⟩
  | some err =>
    rcases hd with hd | rfl
    · rcases h d hd with ⟨o,ho⟩ | hf
      · exact .inl ⟨o,by simp [State.submit,hr,ho]⟩
      · exact .inr (by simpa [State.submit,hr] using hf)
    · exact .inl ⟨.error err,by simp [State.submit,hr]⟩

theorem runJob_accounted (s : State) (j : Job) (h : s.Accounted) : (s.runJob j).Accounted := by
  obtain ⟨c,needs,failed,stage⟩ := j
  cases stage with
  | start =>
    cases needs with
    | true => exact fun d hd => (h d hd).imp_right fun ⟨f,hf⟩ => ⟨f,by simp [State.runJob,hf]⟩
    | false => exact h
  | settled => exact h
  | pinning => cases needs <;> cases failed <;> exact h
  | caught => exact h
  | send => exact submit_accounted _ _ _ h
  | resume => cases failed <;> exact submit_accounted _ _ _ h

theorem step_accounted {cfg : Config} {s t : State} {l : Label} (h : step cfg s l = some t) (hs : s.Accounted) :
    t.Accounted := by
  rcases step_cases h with ⟨a,rfl,rfl⟩ | ⟨j,jobs,rfl,hj,rfl⟩ | ⟨o,effects,c,queue,rfl,hj,hq,rfl⟩ |
    ⟨o,effects,c,failed,queue,rfl,hj,hq,rfl⟩
  · unfold State.patchedQuery
    dsimp only
    split_ifs
    · exact submit_accounted _ _ _ hs
    · exact hs
    · exact fun d hd => (hs d hd).imp_right fun ⟨f,hf⟩ => ⟨f,by simp [hf]⟩
    · exact submit_accounted _ _ _ hs
  · exact runJob_accounted { s with jobs := jobs } j hs
  · exact fun d hd => (hs d hd).imp_right fun ⟨f,hf⟩ => ⟨f,by simpa [State.settle,hq] using hf⟩
  · intro d hd
    rcases hs d hd with ⟨p,hp⟩ | ⟨f,hf⟩
    · exact .inl ⟨p,by simp [State.finish,hp]⟩
    · simp only [hq,List.mem_cons,Item.user.injEq] at hf
      rcases hf with ⟨rfl,-⟩ | hf
      · exact .inl ⟨o,by simp [State.finish]⟩
      · exact .inr ⟨f,hf⟩

namespace Progress

variable {cfg : Config} {s t : State}

theorem order_eq {l : Label} (h : Progress cfg s t l) (hl : l.isQuery = false) :
    t.order = s.order ∧ t.issued = s.issued := by
  cases h with
  | turned _ _ hi hr hw => exact ⟨by simp [State.order,hr,hw],hi⟩
  | submitted c _ _ hi hr hw => exact ⟨by simp [State.order,hr,hw],hi⟩
  | answered c o _ _ hi hr hw => exact ⟨by simp [State.order,hr,hw],hi⟩
  | passed a c => cases hl
  | joined a c front => cases hl

theorem order_insert {a : Args} (h : Progress cfg s t (.query a)) :
    ∃ front, s.order = front ++ overtaken cfg s a ∧ t.order = front ++ ⟨s.issued.length,a⟩ :: overtaken cfg s a ∧
      t.issued = s.issued ++ [⟨s.issued.length,a⟩] := by
  cases h with
  | turned _ hl => cases hl
  | submitted c _ hl => cases hl
  | answered c o _ hl => cases hl
  | passed a c hc hi hr hw hov =>
    subst hc
    exact ⟨s.received,by simp [State.order,hov],by simp [State.order,hr,hw,hov],hi⟩
  | joined a c front hc hi hr hw hw' =>
    subst hc
    exact ⟨s.received ++ front,by simp [State.order,hw],by simp [State.order,hr,hw'],hi⟩

theorem sound {l : Label} (h : Progress cfg s t l) (hs : Sound s) (hacc : t.Accounted) : Sound t := by
  refine ⟨?_,?_,hacc⟩
  · intro c hc
    cases l with
    | query a =>
      obtain ⟨front,ho,ht,hi⟩ := h.order_insert
      have hlt : ∀ d ∈ s.order, d.id < t.issued.length := by
        intro d hd
        have := hs.fresh d hd
        rw [hi,List.length_append,List.length_singleton]
        omega
      rw [ht,List.mem_append,List.mem_cons] at hc
      rcases hc with hc | rfl | hc
      · exact hlt c (by simp [ho,hc])
      · simp [hi]
      · exact hlt c (by simp [ho,hc])
    | job =>
      obtain ⟨ho,hi⟩ := h.order_eq rfl
      exact hi ▸ hs.fresh c (ho ▸ hc)
    | answer o effects =>
      obtain ⟨ho,hi⟩ := h.order_eq rfl
      exact hi ▸ hs.fresh c (ho ▸ hc)
  · have htold := hs.told
    cases h with
    | turned _ _ _ _ _ ha hd => rw [ha,hd]; exact htold
    | submitted _ c _ _ _ _ ha hd =>
      rw [ha,hd,List.length_append,List.length_append]
      split_ifs <;> simp <;> omega
    | answered _ c o _ _ _ _ ha hd => rw [ha,hd]; simpa using htold
    | passed a c _ _ _ _ _ _ ha hd => rw [ha,hd]; simpa using htold
    | joined a c front _ _ _ _ _ _ ha hd => rw [ha,hd]; exact htold

/-- A call ends up behind all earlier ones exactly when it overtakes none. -/
theorem order_issued_iff {a : Args} (h : Progress cfg s t (.query a)) (hs : Sound s) :
    t.order = t.issued ↔ s.order = s.issued ∧ overtaken cfg s a = [] := by
  obtain ⟨front,ho,ht,hi⟩ := h.order_insert
  rw [ht,hi,ho]
  refine insert_eq_concat_iff fun hmem => ?_
  have hlt := hs.fresh ⟨s.issued.length,a⟩ (by simp [ho,hmem])
  exact absurd hlt (by simp)

/-- The line is as it should be after a step exactly when it was before and the step takes its turn. -/
theorem inLine_iff_takesTurn {l : Label} (h : Progress cfg s t l) (hs : Sound s) :
    InLine t ↔ InLine s ∧ TakesTurn cfg s l := by
  have hwait : l.isQuery = false → (TakesTurn cfg s l ↔ True) ∧ (t.order = t.issued ↔ s.order = s.issued) := by
    intro hl
    obtain ⟨ho,hi⟩ := h.order_eq hl
    refine ⟨?_,by rw [ho,hi]⟩
    cases l with
    | query a => cases hl
    | job => exact Iff.rfl
    | answer o effects => exact Iff.rfl
  have hquery : ∀ a, l = .query a → (t.order = t.issued ↔ s.order = s.issued ∧ overtaken cfg s a = []) := by
    rintro a rfl
    exact h.order_issued_iff hs
  rw [inLine_iff,inLine_iff]
  cases h with
  | turned _ hl _ _ hw ha hd =>
    obtain ⟨hturn,horder⟩ := hwait hl
    rw [hturn,horder,hw,ha,hd,and_true]
  | submitted _ c hl _ _ hw ha hd =>
    obtain ⟨hturn,horder⟩ := hwait hl
    rw [hturn,horder,hw,ha,hd,and_true,tell_iff hs.told,List.forall_mem_cons]
    tauto
  | answered _ c o hl _ _ hw ha hd =>
    obtain ⟨hturn,horder⟩ := hwait hl
    rw [hturn,horder,hw,ha,hd,and_true,List.append_left_inj]
  | passed a c hc hi hr hw hov hheard ha hd =>
    rw [hquery a rfl,hw,ha,hd,List.append_left_inj]
    simp only [TakesTurn]
    tauto
  | joined a c front hc hi hr hw hw' hdef ha hd =>
    subst hc
    rw [hquery a rfl,hw,hw',ha,hd]
    simp only [TakesTurn,List.forall_mem_append,List.forall_mem_cons,hdef,and_true]
    tauto

end Progress

def Stage.work : Stage → ℕ
  | .send => 2
  | .resume => 2
  | .caught => 3
  | .pinning => 4
  | .settled => 5
  | .start => 7

def Item.work : Item → ℕ
  | .set _ => 6
  | .user _ _ => 1

/-- What is left to do until the client has answered everything. -/
def State.work (s : State) : ℕ := (s.jobs.map fun j => j.stage.work).sum + (s.queue.map Item.work).sum

theorem submit_work (s : State) (c : Call) (failed heard : Bool) : (s.submit c failed heard).work ≤ s.work+1 := by
  unfold State.submit
  split <;> simp [State.work,Item.work]
  omega

theorem next_work (s : State) (j : Job) (stage : Stage) : (s.next j stage).work = s.work+stage.work := by
  simp [State.work,State.next]
  omega

theorem pin_work (s : State) (a : Args) : (s.pin a).work = s.work := rfl

theorem runJob_work (s : State) (j : Job) : (s.runJob j).work < s.work+j.stage.work := by
  obtain ⟨c,needs,failed,stage⟩ := j
  cases stage with
  | start =>
    cases needs with
    | true =>
      simp [State.runJob,State.work,Item.work,Stage.work]
      omega
    | false => simp [State.runJob,next_work,Stage.work]
  | settled => simp [State.runJob,next_work,Stage.work]
  | pinning => cases needs <;> cases failed <;> simp [State.runJob,next_work,pin_work,Stage.work]
  | caught => simp [State.runJob,next_work,Stage.work]
  | send =>
    have hle := submit_work s c failed (!c.args.callback)
    simp only [State.runJob,Stage.work]
    omega
  | resume =>
    have hle := submit_work (if failed then s else s.pin c.args) c failed (!c.args.callback)
    cases failed <;> simp [State.runJob,pin_work,Stage.work] at hle ⊢ <;> omega

theorem job_work (cfg : Config) {s : State} (hj : s.jobs ≠ []) : ∃ t, step cfg s .job = some t ∧ t.work < s.work := by
  cases hjobs : s.jobs with
  | nil => exact absurd hjobs hj
  | cons j jobs =>
    refine ⟨_,by simp [step,hjobs]; rfl,?_⟩
    have hlt := runJob_work { s with jobs := jobs } j
    have hs : s.work = State.work { s with jobs := jobs }+j.stage.work := by
      simp [State.work,hjobs]
      omega
    omega

theorem answer_work (cfg : Config) {s : State} (o : Outcome) (effects : List Effect) (hj : s.jobs = [])
    (hq : s.queue ≠ []) : ∃ t, step cfg s (.answer o effects) = some t ∧ t.work < s.work := by
  cases hqueue : s.queue with
  | nil => exact absurd hqueue hq
  | cons i queue =>
    cases i with
    | set c =>
      refine ⟨_,by simp [step,hj,hqueue]; rfl,?_⟩
      cases hc : c.args.callback <;> simp [State.work,State.settle,hj,hqueue,hc,Stage.work,Item.work]
    | user c failed =>
      refine ⟨_,by simp [step,hj,hqueue]; rfl,?_⟩
      simp [State.work,State.finish,hj,hqueue,Item.work]

theorem exists_settled (cfg : Config) (s : State) : ∃ more t, (∀ l ∈ more, l.isQuery = false) ∧
    exec (step cfg) s more = some t ∧ t.Settled := by
  induction hn : s.work using Nat.strong_induction_on generalizing s with
  | _ n ih =>
    by_cases hset : s.Settled
    · exact ⟨[],s,by simp,rfl,hset⟩
    · have hstep : ∃ l t, Label.isQuery l = false ∧ step cfg s l = some t ∧ t.work < s.work := by
        by_cases hj : s.jobs = []
        · obtain ⟨t,ht,hlt⟩ := answer_work cfg (.result []) [] hj fun hq => hset ⟨hj,hq⟩
          exact ⟨_,t,rfl,ht,hlt⟩
        · obtain ⟨t,ht,hlt⟩ := job_work cfg hj
          exact ⟨_,t,rfl,ht,hlt⟩
      obtain ⟨l,u,hl,hu,hlt⟩ := hstep
      obtain ⟨more,t,hno,ht,hdone⟩ := ih u.work (hn ▸ hlt) u rfl
      refine ⟨l :: more,t,?_,by simp [exec,hu,ht],hdone⟩
      intro k hk
      rcases List.mem_cons.mp hk with rfl | hk
      · exact hl
      · exact hno k hk

theorem waiting_of_settled {s : State} (h : s.Settled) : s.waiting = [] := by
  simp [State.waiting,h.1,h.2]

theorem transparent_of_inLine {s : State} (hl : InLine s) (hs : Sound s) : Transparent s := by
  refine ⟨⟨s.waiting,hl.order⟩,hl.delivered,fun hset => ?_⟩
  have hreceived : s.received = s.issued := by
    have horder := hl.order
    rwa [State.order,waiting_of_settled hset,List.append_nil] at horder
  refine ⟨hreceived,fun c hc => ?_⟩
  rcases hs.accounted c (hreceived ▸ hc) with ho | ⟨f,hf⟩
  · exact hl.delivered ▸ ho
  · rw [hset.2] at hf
    cases hf

theorem inLine_of_transparent {s : State} (h : Transparent s) (hset : s.Settled) : InLine s := by
  have hwait := waiting_of_settled hset
  refine ⟨?_,h.delivered,fun c hc => ?_⟩
  · rw [State.order,hwait,List.append_nil]
    exact (h.complete hset).1
  · rw [hwait] at hc
    cases hc

theorem sound_step {cfg : Config} {s t : State} {l : Label} (hs : Sound s) (h : step cfg s l = some t) : Sound t :=
  (step_progress h).sound hs (step_accounted h hs.accounted)

section Runs

variable {cfg : Config} {session : Session} {labels : List Label} {s : State}

theorem inLine_iff_along {t : State} (hs : Sound s) (he : exec (step cfg) s labels = some t) :
    InLine t ↔ InLine s ∧ Along (step cfg) (TakesTurn cfg) s labels := by
  refine holds_iff_along Sound InLine (fun u l v hu huv => ?_) he hs
  exact ⟨sound_step hu huv,(step_progress huv).inLine_iff_takesTurn hu⟩

theorem sound_init (session : Session) : Sound (init session) :=
  ⟨by simp [init,State.order,State.waiting],le_rfl,by simp [init,State.Accounted]⟩

theorem inLine_init (session : Session) : InLine (init session) := ⟨rfl,rfl,by simp [init,State.waiting]⟩

theorem sound_exec {t : State} (hs : Sound s) (he : exec (step cfg) s labels = some t) : Sound t :=
  (Run.of_exec_true he).invariant Sound (fun _ _ _ hu _ huv => sound_step hu huv) hs

/-- However a run goes on without further calls, the wrapper is transparent, exactly when every call of the
run takes its turn. -/
theorem queries_in_order_iff (he : exec (step cfg) (init session) labels = some s) :
    (∀ more t, (∀ l ∈ more, l.isQuery = false) → exec (step cfg) s more = some t → Transparent t) ↔
      Along (step cfg) (TakesTurn cfg) (init session) labels := by
  have hsound := sound_exec (sound_init session) he
  have hline := inLine_iff_along (sound_init session) he
  rw [and_iff_right (inLine_init session)] at hline
  rw [← hline]
  constructor
  · intro h
    obtain ⟨more,t,hno,ht,hset⟩ := exists_settled cfg s
    exact ((inLine_iff_along hsound ht).mp (inLine_of_transparent (h more t hno ht) hset)).1
  · intro hs more t hno ht
    have hturns : Along (step cfg) (TakesTurn cfg) s more := by
      refine along_of_forall (fun l hl u => ?_) ht
      cases l with
      | query a => exact absurd (hno _ hl) (by simp [Label.isQuery])
      | job => trivial
      | answer o effects => trivial
    exact transparent_of_inLine ((inLine_iff_along hsound ht).mpr ⟨hs,hturns⟩) (sound_exec hsound ht)

end Runs

/-- The names of the builder with its default options, and no observations. -/
def pgConfig : Config := ⟨AppNames.makeAppNameBuilder {},false⟩

def pgSession : Session := ⟨[],[]⟩

def pgArgs (event : Option String) (query : String) : Args :=
  ⟨event.map fun e => utf16 e.toList,none,utf16 query.toList,false,none⟩

def done : Label := .answer (.result []) []

/-- An insert in the scope of an event, and a call outside of any scope that does not wait for it. -/
def insertThenCount : List Label :=
  [.query (pgArgs (some "ev_1") "INSERT INTO orders DEFAULT VALUES"),
    .query (pgArgs none "SELECT count(*) FROM orders"),done,.job,done,done]

/-- The second query is received first. -/
theorem second_query_received_first : ∃ s ∈ exec (step pgConfig) (init pgSession) insertThenCount, ¬ Transparent s ∧
    s.issued.map (·.id) = [0,1] ∧ s.received.map (·.id) = [1,0] ∧ s.Settled := by
  have hend : ∃ s ∈ exec (step pgConfig) (init pgSession) insertThenCount,
      s.issued.map (·.id) = [0,1] ∧ s.received.map (·.id) = [1,0] ∧ s.jobs = [] ∧ s.queue = [] := by decide +kernel
  obtain ⟨s,hs,hissued,hreceived,hset⟩ := hend
  refine ⟨s,hs,fun h => ?_,hissued,hreceived,hset⟩
  have heq := congrArg (List.map (·.id)) (h.complete hset).1
  rw [hissued,hreceived] at heq
  exact absurd heq (by decide)

/-- Two calls in one scope before the first `SET` is answered, and a third when all is done. -/
def twoInScope : List Label :=
  [.query (pgArgs (some "ev_1") "BEGIN"),.query (pgArgs (some "ev_1") "INSERT INTO orders DEFAULT VALUES"),
    done,.job,done,.job,.answer (.result []) [.begin],done,.query (pgArgs (some "ev_1") "COMMIT")]

theorem queries_in_order_iff_twoInScope : ∃ s ∈ exec (step pgConfig) (init pgSession) twoInScope, Transparent s ∧
    s.received.map (·.id) = [0,1,2] := by
  have hend : ∃ s ∈ exec (step pgConfig) (init pgSession) twoInScope, s.received.map (·.id) = [0,1,2] := by
    decide +kernel
  obtain ⟨s,hs,hreceived⟩ := hend
  have he := Option.mem_def.mp hs
  exact ⟨s,hs,(queries_in_order_iff he).mpr (by decide +kernel) [] s (by simp) rfl,hreceived⟩

end PgWrap
end Clearvoiance
