import Clearvoiance.StoppedSessions

/-! `StreamEvents` beside the session manager.  A stream looks its session up once, at the handshake, and
then accepts batches until it is closed: it persists a batch, adds it to the counters and acknowledges
it without another look at the status.  The other RPCs, the REST and monitor stops and the sweeper are
calls of the manager; everything interleaves. -/
namespace Clearvoiance
namespace StreamIngest

open SessionStore Transition
open SessionManager hiding Env State Action step init advance entry

structure Batch where
  batchId : ℤ
  events : ℤ
  bytes : ℤ
  deriving DecidableEq

/-- `late` says that the session had been stopped when the batch was received. -/
structure Ack where
  sessionID : String
  batch : Batch
  late : Bool
  ackedAt : ℕ
  deriving DecidableEq

/-- `history` are the replies of the manager, newest first, `handshakes` and `acked` what the streams
have accepted and when. -/
structure Engine where
  mgr : Manager
  history : List Reply
  handshakes : List (String × ℕ)
  acked : List Ack

inductive Message
  | batch (b : Batch)
  | flush
  | other
  | eof
  deriving DecidableEq

/-- What the environment chooses for one step: the manager's choices, the message that a stream
receives, and whether the event store or the sending of a message fails. -/
structure Env where
  mgr : SessionManager.Env := {}
  received : Message := .flush
  failed : Bool := false
  deriving DecidableEq

/-- A call of the manager, or a stream: in `Get`, before the check of the status, waiting for a
message, or at work on a batch. -/
inductive Thread
  | rpc (p : Pc)
  | opening (id : String) (p : Pc)
  | checking (id : String) (ptr : ℕ)
  | receiving (id : String)
  | inserting (id : String) (b : Batch) (late : Bool)
  | recording (id : String) (b : Batch) (late : Bool) (p : Pc)
  | acking (id : String) (b : Batch) (late : Bool)
  deriving DecidableEq

inductive Request
  | rpc (c : Call)
  | stream (id : String)
  deriving DecidableEq

def entry : Request → Thread
  | .rpc c => .rpc (SessionManager.entry c)
  | .stream id => .opening id (SessionManager.entry (.get id))

def Engine.reply (g : Engine) (m : Manager) (r : Reply) : Engine := { g with mgr := m, history := r :: g.history }

def advance (e : Env) (g : Engine) : Thread → Engine × (Thread ⊕ Unit)
  | .rpc p =>
    match SessionManager.advance e.mgr g.mgr p with
    | (m,.inl p') => ({ g with mgr := m },.inl (.rpc p'))
    | (m,.inr r) => (g.reply m r,.inr ())
  | .opening id p =>
    match SessionManager.advance e.mgr g.mgr p with
    | (m,.inl p') => ({ g with mgr := m },.inl (.opening id p'))
    | (m,.inr r) =>
      (g.reply m r,
        match r.result,m.sessions id with
        | .session s,some ptr => .inl (.checking s.id ptr)
        | _,_ => .inr ())
  | .checking id ptr =>
    if (g.mgr.heap[ptr]?).map (·.status) = some .active ∧ e.failed = false then
      ({ g with handshakes := (id,e.mgr.now) :: g.handshakes },.inl (.receiving id))
    else (g,.inr ())
  | .receiving id =>
    match e.received with
    | .batch b => (g,.inl (.inserting id b (decide (StoppedIn id g.history))))
    | .flush => (g,.inl (.receiving id))
    | .other | .eof => (g,.inr ())
  | .inserting id b late =>
    if e.failed then (g,.inr ())
    else (g,.inl (.recording id b late (SessionManager.entry (.recordEvents id b.events b.bytes))))
  | .recording id b late p =>
    match SessionManager.advance e.mgr g.mgr p with
    | (m,.inl p') => ({ g with mgr := m },.inl (.recording id b late p'))
    | (m,.inr r) => (g.reply m r,.inl (.acking id b late))
  | .acking id b late =>
    if e.failed then (g,.inr ())
    else ({ g with acked := ⟨id,b,late,e.mgr.now⟩ :: g.acked },.inl (.receiving id))

abbrev State := Pool Engine Thread Unit

abbrev Action := Act Request Env

abbrev step : State → Action → Option State := Pool.step entry advance

def init (b : Backend) : State := ⟨⟨.new b,[],[],[]⟩,[],[]⟩

/-- For the sessions, a stream is a call that hands its session out, from the handshake to its end. -/
def Thread.view : Thread → Pc
  | .rpc p | .opening _ p => p
  | .checking id _ | .receiving id | .inserting id _ _ | .recording id _ _ _ | .acking id _ _ => .getLookup id

/-- The calls of the manager in flight, with the streams among them. -/
def manager (s : State) : SessionManager.State := ⟨s.shared.mgr,s.threads.map Thread.view,s.shared.history⟩

/-- A session is stopped or swept only while no stream on it is open or opening, and the calls that
hand sessions out do not meet the calls that stop them. -/
def Quiet (s : State) : Action → Prop
  | .invoke (.rpc c) => Undisturbed (manager s) (.invoke c)
  | .invoke (.stream id) => Undisturbed (manager s) (.invoke (.get id))
  | .advance i e => ∀ th ∈ s.threads[i]?, th.view.clear e.mgr (manager s)

instance (s : State) : DecidablePred (Quiet s)
  | .invoke (.rpc c) => inferInstanceAs (Decidable (Undisturbed (manager s) (.invoke c)))
  | .invoke (.stream id) => inferInstanceAs (Decidable (Undisturbed (manager s) (.invoke (.get id))))
  | .advance i e => inferInstanceAs (Decidable (∀ th ∈ s.threads[i]?, th.view.clear e.mgr (manager s)))

def NoneLate (g : Engine) : Prop := ∀ a ∈ g.acked, a.late = false

instance (g : Engine) : Decidable (NoneLate g) := inferInstanceAs (Decidable (∀ a ∈ g.acked, a.late = false))

def Gets (id : String) (p : Pc) : Prop := p = .getLookup id ∨ p = .getFetch id ∨ ∃ row, p = .getInstall id row

def Records : Pc → Prop
  | .recordLookup .. | .recordAdd .. | .recordAddBytes .. => True
  | _ => False

def Fresh (g : Engine) : Thread → Prop
  | .rpc _ => True
  | .opening id p => Gets id p
  | .checking id ptr => ∃ s, g.mgr.heap[ptr]? = some s ∧ (s.status = .active → ¬ StoppedIn id g.history)
  | .receiving id => ¬ StoppedIn id g.history
  | .inserting id _ late | .acking id _ late => late = false ∧ ¬ StoppedIn id g.history
  | .recording id _ late p => late = false ∧ ¬ StoppedIn id g.history ∧ Records p

theorem gets_next {e : SessionManager.Env} {m m' : Manager} {id : String} {p p' : Pc} (hp : Gets id p)
    (h : SessionManager.advance e m p = (m',.inl p')) : Gets id p' := by
  rcases hp with rfl | rfl | ⟨row,rfl⟩
  · simp only [SessionManager.advance,goto,reply] at h
    split at h <;> cases h
    exact .inr (.inl rfl)
  · simp only [SessionManager.advance,goto,reply] at h
    split at h
    · cases h
    · cases h
    · split at h <;> cases h
      exact .inr (.inr ⟨_,rfl⟩)
  · simp only [SessionManager.advance,reply] at h
    split at h <;> cases h

theorem gets_reply {e : SessionManager.Env} {m m' : Manager} {rs : List Reply} {id : String} {p : Pc} {r : Reply}
    {s : Session} {ptr : ℕ} (hp : Gets id p) (h : SessionManager.advance e m p = (m',.inr r)) (hG : Settled m rs)
    (hT : Local m rs p) (hs : r.result = .session s) (hptr : m'.sessions id = some ptr) :
    s.id = id ∧ m'.heap[ptr]? = some s := by
  have hfound : ∀ {s' : Session}, (m.sessions id).bind (m.heap[·]?) = some s' → m.sessions id = some ptr →
      s'.id = id ∧ m.heap[ptr]? = some s' := by
    intro s' hl hm
    refine ⟨(hG.lookup hl).1,?_⟩
    simpa [hm] using hl
  rcases hp with rfl | rfl | ⟨row,rfl⟩
  · simp only [SessionManager.advance,goto,reply] at h
    split at h <;> cases h
    rename_i s' hl
    cases hs
    exact hfound hl hptr
  · simp only [SessionManager.advance,goto,reply] at h
    split at h
    · cases h
      cases hs
    · cases h
      cases hs
    · split at h <;> cases h
      cases hs
  · simp only [SessionManager.advance,reply] at h
    split at h
    · rename_i s' hl
      cases h
      cases hs
      exact hfound hl hptr
    · cases h
      cases hs
      have hid : (rehydrate row).id = id := hT.1
      refine ⟨hid,?_⟩
      simp only [Manager.install,hid,Function.update_self,Option.some.injEq] at hptr
      rw [← hptr]
      simp [Manager.install]

theorem records_next {e : SessionManager.Env} {m m' : Manager} {p p' : Pc} (hp : Records p)
    (h : SessionManager.advance e m p = (m',.inl p')) : Records p' := by
  cases p with
  | recordLookup id count bytes =>
    simp only [SessionManager.advance,goto,reply] at h
    split at h <;> cases h
    trivial
  | recordAdd id q count bytes =>
    cases h
    trivial
  | recordAddBytes => cases h
  | _ => exact hp.elim

theorem Records.idle {p : Pc} (hp : Records p) (m : Manager) (rs : List Reply) :
    Local m rs p ∧ (∀ e t, p.clear e t) ∧ ∀ q, Apart p q := by
  cases p with
  | recordLookup | recordAdd | recordAddBytes =>
    exact ⟨trivial,fun _ _ => trivial,fun q id => ⟨False.elim,fun _ h => h⟩⟩
  | _ => exact hp.elim

/-- A stream keeps what it knows while the manager moves on and its session is not stopped. -/
theorem Fresh.stable {g g' : Engine} {q : Thread} {new : String → Prop} (h : Fresh g q)
    (hev : Evolves new g.mgr g'.mgr)
    (hrs : ∀ id, q.view.touches id → StoppedIn id g'.history → StoppedIn id g.history) : Fresh g' q := by
  cases q with
  | rpc p => trivial
  | opening id p => exact h
  | checking id ptr =>
    obtain ⟨s,hs,hact⟩ := h
    obtain ⟨s',hs',-,hstop⟩ := hev.heap ptr s hs
    refine ⟨s',hs',fun hactive hst => ?_⟩
    cases hstatus : s.status with
    | active => exact hact hstatus (hrs id rfl hst)
    | stopped =>
      rw [hstop hstatus] at hactive
      cases hactive
  | receiving id => exact fun hst => h (hrs id rfl hst)
  | inserting id b late => exact ⟨h.1,fun hst => h.2 (hrs id rfl hst)⟩
  | recording id b late p => exact ⟨h.1,fun hst => h.2.1 (hrs id rfl hst),h.2.2⟩
  | acking id b late => exact ⟨h.1,fun hst => h.2 (hrs id rfl hst)⟩

def Knows (q : Thread) (g : Engine) : Prop := Local g.mgr g.history q.view ∧ Fresh g q

def Sound (g : Engine) : Prop := Settled g.mgr g.history ∧ NoneLate g

section Step

variable {e : SessionManager.Env} {s : State} {m' : Manager} {p : Pc} {o : List Thread}

/-- What a step of a call of the manager leaves, with the streams among the other calls. -/
theorem move_keeps {p' : Pc} (hadv : SessionManager.advance e s.shared.mgr p = (m',.inl p'))
    (hclear : p.clear e (manager s)) (hmem : ∀ q ∈ o, q ∈ s.threads)
    (hG : Settled s.shared.mgr s.shared.history) (hT : Local s.shared.mgr s.shared.history p)
    (ho : ∀ q ∈ o, Knows q s.shared) (hC : ∀ q ∈ o, Apart p q.view) :
    Settled m' s.shared.history ∧ Local m' s.shared.history p' ∧
    (∀ q ∈ o, Knows q { s.shared with mgr := m' }) ∧ ∀ q ∈ o, Apart p' q.view := by
  have hev := advance_evolves hadv
  refine ⟨hG.stable hev fun id hi => (hT.installs hi).2,local_move (t := manager s) hadv hclear hG hT,
    fun q hq => ⟨?_,(ho q hq).2.stable hev fun _ _ h => h⟩,fun q hq => ?_⟩
  · exact (ho q hq).1.stable hev (fun id hi hs => (hC q hq id).2 hs (hT.installs hi).1) fun _ _ h => h
  · exact apart_move (t := manager s) hadv hclear (List.mem_map_of_mem (hmem q hq)) (hC q hq)

theorem reply_keeps {r : Reply} (hadv : SessionManager.advance e s.shared.mgr p = (m',.inr r))
    (hG : Settled s.shared.mgr s.shared.history) (hT : Local s.shared.mgr s.shared.history p)
    (ho : ∀ q ∈ o, Knows q s.shared) (hC : ∀ q ∈ o, Apart p q.view) :
    Settled m' (r :: s.shared.history) ∧ ∀ q ∈ o, Knows q (s.shared.reply m' r) := by
  have hev := advance_evolves hadv
  have hhonest := reply_honest hadv hG hT
  have hG' := hG.stable hev fun id hi => (hT.installs hi).2
  refine ⟨⟨hG'.pointed,fun id hid => ?_⟩,fun q hq => ?_⟩
  · rcases stoppedIn_cons.mp hid with hv | hid
    · exact reply_shut hadv hG hT hv
    · exact hG'.shut id hid
  · have hrs : ∀ id, q.view.touches id → StoppedIn id (r :: s.shared.history) → StoppedIn id s.shared.history := by
      intro id htc hid
      rcases stoppedIn_cons.mp hid with hv | hid
      · exact absurd htc ((hC q hq id).1 (hhonest.stops id hv))
      · exact hid
    exact ⟨(ho q hq).1.stable hev (fun id hi hs => (hC q hq id).2 hs (hT.installs hi).1) hrs,
      (ho q hq).2.stable hev hrs⟩

end Step

/-- What the log of accepted messages says does not matter to the calls in flight. -/
theorem Knows.relog {q : Thread} {g : Engine} (h : Knows q g) (hs : List (String × ℕ)) (as : List Ack) :
    Knows q { g with handshakes := hs, acked := as } :=
  ⟨h.1,h.2.stable (Evolves.refl (fun _ => False) _) fun _ _ h => h⟩

theorem opening_view {id : String} {p : Pc} (h : Gets id p) (q : Pc) (hpq : Apart p q) : Apart (.getLookup id) q := by
  intro id'
  refine ⟨False.elim,fun hstops htouches => (hpq id').2 hstops ?_⟩
  obtain rfl : id = id' := htouches
  rcases h with rfl | rfl | ⟨row,rfl⟩ <;> rfl

section Threads

variable {e : Env} {s : State} {g' : Engine} {th : Thread} {o : List Thread}

/-- The steps that leave a call or a stream in flight. -/
theorem thread_moves {th' : Thread} (hadv : advance e s.shared th = (g',.inl th'))
    (hclear : th.view.clear e.mgr (manager s)) (hmem : ∀ q ∈ o, q ∈ s.threads) (hG : Sound s.shared)
    (hT : Knows th s.shared) (ho : ∀ q ∈ o, Knows q s.shared) (hC : ∀ q ∈ o, Apart th.view q.view) :
    Sound g' ∧ Knows th' g' ∧ (∀ q ∈ o, Knows q g') ∧ ∀ q ∈ o, Apart th'.view q.view := by
  obtain ⟨hsettled,hlate⟩ := hG
  cases th with
  | rpc p =>
    cases ha : SessionManager.advance e.mgr s.shared.mgr p with
    | mk m' out =>
      cases out with
      | inr r => simp [advance,ha] at hadv
      | inl p' =>
        simp only [advance,ha,Prod.mk.injEq,Sum.inl.injEq] at hadv
        obtain ⟨rfl,rfl⟩ := hadv
        obtain ⟨hG',hT',ho',hC'⟩ := move_keeps ha hclear hmem hsettled hT.1 ho hC
        exact ⟨⟨hG',hlate⟩,⟨hT',trivial⟩,ho',hC'⟩
  | opening id p =>
    cases ha : SessionManager.advance e.mgr s.shared.mgr p with
    | mk m' out =>
      cases out with
      | inl p' =>
        simp only [advance,ha,Prod.mk.injEq,Sum.inl.injEq] at hadv
        obtain ⟨rfl,rfl⟩ := hadv
        obtain ⟨hG',hT',ho',hC'⟩ := move_keeps ha hclear hmem hsettled hT.1 ho hC
        exact ⟨⟨hG',hlate⟩,⟨hT',gets_next hT.2 ha⟩,ho',hC'⟩
      | inr r =>
        simp only [advance,ha,Prod.mk.injEq] at hadv
        obtain ⟨rfl,hnext⟩ := hadv
        obtain ⟨hG',ho'⟩ := reply_keeps ha hsettled hT.1 ho hC
        split at hnext
        · rename_i sess ptr hsess hptr
          cases hnext
          obtain ⟨rfl,hheap⟩ := gets_reply hT.2 ha hsettled hT.1 hsess hptr
          have hhonest := reply_honest ha hsettled hT.1
          refine ⟨⟨hG',hlate⟩,⟨trivial,sess,hheap,fun hact hst => ?_⟩,ho',fun q hq => opening_view hT.2 _ (hC q hq)⟩
          rcases stoppedIn_cons.mp hst with hv | hst
          · have hstops := hhonest.stops _ hv
            rcases hT.2 with rfl | rfl | ⟨row,rfl⟩ <;> exact hstops
          · exact hhonest.active _ hst (by simp [Reply.ReturnsActive,hsess,hact])
        · cases hnext
  | checking id ptr =>
    simp only [advance] at hadv
    split_ifs at hadv with hact <;> cases hadv
    obtain ⟨sess,hheap,hfresh⟩ := hT.2
    have hactive : sess.status = .active := by simpa [hheap] using hact.1
    exact ⟨⟨hsettled,hlate⟩,⟨trivial,hfresh hactive⟩,fun q hq => (ho q hq).relog _ _,hC⟩
  | receiving id =>
    have hnot : ¬ StoppedIn id s.shared.history := hT.2
    cases hmsg : e.received with
    | batch b =>
      simp only [advance,hmsg,Prod.mk.injEq,Sum.inl.injEq] at hadv
      obtain ⟨rfl,rfl⟩ := hadv
      exact ⟨⟨hsettled,hlate⟩,⟨trivial,by simp [hnot],hnot⟩,ho,hC⟩
    | flush =>
      simp only [advance,hmsg,Prod.mk.injEq,Sum.inl.injEq] at hadv
      obtain ⟨rfl,rfl⟩ := hadv
      exact ⟨⟨hsettled,hlate⟩,hT,ho,hC⟩
    | other | eof => simp [advance,hmsg] at hadv
  | inserting id b late =>
    simp only [advance] at hadv
    split_ifs at hadv <;> cases hadv
    exact ⟨⟨hsettled,hlate⟩,⟨trivial,hT.2.1,hT.2.2,trivial⟩,ho,hC⟩
  | recording id b late p =>
    obtain ⟨hlive,hnot,hrec⟩ := hT.2
    obtain ⟨hlocal,hfree,hapart⟩ := hrec.idle s.shared.mgr s.shared.history
    cases ha : SessionManager.advance e.mgr s.shared.mgr p with
    | mk m' out =>
      cases out with
      | inl p' =>
        simp only [advance,ha,Prod.mk.injEq,Sum.inl.injEq] at hadv
        obtain ⟨rfl,rfl⟩ := hadv
        obtain ⟨hG',-,ho',-⟩ := move_keeps ha (hfree _ _) hmem hsettled hlocal ho fun q _ => hapart q.view
        exact ⟨⟨hG',hlate⟩,⟨trivial,hlive,hnot,records_next hrec ha⟩,ho',hC⟩
      | inr r =>
        simp only [advance,ha,Prod.mk.injEq,Sum.inl.injEq] at hadv
        obtain ⟨rfl,rfl⟩ := hadv
        obtain ⟨hG',ho'⟩ := reply_keeps ha hsettled hlocal ho fun q _ => hapart q.view
        refine ⟨⟨hG',hlate⟩,⟨trivial,hlive,fun hst => ?_⟩,ho',hC⟩
        rcases stoppedIn_cons.mp hst with hv | hst
        · have hstops := (reply_honest ha hsettled hlocal).stops id hv
          cases p <;> first | exact hrec.elim | exact hstops
        · exact hnot hst
  | acking id b late =>
    simp only [advance] at hadv
    split_ifs at hadv <;> cases hadv
    refine ⟨⟨hsettled,fun a ha => ?_⟩,⟨trivial,hT.2.2⟩,fun q hq => (ho q hq).relog _ _,hC⟩
    rcases List.mem_cons.mp ha with rfl | ha
    · exact hT.2.1
    · exact hlate a ha

theorem thread_ends {u : Unit} (hadv : advance e s.shared th = (g',.inr u)) (hG : Sound s.shared)
    (hT : Knows th s.shared) (ho : ∀ q ∈ o, Knows q s.shared) (hC : ∀ q ∈ o, Apart th.view q.view) :
    Sound g' ∧ ∀ q ∈ o, Knows q g' := by
  obtain ⟨hsettled,hlate⟩ := hG
  cases th with
  | rpc p =>
    cases ha : SessionManager.advance e.mgr s.shared.mgr p with
    | mk m' out =>
      cases out with
      | inl p' => simp [advance,ha] at hadv
      | inr r =>
        simp only [advance,ha,Prod.mk.injEq] at hadv
        obtain ⟨rfl,-⟩ := hadv
        obtain ⟨hG',ho'⟩ := reply_keeps ha hsettled hT.1 ho hC
        exact ⟨⟨hG',hlate⟩,ho'⟩
  | opening id p =>
    cases ha : SessionManager.advance e.mgr s.shared.mgr p with
    | mk m' out =>
      cases out with
      | inl p' => simp [advance,ha] at hadv
      | inr r =>
        simp only [advance,ha,Prod.mk.injEq] at hadv
        obtain ⟨rfl,-⟩ := hadv
        obtain ⟨hG',ho'⟩ := reply_keeps ha hsettled hT.1 ho hC
        exact ⟨⟨hG',hlate⟩,ho'⟩
  | checking id ptr =>
    simp only [advance] at hadv
    split_ifs at hadv <;> cases hadv
    exact ⟨⟨hsettled,hlate⟩,ho⟩
  | receiving id =>
    cases hmsg : e.received <;> simp [advance,hmsg] at hadv
    all_goals
      subst hadv
      exact ⟨⟨hsettled,hlate⟩,ho⟩
  | inserting id b late | acking id b late =>
    simp only [advance] at hadv
    split_ifs at hadv <;> cases hadv
    exact ⟨⟨hsettled,hlate⟩,ho⟩
  | recording id b late p =>
    cases ha : SessionManager.advance e.mgr s.shared.mgr p with
    | mk m' out => cases out <;> simp [advance,ha] at hadv

end Threads

/-- No batch is acknowledged that was received after the stop of its session, in any quiet run. -/
theorem quiet_run_none_late {b : Backend} {as : List Action} {s : State} (hr : Run step Quiet (init b) as s) :
    NoneLate s.shared := by
  have hinit : Pool.Holds (fun g _ _ => Sound g) (fun th g _ => Knows th g)
      (fun th th' => Apart th.view th'.view) (init b) := by
    have hmgr := (holds_init b).shared.1
    refine ⟨⟨hmgr,?_⟩,?_,.nil⟩
    · intro a ha
      cases ha
    · intro th hth
      cases hth
  refine (Pool.run_holds (fun th th' h => apart_symm _ _ h) ?_ ?_ ?_ hr hinit).shared.2
  · intro s c hok hs
    have hview : ∀ q ∈ s.threads, q.view ∈ (manager s).threads := fun q hq => List.mem_map_of_mem hq
    cases c with
    | rpc c =>
      obtain ⟨hT,hC⟩ := invoke_holds (t := manager s) hok
      exact ⟨hs.shared,⟨hT,trivial⟩,fun q hq => hC _ (hview q hq)⟩
    | stream id =>
      obtain ⟨hT,hC⟩ := invoke_holds (t := manager s) (c := .get id) hok
      exact ⟨hs.shared,⟨hT,.inl rfl⟩,fun q hq => hC _ (hview q hq)⟩
  · intro s i e th o g' th' hok hth hperm hadv hG hT ho hC
    have hmem : ∀ q ∈ o, q ∈ s.threads := fun q hq => hperm.symm.subset (List.mem_cons_of_mem th hq)
    exact thread_moves hadv (hok th hth) hmem hG hT ho hC
  · intro s i e th o g' u hok hth hperm hadv hG hT ho hC
    exact thread_ends hadv hG hT ho hC

/-- A call and its first `n` steps, with `k` calls and streams in flight before it. -/
def call (k : ℕ) (c : Request) (n : ℕ) : List Action := .invoke c :: List.replicate n (.advance k {})

/-- The first stream in flight receives a batch and carries it to the acknowledgement. -/
def ingest (b : Batch) : List Action := .advance 0 { received := .batch b } :: List.replicate 5 (.advance 0 {})

/-- The session is stopped while its stream waits for the next batch, and the batch then arrives. -/
def lateRun : List Action :=
  call 0 (.rpc (.start ⟨"api",[],"sess_1"⟩)) 5 ++ call 0 (.stream "sess_1") 2 ++ call 1 (.rpc (.stop "sess_1")) 2 ++
    ingest ⟨1,2,100⟩

theorem late_batch_acked : ∃ s ∈ exec step (init .postgres) lateRun,
    s.shared.acked = [⟨"sess_1",⟨1,2,100⟩,true,0⟩] ∧ ¬ NoneLate s.shared := by
  decide +kernel

/-- A stream that ends before its session is stopped, beside a session that is swept. -/
def earlyRun : List Action :=
  call 0 (.rpc (.start ⟨"api",[],"sess_1"⟩)) 5 ++ call 0 (.stream "sess_1") 2 ++ ingest ⟨1,2,100⟩ ++
    (.advance 0 { received := .eof } : Action) :: call 0 (.rpc (.stop "sess_1")) 2 ++
    call 0 (.rpc (.start ⟨"web",[],"sess_2"⟩)) 5 ++
    ([.invoke (.rpc (.sweepIdle 300)),.advance 0 { mgr := { now := 400 } },.advance 0 {}] : List Action)

theorem quiet_run_none_late_earlyRun : ∃ s ∈ exec step (init .postgres) earlyRun,
    s.shared.acked = [⟨"sess_1",⟨1,2,100⟩,false,0⟩] ∧ StoppedIn "sess_1" s.shared.history ∧
      StoppedIn "sess_2" s.shared.history ∧ NoneLate s.shared := by
  obtain ⟨s,hs,hacked,h₁,h₂⟩ : ∃ s ∈ exec step (init .postgres) earlyRun,
      s.shared.acked = [⟨"sess_1",⟨1,2,100⟩,false,0⟩] ∧ StoppedIn "sess_1" s.shared.history ∧
        StoppedIn "sess_2" s.shared.history := by decide +kernel
  have hrun : Run step Quiet (init .postgres) earlyRun s := Run.of_exec (by decide +kernel) (Option.mem_def.mp hs)
  exact ⟨s,hs,hacked,h₁,h₂,quiet_run_none_late hrun⟩

end StreamIngest
end Clearvoiance
