import Clearvoiance.Client

/-! Remote commands in the SDK: once no handler runs, the open session should be what the
delivered commands say, with one open stream shaken for it.  The handlers are not queued, so a
command that arrives inside an earlier handler reads a session that is about to change.  When
commands wait for each other, and nothing is sent while a session closes, the two agree. -/
namespace Clearvoiance
namespace Client

open Wal Transition

def follow (current : Option String) : Cmd → Option String
  | .start sid => some sid
  | .stop sid => if current = some sid then none else current
  | .ping => current

/-- The session the commands delivered so far ask for. -/
def Log.wanted (l : Log) : Option String := l.commands.foldl follow none

def Pc.handles : Pc → Bool
  | .startSession _ | .openStream _ _ | .flush _ _ | .stopSession _ _ | .closed _ => true
  | .mkdir _ (.opening _) | .inited _ (.opening _) => true
  | .readdir _ (.init (.opening _)) | .readFile _ (.init (.opening _)) _ _ _
  | .listed _ (.init (.opening _)) _ => true
  | _ => false

def NoHandler (t : State) : Prop := ∀ x ∈ t.tasks, x.pc.handles = false

instance : DecidablePred NoHandler := fun t =>
  inferInstanceAs (Decidable (∀ x ∈ t.tasks, x.pc.handles = false))

def Silent (s : World) : Prop := ∀ st ∈ s.streams, st.status ≠ .live

/-- Stream `k` is open for the session, and no other stream is. -/
def Sole (s : World) (k : ℕ) (sid : String) (shaken : Bool) : Prop :=
  (∃ st, s.streams[k]? = some st ∧ st.sessionId = sid ∧ st.status = .live ∧ (shaken = true → st.acked = true)) ∧
  ∀ (j : ℕ) st, s.streams[j]? = some st → st.status = .live → j = k

/-- With all handlers finished, the session is the wanted one, with exactly one open stream,
shaken for it, if there is one and no open stream otherwise. -/
def Agrees (t : State) : Prop := NoHandler t →
  t.world.mem.session = t.world.log.wanted ∧
  match t.world.mem.session with
  | some sid => ∃ k, Sole t.world k sid true
  | none => Silent t.world

def Pc.succeeds : Pc → Outcome → Bool
  | .startSession (some sid),o => o = .session sid
  | .startSession none,_ => false
  | .mkdir _ _,o | .openStream _ _,o | .sendBatch _ _,o | .stopSession _ _,o => o = .done
  | .readdir _ _,.names _ => true
  | .readdir _ _,_ => false
  | .readFile _ _ _ _ _,.content _ => true
  | .readFile _ _ _ _ _,_ => false
  | _,_ => true

def Pc.isRpc : Pc → Bool
  | .startSession _ | .stopSession _ _ => true
  | _ => false

def Succeeds (t : State) (i : ℕ) (r : Reply) (rpc : Bool) : Prop :=
  ∀ x ∈ t.tasks[i]?, x.pc.isRpc = rpc → ∀ n ∈ settle t.world r x.pc, x.pc.succeeds n.2 = true

instance (t : State) (i : ℕ) (r : Reply) (rpc : Bool) : Decidable (Succeeds t i r rpc) :=
  inferInstanceAs (Decidable (∀ x ∈ t.tasks[i]?, x.pc.isRpc = rpc → ∀ n ∈ settle t.world r x.pc, _))

/-- Every RPC succeeds, and the client is neither stopped nor restarted. -/
def Smooth (t : State) : Action → Prop
  | .settle i r => Succeeds t i r true
  | .call .stop | .streamError _ _ | .crash => False
  | _ => True

/-- A command arrives when no handler runs, `sendBatch` is not called while a session closes,
and the file system does not fail. -/
def Orderly (t : State) : Action → Prop
  | .command _ => NoHandler t
  | .call (.sendBatch _) => t.world.mem.session.isSome = true → t.world.mem.streamHealthy = true
  | .settle i r => Succeeds t i r false
  | _ => True

instance (t : State) : DecidablePred (Smooth t)
  | .settle i r => inferInstanceAs (Decidable (Succeeds t i r true))
  | .call .stop | .streamError _ _ | .crash => .isFalse id
  | .call .start | .call (.sendBatch _) | .call .track | .call .untrack | .command _ | .resume _ | .timer
  | .engine _ | .deliver _ => .isTrue trivial

instance (t : State) : DecidablePred (Orderly t)
  | .command _ => inferInstanceAs (Decidable (NoHandler t))
  | .call (.sendBatch _) => inferInstanceAs (Decidable (_ → _ = true))
  | .settle i r => inferInstanceAs (Decidable (Succeeds t i r false))
  | .call .stop | .streamError _ _ | .crash | .call .start | .call .track | .call .untrack | .resume _ | .timer
  | .engine _ | .deliver _ => .isTrue trivial

def Closing.target : Closing → Option String
  | .startCapture sid => some sid
  | .stopCapture | .stop => none

def Capturing (s : World) (sid : String) : Prop :=
  s.mem.session = some sid ∧ s.mem.streamHealthy = true ∧ ∃ k, s.mem.stream = some k ∧ Sole s k sid true

def Resting (s : World) : Prop := s.mem.session = none ∧ Silent s

/-- What holds while the handler of the last command stands at an await. -/
def Task.Stage (s : World) (x : Task) : Prop :=
  (∀ out ∈ x.outcome, x.pc.succeeds out = true) ∧ match x.pc with
  | .startSession p => s.log.wanted = p ∧ Resting s
  | .mkdir _ (.opening sid) | .inited _ (.opening sid) => s.log.wanted = some sid ∧ Resting s
  | .readdir _ (.init (.opening sid)) | .readFile _ (.init (.opening sid)) _ _ _
  | .listed _ (.init (.opening sid)) _ => s.log.wanted = some sid ∧ Resting s
  | .openStream sid k => s.log.wanted = some sid ∧ s.mem.session = none ∧ s.mem.stream = some k ∧
      Sole s k sid x.outcome.isSome
  | .flush sid c => s.log.wanted = c.target ∧ Capturing s sid
  | .stopSession _ c => s.log.wanted = c.target ∧ s.mem.streamHealthy = false ∧ Silent s
  | .closed c => s.log.wanted = c.target ∧ Resting s
  | _ => False

def Settled (s : World) : Prop :=
  match s.log.wanted with
  | some sid => Capturing s sid
  | none => Resting s

def Sends (o : List Task) : Prop := ∀ x ∈ o, x.pc.isSend = true ∧ ∀ out ∈ x.outcome, out = .done

/-- At most one handler is under way, and the sends. -/
def Synced (s : World) (tasks : List Task) : Prop :=
  s.mem.reconnectTimer = none ∧
    (Sends tasks ∧ Settled s ∨ ∃ x o, tasks.Perm (x :: o) ∧ Sends o ∧ x.Stage s)

structure SameView (s s' : World) : Prop where
  session : s'.mem.session = s.mem.session
  stream : s'.mem.stream = s.mem.stream
  healthy : s'.mem.streamHealthy = s.mem.streamHealthy
  timer : s'.mem.reconnectTimer = s.mem.reconnectTimer
  wanted : s'.log.wanted = s.log.wanted
  streams : List.Forall₂ Keeps s.streams s'.streams

namespace SameView

variable {s s' : World}

theorem silent (h : SameView s s') (hs : Silent s) : Silent s' := by
  intro st' hst'
  obtain ⟨j,hj⟩ := List.mem_iff_getElem?.mp hst'
  obtain ⟨st,hst,hkeep⟩ := keeps_getElem_back h.streams hj
  rw [hkeep.2.1]
  exact hs st (List.mem_of_getElem? hst)

theorem sole (h : SameView s s') {k : ℕ} {sid : String} {b : Bool} (hs : Sole s k sid b) : Sole s' k sid b := by
  obtain ⟨⟨st,hst,hsid,hlive,hack⟩,honly⟩ := hs
  constructor
  · obtain ⟨st',hst',hkeep⟩ := keeps_getElem h.streams hst
    exact ⟨st',hst',hkeep.1.trans hsid,hkeep.2.1.trans hlive,fun hb => hkeep.2.2 (hack hb)⟩
  · intro j st' hj hlive'
    obtain ⟨st₀,hst₀,hkeep⟩ := keeps_getElem_back h.streams hj
    exact honly j st₀ hst₀ (hkeep.2.1 ▸ hlive')

theorem capturing (h : SameView s s') {sid : String} (hs : Capturing s sid) : Capturing s' sid := by
  obtain ⟨h1,h2,k,h3,h4⟩ := hs
  exact ⟨h.session.trans h1,h.healthy.trans h2,k,h.stream.trans h3,h.sole h4⟩

theorem resting (h : SameView s s') (hs : Resting s) : Resting s' := ⟨h.session.trans hs.1,h.silent hs.2⟩

theorem settled (h : SameView s s') (hs : Settled s) : Settled s' := by
  unfold Settled at hs ⊢
  rw [h.wanted]
  split at hs
  · exact h.capturing hs
  · exact h.resting hs

theorem stage (h : SameView s s') {x : Task} (hx : x.Stage s) : x.Stage s' := by
  obtain ⟨hout,hx⟩ := hx
  refine ⟨hout,?_⟩
  rw [h.wanted]
  split at hx
  all_goals first
    | exact ⟨hx.1,h.resting hx.2⟩
    | exact ⟨hx.1,h.session.trans hx.2.1,h.stream.trans hx.2.2.1,h.sole hx.2.2.2⟩
    | exact ⟨hx.1,h.capturing hx.2⟩
    | exact ⟨hx.1,h.healthy.trans hx.2.1,h.silent hx.2.2⟩
    | exact hx.elim

theorem synced (h : SameView s s') {tasks : List Task} (hs : Synced s tasks) : Synced s' tasks := by
  refine ⟨h.timer.trans hs.1,?_⟩
  rcases hs.2 with ⟨hsend,hset⟩ | ⟨x,o,hp,hsend,hx⟩
  · exact .inl ⟨hsend,h.settled hset⟩
  · exact .inr ⟨x,o,hp,hsend,h.stage hx⟩

end SameView

theorem sends_perm {o o' : List Task} (hp : o.Perm o') (h : Sends o) : Sends o' :=
  fun x hx => h x (hp.mem_iff.mpr hx)

theorem Synced.perm {s : World} {l l' : List Task} (h : Synced s l) (hp : l.Perm l') : Synced s l' := by
  refine ⟨h.1,?_⟩
  rcases h.2 with ⟨hsend,hset⟩ | ⟨x,o,hp',hsend,hx⟩
  · exact .inl ⟨sends_perm hp hsend,hset⟩
  · exact .inr ⟨x,o,hp.symm.trans hp',hsend,hx⟩

/-- Either task `t` is the handler and the others are sends, or it is a send and the others
are as before. -/
theorem Synced.split {s : World} {t : Task} {o : List Task} (h : Synced s (t :: o)) :
    (t.Stage s ∧ Sends o) ∨ (t.pc.isSend = true ∧ (∀ out ∈ t.outcome, out = .done) ∧ Synced s o) := by
  rcases h.2 with ⟨hsend,hset⟩ | ⟨x,o',hp,hsend,hx⟩
  · right
    have ht := hsend t (List.mem_cons_self ..)
    exact ⟨ht.1,ht.2,h.1,.inl ⟨fun y hy => hsend y (List.mem_cons_of_mem t hy),hset⟩⟩
  · by_cases htx : t = x
    · subst htx
      exact .inl ⟨hx,sends_perm (hp.cons_inv).symm hsend⟩
    · right
      have ht : t ∈ o' := (List.mem_cons.mp (hp.subset (List.mem_cons_self ..))).resolve_left htx
      have hsplit : o'.Perm (t :: o'.erase t) := List.perm_cons_erase ht
      have hrest : o.Perm (x :: o'.erase t) :=
        (hp.trans ((hsplit.cons x).trans (List.Perm.swap t x _))).cons_inv
      refine ⟨(hsend t ht).1,(hsend t ht).2,h.1,.inr ⟨x,o'.erase t,hrest,fun y hy => ?_,hx⟩⟩
      exact hsend y (List.mem_of_mem_erase hy)

theorem Synced.cons_send {s : World} {t : Task} {o : List Task} (h : Synced s o) (ht : t.pc.isSend = true)
    (hout : ∀ out ∈ t.outcome, out = .done) : Synced s (t :: o) := by
  refine ⟨h.1,?_⟩
  have hcons : ∀ {o : List Task}, Sends o → Sends (t :: o) := by
    intro o ho x hx
    rcases List.mem_cons.mp hx with rfl | hx
    · exact ⟨ht,hout⟩
    · exact ho x hx
  rcases h.2 with ⟨hsend,hset⟩ | ⟨x,o',hp,hsend,hx⟩
  · exact .inl ⟨hcons hsend,hset⟩
  · exact .inr ⟨x,t :: o',(hp.cons t).trans (List.Perm.swap x t _),hcons hsend,hx⟩

/-- What the handler's function leaves: nothing more to do, or the next await. -/
def Arrives (n : Next) : Prop :=
  n.1.mem.reconnectTimer = none ∧ match n.2 with
  | none => Settled n.1
  | some y => y.Stage n.1

theorem Arrives.synced {n : Next} {o : List Task} (h : Arrives n) (ho : Sends o) : Synced n.1 (n.2.toList ++ o) := by
  obtain ⟨s,y⟩ := n
  refine ⟨h.1,?_⟩
  cases y with
  | none => exact .inl ⟨ho,h.2⟩
  | some y => exact .inr ⟨y,o,List.Perm.refl _,ho,h.2⟩

theorem sole_openStream {s : World} (hs : Silent s) (sid : String) (mem : Memory) :
    Sole ⟨mem,s.disk,s.streams ++ [⟨sid,[.handshake],[],.live,false⟩],s.log⟩ s.streams.length sid false := by
  constructor
  · exact ⟨_,List.getElem?_concat_length,rfl,rfl,by simp⟩
  · intro j st hj hlive
    rcases lt_trichotomy j s.streams.length with h | h | h
    · rw [List.getElem?_append_left h] at hj
      exact absurd hlive (hs st (List.mem_of_getElem? hj))
    · exact h
    · rw [List.getElem?_eq_none (by simp; omega)] at hj
      cases hj

theorem arrives_openStream {s : World} {sid : String} (ht : s.mem.reconnectTimer = none)
    (hw : s.log.wanted = some sid) (hr : Resting s) : Arrives (s.openStream sid (.openStream sid)) :=
  ⟨ht,by simp,hw,hr.1,rfl,sole_openStream hr.2 sid _⟩

theorem arrives_initWal {s : World} {sid : String} {w : WAL} (ht : s.mem.reconnectTimer = none)
    (hw : s.log.wanted = some sid) (hr : Resting s) : Arrives (s.initWal w (.opening sid)) := by
  unfold World.initWal
  split
  · exact ⟨ht,by simp [Pc.succeeds],hw,hr⟩
  · exact ⟨ht,by simp,hw,hr⟩

theorem arrives_readNext {s : World} {sid : String} {w : WAL} {out : List WALEntry} {ns : List (FileName × ℕ)}
    (ht : s.mem.reconnectTimer = none) (hw : s.log.wanted = some sid) (hr : Resting s) :
    Arrives (readNext s w (.init (.opening sid)) out ns) := by
  cases ns with
  | nil => exact ⟨ht,by simp [Pc.succeeds],hw,hr⟩
  | cons n rest => exact ⟨ht,by simp,hw,hr⟩

theorem silent_endStream {s : World} {k : ℕ} {sid : String} {b : Bool} (hk : s.mem.stream = some k)
    (hs : Sole s k sid b) : Silent s.endStream := by
  intro st hst
  obtain ⟨j,hj⟩ := List.mem_iff_getElem?.mp hst
  simp only [World.endStream,hk,List.getElem?_modify] at hj
  cases hsj : s.streams[j]? with
  | none => simp [hsj] at hj
  | some st' =>
    simp only [hsj,Option.map_eq_map,Option.map_some,Option.some.injEq] at hj
    by_cases hkj : k = j
    · by_cases hl : st'.status = .live
      · simp [← hj,hkj,hl]
      · simp [← hj,hkj,hl]
    · simp only [hkj,if_false] at hj
      intro hlive
      exact hkj (hs.2 j st' hsj (hj ▸ hlive)).symm

theorem arrives_endStream {s : World} {sid cur : String} {c : Closing} (ht : s.mem.reconnectTimer = none)
    (hw : s.log.wanted = c.target) (hc : Capturing s cur) : Arrives (await s.endStream (.stopSession sid c)) := by
  obtain ⟨-,-,k,hk,hs⟩ := hc
  exact ⟨ht,by simp,hw,rfl,silent_endStream hk hs⟩

theorem arrives_closeSession {s : World} {cur : String} {c : Closing} (inflight : Bool)
    (ht : s.mem.reconnectTimer = none) (hw : s.log.wanted = c.target) (hc : Capturing s cur) :
    Arrives (s.closeSession inflight cur c) := by
  unfold World.closeSession
  split
  · exact ⟨ht,by simp,hw,hc⟩
  · exact arrives_endStream ht hw hc

theorem resume_arrives {cfg : Config} (hremote : cfg.remote = true) {s : World} {pc : Pc} {out : Outcome}
    (ht : s.mem.reconnectTimer = none) (hx : Task.Stage s ⟨pc,some out⟩) : Arrives (resume cfg s pc out) := by
  obtain ⟨hout,hx⟩ := hx
  have hout := hout out rfl
  cases pc with
  | startSession p =>
    cases p with
    | none => simp [Pc.succeeds] at hout
    | some sid =>
      obtain rfl : out = .session sid := by simpa [Pc.succeeds] using hout
      simp only [resume]
      split
      · exact arrives_openStream ht hx.1 hx.2
      · exact arrives_initWal ht hx.1 hx.2
  | mkdir w k =>
    cases k with
    | appending m => exact hx.elim
    | opening sid =>
      obtain rfl : out = .done := by simpa [Pc.succeeds] using hout
      exact ⟨ht,by simp,hx⟩
  | readdir w l =>
    cases l with
    | drain => exact hx.elim
    | init k =>
      cases k with
      | appending m => exact hx.elim
      | opening sid =>
        cases out <;> simp [Pc.succeeds] at hout
        exact arrives_readNext ht hx.1 hx.2
  | readFile w l acc n rest =>
    cases l with
    | drain => exact hx.elim
    | init k =>
      cases k with
      | appending m => exact hx.elim
      | opening sid =>
        cases out <;> simp [Pc.succeeds] at hout
        exact arrives_readNext ht hx.1 hx.2
  | listed w l acc =>
    cases l with
    | drain => exact hx.elim
    | init k =>
      cases k with
      | appending m => exact hx.elim
      | opening sid => exact ⟨ht,by simp [Pc.succeeds],hx⟩
  | inited w k =>
    cases k with
    | appending m => exact hx.elim
    | opening sid => exact arrives_openStream ht hx.1 hx.2
  | openStream sid k =>
    obtain rfl : out = .done := by simpa [Pc.succeeds] using hout
    obtain ⟨hw,-,hk,hs⟩ := hx
    refine ⟨ht,?_⟩
    have hcap : Capturing { s with mem := { s.mem with session := some sid, streamHealthy := true } } sid :=
      ⟨rfl,rfl,k,hk,hs⟩
    simpa only [resume,finish,Settled,hw] using hcap
  | flush sid c => exact arrives_endStream ht hx.1 hx.2
  | stopSession sid c =>
    simp only [resume,hremote,Bool.or_true,if_true]
    exact ⟨ht,by simp [Pc.succeeds],hx.1,rfl,hx.2.2⟩
  | closed c =>
    cases c with
    | startCapture sid => exact ⟨ht,by simp,hx⟩
    | stopCapture | stop =>
      refine ⟨ht,?_⟩
      have hrest : Resting s := hx.2
      simpa only [resume,finish,Settled,hx.1,Closing.target] using hrest
  | _ => exact hx.elim

theorem handle_arrives {s : World} (inflight : Bool) (cmd : Cmd) (ht : s.mem.reconnectTimer = none) (hs : Settled s) :
    Arrives (handleSubscribeResponse { s with log := { s.log with commands := s.log.commands ++ [cmd] } }
      inflight cmd) := by
  have hwanted : Log.wanted { s.log with commands := s.log.commands ++ [cmd] } = follow s.log.wanted cmd := by
    simp [Log.wanted]
  have hmem : s.mem.session = s.log.wanted ∧ ∀ cur, s.mem.session = some cur → Capturing s cur := by
    unfold Settled at hs
    split at hs
    · rename_i hw
      refine ⟨hs.1.trans hw.symm,fun cur hcur => ?_⟩
      rw [hs.1] at hcur
      cases hcur
      exact hs
    · rename_i hw
      exact ⟨hs.1.trans hw.symm,fun cur hcur => by simp [hs.1] at hcur⟩
  have hback : ∀ {w : Option String}, Settled s → s.log.wanted = w →
      Log.wanted { s.log with commands := s.log.commands ++ [cmd] } = w →
      Settled { s with log := { s.log with commands := s.log.commands ++ [cmd] } } := by
    intro w hs hw hw'
    unfold Settled at hs ⊢
    dsimp only
    rw [hw] at hs
    rw [hw']
    cases w with
    | none => exact hs
    | some sid => exact hs
  cases cmd with
  | start sid =>
    simp only [handleSubscribeResponse]
    split
    · rename_i hnone
      have hrest : Resting s := by
        unfold Settled at hs
        rw [← hmem.1,hnone] at hs
        exact hs
      exact ⟨ht,by simp,hwanted,hrest⟩
    · rename_i cur hcur
      split
      · rename_i heq
        subst heq
        exact ⟨ht,hback hs (hmem.1 ▸ hcur) (by simp [hwanted,follow])⟩
      · exact arrives_closeSession inflight ht (by simp [hwanted,follow,Closing.target]) (hmem.2 cur hcur)
  | stop sid =>
    simp only [handleSubscribeResponse]
    split
    · rename_i hnone
      have hw : s.log.wanted = none := hmem.1 ▸ hnone
      exact ⟨ht,hback hs hw (by simp [hwanted,follow,hw])⟩
    · rename_i cur hcur
      have hw : s.log.wanted = some cur := hmem.1 ▸ hcur
      split
      · rename_i heq
        subst heq
        exact arrives_closeSession inflight ht (by simp [hwanted,follow,hw,Closing.target]) (hmem.2 cur hcur)
      · rename_i hne
        exact ⟨ht,hback hs hw (by simp [hwanted,follow,hw,hne])⟩
  | ping => exact ⟨ht,hback hs rfl (by simp [hwanted,follow])⟩

/-- While a session is open on a healthy stream there is a stream to send on. -/
theorem Synced.stream {s : World} {tasks : List Task} (h : Synced s tasks) (hs : s.mem.session.isSome = true)
    (hh : s.mem.streamHealthy = true) : ∃ k, s.mem.stream = some k := by
  have hrest : ¬ Resting s := fun hr => by simp [hr.1] at hs
  have hcap : ∀ {sid}, Capturing s sid → ∃ k, s.mem.stream = some k := fun hc => by
    obtain ⟨-,-,k,hk,-⟩ := hc
    exact ⟨k,hk⟩
  rcases h.2 with ⟨-,hset⟩ | ⟨x,o,-,-,-,hx⟩
  · unfold Settled at hset
    split at hset
    · exact hcap hset
    · exact absurd hset hrest
  · split at hx
    all_goals first
      | exact absurd hx.2 hrest
      | exact ⟨_,hx.2.2.1⟩
      | exact hcap hx.2
      | exact absurd hx.2.1 (by simp [hh])
      | exact hx.elim

theorem sendBatch_synced {s : World} {o : List Task} (h : Synced s o) (b : Batch)
    (hh : s.mem.session.isSome = true → s.mem.streamHealthy = true) :
    Synced (sendBatch s b).1 ((sendBatch s b).2.toList ++ o) := by
  unfold sendBatch
  split
  · exact h
  · rename_i hs
    have hs : s.mem.session.isSome = true := by simpa [Option.isSome_iff_ne_none] using hs
    have hview : ∀ k m, SameView s (World.sendOverStream { s with mem := { s.mem with
        nextBatchId := s.mem.nextBatchId+1 } } k m) := by
      intro k m
      refine ⟨rfl,rfl,rfl,rfl,rfl,keeps_modify fun st => ?_⟩
      unfold Stream.write
      split <;> exact ⟨rfl,rfl,id⟩
    dsimp only
    split
    · exact ((hview _ _).synced h).cons_send rfl (by simp)
    · rename_i hno
      obtain ⟨k,hk⟩ := h.stream hs (hh hs)
      exact absurd hk (hno k (hh hs))

theorem engine_view {s s' : World} {k : ℕ} (h : s.engine k = some s') : SameView s s' := by
  unfold World.engine at h
  split at h
  · rename_i st hst
    split at h
    · cases h
    · cases h
      exact ⟨rfl,rfl,rfl,rfl,rfl,keeps_set hst ⟨rfl,rfl,id⟩⟩
    · cases h
      exact ⟨rfl,rfl,rfl,rfl,rfl,keeps_set hst ⟨rfl,rfl,id⟩⟩
  · cases h

theorem hear_send (k : ℕ) (r : Response) {o : List Task} (h : Sends o) : Sends (o.map (.hear k r)) := by
  intro y hy
  obtain ⟨x,hx,rfl⟩ := List.mem_map.mp hy
  obtain ⟨hs,hout⟩ := h x hx
  unfold Task.hear
  split
  · exact ⟨hs,hout⟩
  · split
    all_goals first
      | split
        · exact ⟨hs,by simp⟩
        · exact ⟨hs,hout⟩
      | exact ⟨hs,hout⟩

/-- The ack of the handshake marks the stream and settles its handler together. -/
theorem deliver_synced {s : World} {o : List Task} {k : ℕ} {r : Response} {sid : String} {up : List Request}
    {down : List Response} {status : Status} {acked : Bool} (h : Synced s o)
    (hst : s.streams[k]? = some ⟨sid,up,r :: down,status,acked⟩) :
    Synced (World.hear { s with streams := s.streams.set k ⟨sid,up,down,status,acked⟩ } k o r)
      (o.map (.hear k r)) := by
  have hk : k < s.streams.length := (List.getElem?_eq_some_iff.mp hst).1
  have hview : SameView s (World.hear { s with streams := s.streams.set k ⟨sid,up,down,status,acked⟩ } k o r) := by
    have hset : List.Forall₂ Keeps s.streams (s.streams.set k ⟨sid,up,down,status,acked⟩) :=
      keeps_set hst ⟨rfl,rfl,id⟩
    cases r with
    | ack => exact ⟨rfl,rfl,rfl,rfl,rfl,keeps_trans hset (keeps_modify fun st => ⟨rfl,rfl,fun _ => rfl⟩)⟩
    | batchAck m => exact ⟨rfl,rfl,rfl,rfl,rfl,hset⟩
  refine ⟨hview.timer.trans h.1,?_⟩
  rcases h.2 with ⟨hsend,hset⟩ | ⟨x,o',hp,hsend,hx⟩
  · exact .inl ⟨hear_send k r hsend,hview.settled hset⟩
  · refine .inr ⟨x.hear k r,o'.map (.hear k r),hp.map _,hear_send k r hsend,?_⟩
    obtain ⟨hout,hstage⟩ := hview.stage hx
    obtain ⟨pc,out⟩ := x
    rcases hear_cases k r ⟨pc,out⟩ with he | ⟨rfl,he,hw⟩
    · rw [he]
      exact ⟨hout,hstage⟩
    rw [he]
    cases pc with
    | openStream sid' k' =>
      have hkk : k' = k := by simpa [Pc.shakes,Pc.waits] using hw
      subst hkk
      have hr : r = .ack := by
        cases r with
        | ack => rfl
        | batchAck m => simp [Task.hear,Pc.waits] at he
      subst hr
      obtain ⟨hwant,hses,hstr,⟨st,hst',hsid,hlive,-⟩,honly⟩ := hstage
      refine ⟨by simp [Pc.succeeds],hwant,hses,hstr,⟨st,hst',hsid,hlive,fun _ => ?_⟩,honly⟩
      simp only [World.hear,List.getElem?_modify,List.getElem?_set_self hk,Option.map_eq_map,Option.map_some,
        if_true,Option.some.injEq] at hst'
      rw [← hst']
    | tryReconnect k' => exact hstage.elim
    | sendBatch m k' => exact hstage.elim
    | drainSend e rest k' => exact hstage.elim
    | _ => simp [Pc.shakes,Pc.waits] at hw

theorem settle_send {s : World} {r : Reply} {pc : Pc} (h : pc.isSend = true) : settle s r pc = none := by
  cases pc <;> simp [Pc.isSend] at h
  rfl

theorem settle_stage {s s' : World} {r : Reply} {pc : Pc} {out : Outcome} (hx : Task.Stage s ⟨pc,none⟩)
    (hs : settle s r pc = some (s',out)) (hout : pc.succeeds out = true) :
    s' = s ∧ Task.Stage s ⟨pc,some out⟩ := by
  have hsame : s' = s := by
    cases pc <;> simp only [settle] at hs
    case writeFile => exact hx.2.elim
    case rename => exact hx.2.elim
    case unlink => exact hx.2.elim
    case readFile =>
      split at hs <;> cases hs <;> rfl
    all_goals first
      | cases hs; rfl
      | split at hs <;> cases hs <;> rfl
      | simp at hs
  refine ⟨hsame,fun o ho => by cases ho; exact hout,?_⟩
  have hstage := hx.2
  cases pc with
  | openStream sid k => simp [settle] at hs
  | mkdir w k | inited w k => cases k <;> exact hstage
  | readdir w l | readFile w l _ _ _ | listed w l _ =>
    cases l with
    | drain => exact hstage
    | init k => cases k <;> exact hstage
  | _ => exact hstage

theorem settle_synced {s s' : World} {r : Reply} {pc : Pc} {out : Outcome} {o : List Task}
    (h : Synced s (⟨pc,none⟩ :: o)) (hs : settle s r pc = some (s',out)) (hout : pc.succeeds out = true) :
    Synced s' (⟨pc,some out⟩ :: o) := by
  rcases h.split with ⟨hx,ho⟩ | ⟨hsend,-,-⟩
  · obtain ⟨rfl,hx'⟩ := settle_stage hx hs hout
    exact ⟨h.1,.inr ⟨_,o,List.Perm.refl _,ho,hx'⟩⟩
  · simp [settle_send hsend] at hs

theorem resume_synced {cfg : Config} (hremote : cfg.remote = true) {s : World} {pc : Pc} {out : Outcome} {o : List Task}
    (h : Synced s (⟨pc,some out⟩ :: o)) : Synced (resume cfg s pc out).1 ((resume cfg s pc out).2.toList ++ o) := by
  rcases h.split with ⟨hx,ho⟩ | ⟨hsend,hdone,ho⟩
  · exact (resume_arrives hremote h.1 hx).synced ho
  · cases pc <;> simp [Pc.isSend] at hsend
    obtain rfl := hdone out rfl
    have hview : ∀ m, SameView s (s.resolve m) := fun m => ⟨rfl,rfl,rfl,rfl,rfl,keeps_refl _⟩
    exact (hview _).synced ho

/-- A task that is not a handler of a synced state is a send. -/
theorem Synced.settled {s : World} {tasks : List Task} (h : Synced s tasks) (hn : ∀ x ∈ tasks, x.pc.handles = false) :
    Sends tasks ∧ Settled s := by
  rcases h.2 with hset | ⟨x,o,hp,-,-,hx⟩
  · exact hset
  · have hno := hn x (hp.symm.subset (List.mem_cons_self ..))
    obtain ⟨pc,out⟩ := x
    cases pc with
    | mkdir w k | inited w k => cases k <;> simp_all [Pc.handles]
    | readdir w l | readFile w l _ _ _ | listed w l _ =>
      cases l with
      | drain => exact hx.elim
      | init k => cases k <;> simp_all [Pc.handles]
    | _ => first | exact hx.elim | simp [Pc.handles] at hno

theorem step_synced {cfg : Config} (hremote : cfg.remote = true) {t t' : State} {a : Action}
    (h : Synced t.world t.tasks) (hsm : Smooth t a) (hor : Orderly t a) (hs : step cfg t a = some t') :
    Synced t'.world t'.tasks := by
  cases a with
  | call c =>
    cases hs
    cases c with
    | start =>
      simp only [State.call,hremote,if_true]
      split
      · exact h
      · have hview : SameView t.world { t.world with mem := { t.world.mem with controlStream := true } } :=
          ⟨rfl,rfl,rfl,rfl,rfl,keeps_refl _⟩
        exact hview.synced h
    | stop => exact hsm.elim
    | sendBatch b => exact (sendBatch_synced h b hor).perm List.perm_append_comm
    | track =>
      have hview : SameView t.world { t.world with mem := { t.world.mem with tracked := t.world.mem.tracked+1 } } :=
        ⟨rfl,rfl,rfl,rfl,rfl,keeps_refl _⟩
      exact hview.synced h
    | untrack =>
      have hview : SameView t.world { t.world with mem := { t.world.mem with tracked := t.world.mem.tracked-1 } } :=
        ⟨rfl,rfl,rfl,rfl,rfl,keeps_refl _⟩
      exact hview.synced h
  | command cmd =>
    simp only [step] at hs
    split at hs
    · cases hs
      obtain ⟨hsend,hset⟩ := h.settled hor
      exact ((handle_arrives t.inflight cmd h.1 hset).synced hsend).perm List.perm_append_comm
    · cases hs
  | settle i r =>
    simp only [step] at hs
    split at hs
    · rename_i pc _ hi
      obtain ⟨n,hn,rfl⟩ := Option.map_eq_some_iff.mp hs
      have hlt : i < t.tasks.length := (List.getElem?_eq_some_iff.mp hi).1
      have hperm : t.tasks.Perm (⟨pc,none⟩ :: (t.tasks.take i ++ t.tasks.drop (i+1))) := by
        conv_lhs => rw [split_at hi]
        exact List.perm_middle
      have hset : (t.tasks.set i ⟨pc,some n.2⟩).Perm (⟨pc,some n.2⟩ :: (t.tasks.take i ++ t.tasks.drop (i+1))) := by
        rw [List.set_eq_take_append_cons_drop,if_pos hlt]
        exact List.perm_middle
      have hok : pc.succeeds n.2 = true := by
        cases hrpc : pc.isRpc with
        | true => exact hsm _ hi hrpc n hn
        | false => exact hor _ hi hrpc n hn
      exact (settle_synced (h.perm hperm) hn hok).perm hset.symm
    · cases hs
  | resume i =>
    simp only [step] at hs
    split at hs
    · rename_i pc o hi
      cases hs
      have hperm : t.tasks.Perm (⟨pc,some o⟩ :: (t.tasks.take i ++ t.tasks.drop (i+1))) := by
        conv_lhs => rw [split_at hi]
        exact List.perm_middle
      refine (resume_synced hremote (h.perm hperm)).perm ?_
      rw [← List.append_assoc]
      exact List.perm_append_comm.append_right _
    · cases hs
  | timer => simp [step,h.1] at hs
  | engine k =>
    obtain ⟨s,hn,rfl⟩ := Option.map_eq_some_iff.mp hs
    exact (engine_view hn).synced h
  | deliver k =>
    simp only [step] at hs
    split at hs
    · rename_i sid up r down status acked _ hst
      split at hs
      · cases hs
      · cases hs
        exact deliver_synced h hst
    · cases hs
  | streamError k gone => exact hsm.elim
  | crash => exact hsm.elim

/-- In remote mode, when every RPC succeeds, commands arrive between handlers, nothing is sent
while a session closes and the file system does not fail, the client agrees with the commands
it was given whenever no handler runs. -/
theorem orderly_commands_agree {cfg : Config} (hremote : cfg.remote = true) (d : Disk) {t : State} {as : List Action}
    (hr : Run (step cfg) (fun t a => Smooth t a ∧ Orderly t a) (initOn d) as t) : Agrees t := by
  have hinit : Synced (initOn d).world (initOn d).tasks :=
    ⟨rfl,.inl ⟨by simp [initOn,Sends],rfl,by simp [initOn,Silent]⟩⟩
  have hsync := hr.invariant (fun t => Synced t.world t.tasks)
    (fun _ _ _ h hok hs => step_synced hremote h hok.1 hok.2 hs) hinit
  intro hquiet
  obtain ⟨-,hset⟩ := hsync.settled hquiet
  unfold Settled at hset
  split at hset
  · rename_i sid hw
    obtain ⟨hses,-,k,-,hsole⟩ := hset
    rw [hses]
    exact ⟨hw.symm,k,hsole⟩
  · rename_i hw
    rw [hset.1]
    exact ⟨hw.symm,hset.2⟩

/-- A stop arrives while the start it belongs to waits for the engine. -/
def overlapRun : List Action :=
  ([.call .start,.command (.start "A"),.command (.stop "A")] : List Action) ++ attach "A" 0 0

theorem overlapping_commands_disagree : ∃ t, Run (step remoteConfig) Smooth init overlapRun t ∧
    NoHandler t ∧ t.world.mem.session = some "A" ∧ t.world.log.wanted = none ∧ ¬ Agrees t := by
  have hexec : ∃ t ∈ exec (step remoteConfig) init overlapRun, NoHandler t ∧ t.world.mem.session = some "A" ∧
      t.world.log.wanted = none := by decide +kernel
  obtain ⟨t,ht,hquiet,hses,hwant⟩ := hexec
  refine ⟨t,Run.of_exec (by decide +kernel) (Option.mem_def.mp ht),hquiet,hses,hwant,fun hag => ?_⟩
  have heq := (hag hquiet).1
  simp [hses,hwant] at heq

/-- Two captures, the first stopped with a batch in flight. -/
def orderlyRun : List Action :=
  ([.call .start,.command (.start "A")] : List Action) ++ attach "A" 0 0 ++
    ([.call (.sendBatch ⟨1,10⟩),.command (.stop "A"),.settle 1 .ok,.resume 1,.engine 0,.deliver 0,
      .resume 0] : List Action) ++ turn .ok ++ ([.resume 0,.command (.start "B")] : List Action) ++ attach "B" 0 1

theorem orderly_commands_agree_orderlyRun : ∃ t,
    Run (step remoteConfig) (fun t a => Smooth t a ∧ Orderly t a) (initOn ∅) orderlyRun t ∧
    NoHandler t ∧ t.world.mem.session = some "B" ∧ Agrees t := by
  have hexec : ∃ t ∈ exec (step remoteConfig) (initOn ∅) orderlyRun, NoHandler t ∧
      t.world.mem.session = some "B" := by decide +kernel
  obtain ⟨t,ht,hquiet,hses⟩ := hexec
  have hr : Run (step remoteConfig) (fun t a => Smooth t a ∧ Orderly t a) (initOn ∅) orderlyRun t :=
    Run.of_exec (by decide +kernel) (Option.mem_def.mp ht)
  exact ⟨t,hr,hquiet,hses,orderly_commands_agree rfl ∅ hr⟩

end Client
end Clearvoiance
