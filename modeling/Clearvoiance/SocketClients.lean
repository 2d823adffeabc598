import Clearvoiance.Dispatchers

/-! The clients of the Socket.IO dispatcher.  One dispatcher with one map serves all replay runs; the
key of a client is the captured socket id and the virtual user, and does not name the run.  A dispatch
takes a few atomic steps, each a critical section of the dispatcher or an exchange with the target, and
the dispatches of all runs interleave. -/
namespace Clearvoiance
namespace SocketClients

open CapturedEvents Transition
open Dispatchers (blank)
open Dispatchers.SocketIo
open Replay (DispatchResult)

structure Replayer where
  replayID : String
  baseURL : String
  deriving DecidableEq

/-- A dispatch: an event of the captured session at its place in the session, for a virtual user. -/
structure Call where
  run : Replayer
  seq : ℕ
  ev : SocketEvent
  vu : ℕ
  deriving DecidableEq

def Call.key (c : Call) : String := capID c.ev c.vu

/-- A connection to the target of the call that opened it. -/
structure Conn where
  opener : Call
  closed : Bool
  deriving DecidableEq

/-- What a dispatch has done to the map of clients or to a connection. -/
inductive Effect
  | connected (conn : ℕ)
  | connectFailed
  | sent (conn : ℕ)
  | noClient
  | refused (conn : ℕ)
  | emitFailed (conn : ℕ)
  | taken (conn : Option ℕ)
  | closed (conn : ℕ)
  deriving DecidableEq

structure Entry where
  call : Call
  effect : Effect
  deriving DecidableEq

/-- `conns` are the connections ever opened, `log` the effects so far, in order. -/
structure Dispatcher where
  clients : String → Option ℕ
  conns : List Conn
  log : List Entry

inductive Pc
  | opening (c : Call)
  | storing (c : Call) (conn : ℕ)
  | looking (c : Call)
  | writing (c : Call) (conn : ℕ)
  | taking (c : Call)
  | closing (c : Call) (conn : ℕ)
  | passing (c : Call)
  deriving DecidableEq

def Pc.call : Pc → Call
  | .opening c | .storing c _ | .looking c | .writing c _ | .taking c | .closing c _ | .passing c => c

def Pc.conn : Pc → Option ℕ
  | .storing _ n | .writing _ n | .closing _ n => some n
  | _ => none

def entry (c : Call) : Pc :=
  match c.ev.op with
  | .connect => .opening c
  | .recvFromClient => .looking c
  | .disconnect => .taking c
  | _ => .passing c

/-- How the exchange of a step with the target ended. -/
structure Answer where
  err : Option String
  bytesSent : ℕ
  elapsedNs : ℤ
  deriving DecidableEq

abbrev Reply := Call × DispatchResult

def Dispatcher.record (d : Dispatcher) (c : Call) (effect : Effect) : Dispatcher :=
  { d with log := d.log ++ [⟨c,effect⟩] }

def Dispatcher.setClient (d : Dispatcher) (key : String) (conn : Option ℕ) : Dispatcher :=
  { d with clients := Function.update d.clients key conn }

def Dispatcher.isClosed (d : Dispatcher) (conn : ℕ) : Bool := ((d.conns[conn]?).map (·.closed)).getD false

def closedMessage : String := "write sio event: use of closed network connection"

def advance (e : Answer) (d : Dispatcher) : Pc → Dispatcher × (Pc ⊕ Reply)
  | .opening c =>
    match e.err with
    | some message => (d.record c .connectFailed,.inr (c,connectResult e.elapsedNs (some message)))
    | none => ({ d with conns := d.conns ++ [⟨c,false⟩] },.inl (.storing c d.conns.length))
  | .storing c conn =>
    ((d.setClient c.key (some conn)).record c (.connected conn),.inr (c,connectResult e.elapsedNs none))
  | .looking c =>
    match d.clients c.key with
    | none => (d.record c .noClient,.inr (c,noClientResult c.ev c.vu))
    | some conn => (d,.inl (.writing c conn))
  | .writing c conn =>
    if d.isClosed conn then
      (d.record c (.refused conn),.inr (c,emitResult e.elapsedNs (e.bytesSent,some closedMessage)))
    else match e.err with
      | some message =>
        (d.record c (.emitFailed conn),.inr (c,emitResult e.elapsedNs (e.bytesSent,some message)))
      | none => (d.record c (.sent conn),.inr (c,emitResult e.elapsedNs (e.bytesSent,none)))
  | .taking c =>
    match d.clients c.key with
    | none => (d.record c (.taken none),.inr (c,{ blank with responseStatus := 200 }))
    | some conn => ((d.setClient c.key none).record c (.taken (some conn)),.inl (.closing c conn))
  | .closing c conn =>
    ({ d with conns := d.conns.modify conn fun n => { n with closed := true } }.record c (.closed conn),
      .inr (c,{ blank with responseStatus := 200 }))
  | .passing c =>
    (d,.inr (c,if c.ev.op = .emitToClient then { blank with errorCode := "socket_skipped_emit" }
      else { blank with errorCode := "socket_unknown_op" }))

abbrev State := Pool Dispatcher Pc Reply

abbrev Action := Act Call Answer

abbrev step : State → Action → Option State := Pool.step entry advance

def init : State := ⟨⟨fun _ => none,[],[]⟩,[],[]⟩

def Dispatcher.opener (d : Dispatcher) (n : ℕ) : Option Call := (d.conns[n]?).map (·.opener)

/-- An event packet reaches only a connection of its own run, captured socket and virtual user, and
a run closes only connections of its own. -/
def Isolated (d : Dispatcher) : Prop :=
  ∀ e ∈ d.log, (∀ n, e.effect = .sent n → ∃ o, d.opener n = some o ∧ o.run = e.call.run ∧
      o.ev.socketId = e.call.ev.socketId ∧ o.vu = e.call.vu) ∧
    ∀ n, e.effect = .closed n → ∃ o, d.opener n = some o ∧ o.run = e.call.run

/-- A dispatch starts only while no other run has a dispatch with the same key in flight or a client
under that key. -/
def Separate (s : State) : Action → Prop
  | .invoke c => (∀ p ∈ s.threads, p.call.key = c.key → p.call.run = c.run) ∧
      ∀ o ∈ (s.shared.clients c.key).bind s.shared.opener, o.run = c.run
  | .advance .. => True

instance (s : State) (a : Action) : Decidable (Separate s a) := by
  induction a using Act.casesOn <;> unfold Separate <;> infer_instance

theorem key_inj {c d : Call} (h : c.key = d.key) : c.ev.socketId = d.ev.socketId ∧ c.vu = d.vu := by
  have hdigits : ∀ n : ℕ, (toString n).toList = Nat.toDigits 10 n := by simp [Nat.toString_eq_repr,Nat.repr]
  have hnot : ∀ n : ℕ, 'u' ∉ (toString n).toList := by
    intro n hu
    rw [hdigits] at hu
    have hdigit := Nat.isDigit_of_mem_toDigits (by decide) (by decide) hu
    simp at hdigit
  have hlist : (c.ev.socketId.toList ++ [':','v']) ++ 'u' :: (toString c.vu).toList =
      (d.ev.socketId.toList ++ [':','v']) ++ 'u' :: (toString d.vu).toList := by
    simpa [Call.key,capID] using congrArg String.toList h
  obtain ⟨hs,hv⟩ := Hex.append_separator_inj (hnot _) (hnot _) hlist
  rw [hdigits,hdigits] at hv
  have hvu := congrArg (fun ds => Nat.ofDigitChars 10 ds 0) hv
  simp only [Nat.ofDigitChars_ten_toDigits] at hvu
  exact ⟨String.toList_injective (List.append_cancel_right hs),hvu⟩

/-- What a step of the dispatch `p` does to the dispatcher. -/
structure Moved (d : Dispatcher) (p : Pc) (d' : Dispatcher) : Prop where
  opener : ∀ n o, d.opener n = some o → d'.opener n = some o
  clients : ∀ k n, d'.clients k = some n → d.clients k = some n ∨ k = p.call.key ∧ p.conn = some n
  log : d'.log = d.log ∨ ∃ effect : Effect, d'.log = d.log ++ [⟨p.call,effect⟩] ∧
    ∀ n, effect = .sent n ∨ effect = .closed n → p.conn = some n

theorem moved_record (d : Dispatcher) (p : Pc) {effect : Effect}
    (h : ∀ n, effect = .sent n ∨ effect = .closed n → p.conn = some n) : Moved d p (d.record p.call effect) :=
  ⟨fun _ _ h => h,fun _ _ h => .inl h,.inr ⟨effect,rfl,h⟩⟩

theorem opener_modify (d : Dispatcher) (m n : ℕ) :
    ({ d with conns := d.conns.modify m fun c => { c with closed := true } } : Dispatcher).opener n = d.opener n := by
  simp only [Dispatcher.opener,List.getElem?_modify]
  split_ifs <;> simp [Option.map_map,Function.comp_def]

theorem moved {e : Answer} {d d' : Dispatcher} {p : Pc} {o : Pc ⊕ Reply} (h : advance e d p = (d',o)) :
    Moved d p d' := by
  have hd : d' = (advance e d p).1 := by rw [h]
  subst hd
  cases p with
  | opening c =>
    cases he : e.err with
    | some message =>
      simp only [advance,he]
      exact moved_record d (.opening c) (by simp)
    | none =>
      simp only [advance,he]
      refine ⟨?_,fun _ _ h => .inl h,.inl rfl⟩
      intro n o hn
      obtain ⟨conn,hconn,ho⟩ := Option.map_eq_some_iff.mp hn
      simp only [Dispatcher.opener]
      rw [List.getElem?_append_left (List.getElem?_eq_some_iff.mp hconn).1,hconn]
      exact congrArg some ho
  | storing c m =>
    refine ⟨fun _ _ h => h,?_,.inr ⟨.connected m,rfl,by simp⟩⟩
    intro k n hk
    simp only [advance,Dispatcher.record,Dispatcher.setClient,Function.update_apply] at hk
    split_ifs at hk with hkey
    · exact .inr ⟨hkey,hk⟩
    · exact .inl hk
  | looking c =>
    cases hc : d.clients c.key with
    | none =>
      simp only [advance,hc]
      exact moved_record d (.looking c) (by simp)
    | some m =>
      simp only [advance,hc]
      exact ⟨fun _ _ h => h,fun _ _ h => .inl h,.inl rfl⟩
  | writing c m =>
    simp only [advance]
    split_ifs
    · exact moved_record d (.writing c m) (by simp)
    · cases e.err with
      | some message => exact moved_record d (.writing c m) (by simp)
      | none => exact moved_record d (.writing c m) (by simp [Pc.conn])
  | taking c =>
    cases hc : d.clients c.key with
    | none =>
      simp only [advance,hc]
      exact moved_record d (.taking c) (by simp)
    | some m =>
      simp only [advance,hc]
      refine ⟨fun _ _ h => h,?_,.inr ⟨.taken (some m),rfl,by simp⟩⟩
      intro k n hk
      simp only [Dispatcher.record,Dispatcher.setClient,Function.update_apply] at hk
      split_ifs at hk
      exact .inl hk
  | closing c m =>
    refine ⟨?_,fun _ _ h => .inl h,.inr ⟨.closed m,rfl,by simp [Pc.conn]⟩⟩
    intro n o hn
    exact (opener_modify d m n).trans hn
  | passing c => exact ⟨fun _ _ h => h,fun _ _ h => .inl h,.inl rfl⟩

/-- A dispatch that goes on stays the same dispatch, and takes up the connection it has opened or
found in the map. -/
theorem moved_next {e : Answer} {d d' : Dispatcher} {p p' : Pc} (h : advance e d p = (d',.inl p')) :
    p'.call = p.call ∧ ∀ n, p'.conn = some n → d'.opener n = some p.call ∨ d.clients p.call.key = some n := by
  cases p with
  | opening c =>
    cases he : e.err with
    | some message => simp [advance,he] at h
    | none =>
      simp only [advance,he,Prod.mk.injEq,Sum.inl.injEq] at h
      obtain ⟨rfl,rfl⟩ := h
      refine ⟨rfl,fun n hn => .inl ?_⟩
      cases hn
      simp [Dispatcher.opener,Pc.call]
  | looking c =>
    cases hc : d.clients c.key with
    | none => simp [advance,hc] at h
    | some m =>
      simp only [advance,hc,Prod.mk.injEq,Sum.inl.injEq] at h
      obtain ⟨rfl,rfl⟩ := h
      refine ⟨rfl,fun n hn => .inr ?_⟩
      cases hn
      exact hc
  | taking c =>
    cases hc : d.clients c.key with
    | none => simp [advance,hc] at h
    | some m =>
      simp only [advance,hc,Prod.mk.injEq,Sum.inl.injEq] at h
      obtain ⟨rfl,rfl⟩ := h
      refine ⟨rfl,fun n hn => .inr ?_⟩
      cases hn
      exact hc
  | writing c m =>
    simp only [advance] at h
    split_ifs at h
    · simp at h
    · cases he : e.err <;> simp [he] at h
  | storing | closing | passing => simp [advance] at h

/-- The steps of a dispatch are those of its operation. -/
def Pc.suits : Pc → Prop
  | .opening c | .storing c _ => c.ev.op = .connect
  | .looking c | .writing c _ => c.ev.op = .recvFromClient
  | .taking c | .closing c _ => c.ev.op = .disconnect
  | .passing c => c.ev.op ≠ .connect ∧ c.ev.op ≠ .recvFromClient ∧ c.ev.op ≠ .disconnect

theorem entry_call (c : Call) : (entry c).call = c ∧ (entry c).conn = none ∧ (entry c).suits := by
  unfold entry
  cases h : c.ev.op <;> simp [Pc.call,Pc.conn,Pc.suits,h]

theorem suits_next {e : Answer} {d d' : Dispatcher} {p p' : Pc} (hp : p.suits)
    (h : advance e d p = (d',.inl p')) : p'.suits := by
  cases p with
  | opening c =>
    cases he : e.err with
    | some message => simp [advance,he] at h
    | none =>
      simp only [advance,he,Prod.mk.injEq,Sum.inl.injEq] at h
      rw [← h.2]
      exact hp
  | looking c | taking c =>
    cases hc : d.clients c.key with
    | none => simp [advance,hc] at h
    | some m =>
      simp only [advance,hc,Prod.mk.injEq,Sum.inl.injEq] at h
      rw [← h.2]
      exact hp
  | writing c m =>
    simp only [advance] at h
    split_ifs at h
    · simp at h
    · cases he : e.err <;> simp [he] at h
  | storing | closing | passing => simp [advance] at h

/-- The result is what the dispatcher returns in some environment. -/
def Dispatched (r : Reply) : Prop :=
  ∀ id ts, ∃ w, dispatch w ⟨r.1.run.baseURL,r.1.run.replayID⟩ ⟨id,ts,some (.socket r.1.ev)⟩ r.1.vu = (r.2,none)

/-- An environment in which opening a client and emitting an event end as given. -/
def answerWorld (client : Bool) (sent : ℕ) (err : Option String) (elapsedNs : ℤ) : Dispatchers.World :=
  ⟨none,fun body _ _ => .ok body,fun _ _ => none,fun req => .ok req,fun _ => .error "",elapsedNs,fun _ _ => err,client,
    fun _ _ _ => (sent,err)⟩

theorem reply_dispatched {e : Answer} {d d' : Dispatcher} {p : Pc} {r : Reply} (hp : p.suits)
    (h : advance e d p = (d',.inr r)) : Dispatched r := by
  intro id ts
  cases p with
  | opening c =>
    cases he : e.err with
    | none => simp [advance,he] at h
    | some message =>
      simp only [advance,he,Prod.mk.injEq,Sum.inr.injEq] at h
      obtain ⟨-,rfl⟩ := h
      exact ⟨answerWorld false 0 (some message) e.elapsedNs,by simp [dispatch,show c.ev.op = .connect from hp,answerWorld]⟩
  | storing c m =>
    simp only [advance,Prod.mk.injEq,Sum.inr.injEq] at h
    obtain ⟨-,rfl⟩ := h
    exact ⟨answerWorld false 0 none e.elapsedNs,by simp [dispatch,show c.ev.op = .connect from hp,answerWorld]⟩
  | looking c =>
    cases hc : d.clients c.key with
    | some m => simp [advance,hc] at h
    | none =>
      simp only [advance,hc,Prod.mk.injEq,Sum.inr.injEq] at h
      obtain ⟨-,rfl⟩ := h
      exact ⟨answerWorld false 0 none 0,by simp [dispatch,show c.ev.op = .recvFromClient from hp,answerWorld]⟩
  | writing c m =>
    have hemit : ∃ err, r = (c,emitResult e.elapsedNs (e.bytesSent,err)) := by
      simp only [advance] at h
      split_ifs at h
      · simp only [Prod.mk.injEq,Sum.inr.injEq] at h
        exact ⟨_,h.2.symm⟩
      · cases he : e.err with
        | none | some =>
          simp only [he,Prod.mk.injEq,Sum.inr.injEq] at h
          exact ⟨_,h.2.symm⟩
    obtain ⟨err,rfl⟩ := hemit
    exact ⟨answerWorld true e.bytesSent err e.elapsedNs,
      by simp [dispatch,show c.ev.op = .recvFromClient from hp,answerWorld]⟩
  | taking c =>
    cases hc : d.clients c.key with
    | some m => simp [advance,hc] at h
    | none =>
      simp only [advance,hc,Prod.mk.injEq,Sum.inr.injEq] at h
      obtain ⟨-,rfl⟩ := h
      exact ⟨answerWorld false 0 none 0,by simp [dispatch,show c.ev.op = .disconnect from hp]⟩
  | closing c m =>
    simp only [advance,Prod.mk.injEq,Sum.inr.injEq] at h
    obtain ⟨-,rfl⟩ := h
    exact ⟨answerWorld false 0 none 0,by simp [dispatch,show c.ev.op = .disconnect from hp]⟩
  | passing c =>
    simp only [advance,Prod.mk.injEq,Sum.inr.injEq] at h
    obtain ⟨-,rfl⟩ := h
    refine ⟨answerWorld false 0 none 0,?_⟩
    obtain ⟨hconnect,hrecv,hdisconnect⟩ := hp
    cases hop : c.ev.op <;> simp_all [dispatch]

/-- However the dispatches interleave, each returns what the dispatcher returns in some environment. -/
theorem replies_dispatched {as : List Action} {s : State} (hr : Run step (fun _ _ => True) init as s) :
    ∀ r ∈ s.replies, Dispatched r := by
  have hinit : Pool.Holds (fun _ rs _ => ∀ r ∈ rs, Dispatched r) (fun p _ _ => p.suits) (fun _ _ => True) init :=
    ⟨by simp [init],by simp [init],.nil⟩
  refine (Pool.run_holds (fun _ _ _ => trivial) ?_ ?_ ?_ hr hinit).shared
  · intro s c _ hs
    exact ⟨hs.shared,(entry_call c).2.2,fun _ _ => trivial⟩
  · intro s i e p o d' p' _ _ _ hadv hG hp ho _
    exact ⟨hG,suits_next hp hadv,ho,fun _ _ => trivial⟩
  · intro s i e p o d' r _ _ _ hadv hG hp ho _
    refine ⟨fun r' hr' => ?_,ho⟩
    rcases List.mem_cons.mp hr' with rfl | hr'
    · exact reply_dispatched hp hadv
    · exact hG r' hr'

/-- The client under a key was opened under that key. -/
structure Filed (d : Dispatcher) : Prop where
  clients : ∀ k n, d.clients k = some n → ∃ o, d.opener n = some o ∧ o.key = k
  isolated : Isolated d

/-- What a dispatch in flight relies on: the client under its key and the connection it holds belong
to its run. -/
structure Owns (p : Pc) (d : Dispatcher) : Prop where
  client : ∀ n, d.clients p.call.key = some n → ∃ o, d.opener n = some o ∧ o.run = p.call.run
  conn : ∀ n, p.conn = some n → ∃ o, d.opener n = some o ∧ o.key = p.call.key ∧ o.run = p.call.run

def SameRun (p q : Pc) : Prop := p.call.key = q.call.key → p.call.run = q.call.run

section Step

variable {d d' : Dispatcher} {p q : Pc}

theorem Moved.filed (hm : Moved d p d') (h : Filed d) (hp : Owns p d) : Filed d' := by
  refine ⟨?_,?_⟩
  · intro k n hk
    rcases hm.clients k n hk with hk | ⟨rfl,hn⟩
    · obtain ⟨o,ho,hkey⟩ := h.clients k n hk
      exact ⟨o,hm.opener n o ho,hkey⟩
    · obtain ⟨o,ho,hkey,-⟩ := hp.conn n hn
      exact ⟨o,hm.opener n o ho,hkey⟩
  · have hold : ∀ e ∈ d.log, (∀ n, e.effect = .sent n → ∃ o, d'.opener n = some o ∧ o.run = e.call.run ∧
        o.ev.socketId = e.call.ev.socketId ∧ o.vu = e.call.vu) ∧
        ∀ n, e.effect = .closed n → ∃ o, d'.opener n = some o ∧ o.run = e.call.run := by
      intro e he
      obtain ⟨hsent,hclosed⟩ := h.isolated e he
      refine ⟨fun n hn => ?_,fun n hn => ?_⟩
      · obtain ⟨o,ho,hrest⟩ := hsent n hn
        exact ⟨o,hm.opener n o ho,hrest⟩
      · obtain ⟨o,ho,hrest⟩ := hclosed n hn
        exact ⟨o,hm.opener n o ho,hrest⟩
    rcases hm.log with hlog | ⟨effect,hlog,heffect⟩
    · intro e he
      exact hold e (hlog ▸ he)
    · intro e he
      rw [hlog,List.mem_append,List.mem_singleton] at he
      rcases he with he | rfl
      · exact hold e he
      · refine ⟨fun n hn => ?_,fun n hn => ?_⟩
        · obtain ⟨o,ho,hkey,hrun⟩ := hp.conn n (heffect n (.inl hn))
          obtain ⟨hid,hvu⟩ := key_inj hkey
          exact ⟨o,hm.opener n o ho,hrun,hid,hvu⟩
        · obtain ⟨o,ho,-,hrun⟩ := hp.conn n (heffect n (.inr hn))
          exact ⟨o,hm.opener n o ho,hrun⟩

/-- A step of one dispatch keeps what the others rely on. -/
theorem Moved.owns (hm : Moved d p d') (hp : Owns p d) (hq : Owns q d) (hsame : SameRun p q) : Owns q d' := by
  refine ⟨fun n hn => ?_,fun n hn => ?_⟩
  · rcases hm.clients _ n hn with hn | ⟨hkey,hn⟩
    · obtain ⟨o,ho,hrun⟩ := hq.client n hn
      exact ⟨o,hm.opener n o ho,hrun⟩
    · obtain ⟨o,ho,-,hrun⟩ := hp.conn n hn
      exact ⟨o,hm.opener n o ho,hrun.trans (hsame hkey.symm)⟩
  · obtain ⟨o,ho,hrest⟩ := hq.conn n hn
    exact ⟨o,hm.opener n o ho,hrest⟩

theorem Owns.next {e : Answer} {p' : Pc} (hp : Owns p d) (h : Filed d) (hadv : advance e d p = (d',.inl p')) :
    Owns p' d' := by
  have hm := moved hadv
  obtain ⟨hcall,hconn⟩ := moved_next hadv
  have hself := hm.owns hp hp fun _ => rfl
  refine ⟨hcall ▸ hself.client,fun n hn => ?_⟩
  rw [hcall]
  rcases hconn n hn with ho | hclient
  · exact ⟨p.call,ho,rfl,rfl⟩
  · obtain ⟨o,ho,hkey⟩ := h.clients _ n hclient
    obtain ⟨o',ho',hrun⟩ := hp.client n hclient
    obtain rfl : o = o' := Option.some.inj (ho.symm.trans ho')
    exact ⟨o,hm.opener n o ho,hkey,hrun⟩

end Step

/-- Runs whose dispatches for a key do not overlap keep their connections apart. -/
theorem separate_runs_isolated {as : List Action} {s : State} (hr : Run step Separate init as s) :
    Isolated s.shared := by
  have hinit : Pool.Holds (fun d _ _ => Filed d) (fun p d _ => Owns p d) SameRun init := by
    refine ⟨⟨?_,?_⟩,?_,.nil⟩
    · intro k n hk
      cases hk
    · intro e he
      cases he
    · intro p hp
      cases hp
  refine (Pool.run_holds (fun p q hpq hkey => (hpq hkey.symm).symm) ?_ ?_ ?_ hr hinit).shared.isolated
  · intro s c hok hs
    obtain ⟨hcall,hconn,-⟩ := entry_call c
    refine ⟨hs.shared,⟨fun n hn => ?_,fun n hn => ?_⟩,fun q hq hkey => ?_⟩
    · rw [hcall] at hn ⊢
      obtain ⟨o,ho,-⟩ := hs.shared.clients _ n hn
      exact ⟨o,ho,hok.2 o (by simp [hn,ho])⟩
    · rw [hconn] at hn
      cases hn
    · rw [hcall] at hkey ⊢
      exact (hok.1 q hq hkey.symm).symm
  · intro s i e p o d' p' _ _ _ hadv hG hp ho hpair
    have hm := moved hadv
    refine ⟨hm.filed hG hp,hp.next hG hadv,fun q hq => hm.owns hp (ho q hq) (hpair q hq),fun q hq => ?_⟩
    have hsame := hpair q hq
    unfold SameRun at hsame ⊢
    rwa [(moved_next hadv).1]
  · intro s i e p o d' r _ _ _ hadv hG hp ho hpair
    have hm := moved hadv
    exact ⟨hm.filed hG hp,fun q hq => hm.owns hp (ho q hq) (hpair q hq)⟩

/-- Two runs that replay the same session against different targets. -/
def blue : Replayer := ⟨"rep_a","http://blue:3000"⟩

def green : Replayer := ⟨"rep_b","http://green:3000"⟩

def socketCall (run : Replayer) (seq : ℕ) (op : SocketOp) : Call := ⟨run,seq,⟨"s1",op,"/","msg",none,"",0⟩,0⟩

def succeeded : Answer := ⟨none,0,0⟩

/-- Both runs connect, then the first one replays a message and a disconnect. -/
def sharedSession : List Action :=
  [.invoke (socketCall blue 0 .connect),.advance 0 succeeded,.advance 0 succeeded,
    .invoke (socketCall green 0 .connect),.advance 0 succeeded,.advance 0 succeeded,
    .invoke (socketCall blue 1 .recvFromClient),.advance 0 succeeded,.advance 0 succeeded,
    .invoke (socketCall blue 2 .disconnect),.advance 0 succeeded,.advance 0 succeeded]

theorem shared_session_mixed : ∃ s ∈ exec step init sharedSession, ¬ Isolated s.shared ∧
    (⟨socketCall blue 1 .recvFromClient,.sent 1⟩ : Entry) ∈ s.shared.log ∧
    (⟨socketCall blue 2 .disconnect,.closed 1⟩ : Entry) ∈ s.shared.log ∧
    s.shared.opener 1 = some (socketCall green 0 .connect) := by
  have hend : ∃ s ∈ exec step init sharedSession,
      (⟨socketCall blue 1 .recvFromClient,.sent 1⟩ : Entry) ∈ s.shared.log ∧
      (⟨socketCall blue 2 .disconnect,.closed 1⟩ : Entry) ∈ s.shared.log ∧
      s.shared.opener 1 = some (socketCall green 0 .connect) := by decide +kernel
  obtain ⟨s,hs,hsent,hclosed,ho⟩ := hend
  refine ⟨s,hs,fun h => ?_,hsent,hclosed,ho⟩
  obtain ⟨o,ho',hrun,-⟩ := (h _ hsent).1 1 rfl
  obtain rfl : o = socketCall green 0 .connect := Option.some.inj (ho'.symm.trans ho)
  revert hrun
  decide

/-- The second run connects once the first one has disconnected. -/
def turnTaking : List Action :=
  [.invoke (socketCall blue 0 .connect),.advance 0 succeeded,.advance 0 succeeded,
    .invoke (socketCall blue 1 .recvFromClient),.advance 0 succeeded,.advance 0 succeeded,
    .invoke (socketCall blue 2 .disconnect),.advance 0 succeeded,.advance 0 succeeded,
    .invoke (socketCall green 0 .connect),.advance 0 succeeded,.advance 0 succeeded,
    .invoke (socketCall green 1 .recvFromClient),.advance 0 succeeded,.advance 0 succeeded]

theorem separate_runs_isolated_turnTaking : ∃ s ∈ exec step init turnTaking, Isolated s.shared ∧
    (⟨socketCall blue 1 .recvFromClient,.sent 0⟩ : Entry) ∈ s.shared.log ∧
    (⟨socketCall green 1 .recvFromClient,.sent 1⟩ : Entry) ∈ s.shared.log := by
  have hend : ∃ s ∈ exec step init turnTaking,
      (⟨socketCall blue 1 .recvFromClient,.sent 0⟩ : Entry) ∈ s.shared.log ∧
      (⟨socketCall green 1 .recvFromClient,.sent 1⟩ : Entry) ∈ s.shared.log := by decide +kernel
  obtain ⟨s,hs,hblue,hgreen⟩ := hend
  have hr : Run step Separate init turnTaking s := .of_exec (by decide +kernel) (Option.mem_def.mp hs)
  exact ⟨s,hs,separate_runs_isolated hr,hblue,hgreen⟩

end SocketClients
end Clearvoiance
