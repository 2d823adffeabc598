import Clearvoiance.SocketClients

/-! The order in which the events of one captured socket reach the target within a replay run.  The
scheduler starts the dispatches in the order of the session but waits for none of them, so a message
can be looked up before its socket is connected and a disconnect can overtake a message.  The order is
kept when a dispatch of a socket starts only after the earlier ones of that socket have returned and
its messages follow a connect that succeeded. -/
namespace Clearvoiance
namespace SocketClients

open CapturedEvents Transition
open Replay (Config selected vuCount canDispatch)

/-- The dispatches of one event, if it is a Socket.IO event. -/
def callsOf (run : Replayer) (cfg : Config (Option Payload)) (ev : Dispatchers.Event) (seq : ℕ) : List Call :=
  match ev.payload with
  | some (.socket s) => if canDispatch cfg ev then (List.range (vuCount cfg)).map fun vu => ⟨run,seq,s,vu⟩ else []
  | _ => []

/-- The Socket.IO dispatches of a run, in the order in which the scheduler starts them. -/
def calls (run : Replayer) (cfg : Config (Option Payload)) (evs : List Dispatchers.Event) : List Call :=
  (selected cfg evs).zipIdx.flatMap fun e => callsOf run cfg e.1 e.2

def started (s : State) : ℕ := s.threads.length+s.replies.length

def Scheduled (cs : List Call) (s : State) : Action → Prop
  | .invoke c => cs[started s]? = some c
  | .advance .. => True

instance (cs : List Call) (s : State) (a : Action) : Decidable (Scheduled cs s a) := by
  induction a using Act.casesOn <;> unfold Scheduled <;> infer_instance

def Effect.isConnected : Effect → Bool
  | .connected _ => true
  | _ => false

def Entry.connects (e : Entry) (key : String) : Prop := e.call.key = key ∧ e.effect.isConnected = true

instance (e : Entry) (key : String) : Decidable (e.connects key) := inferInstanceAs (Decidable (_ ∧ _))

/-- The effects on a socket come in the order of the session, its messages only after it has been
connected; `e` is an entry of the log and `pre` what came before. -/
structure InOrder (d : Dispatcher) : Prop where
  connected : ∀ (pre : List Entry) (e : Entry) (post : List Entry), d.log = pre ++ e :: post →
    (e.effect = .noClient ∨ ∃ n, e.effect = .sent n) → ∃ e' ∈ pre, e'.connects e.call.key
  ordered : ∀ (pre : List Entry) (e : Entry) (post : List Entry), d.log = pre ++ e :: post →
    ∀ e' ∈ pre, e'.call.key = e.call.key → e'.call.seq ≤ e.call.seq
  written : ∀ (pre : List Entry) (e : Entry) (post : List Entry) (n : ℕ), d.log = pre ++ e :: post →
    e.effect = .sent n → ∀ e' ∈ pre, e'.call.key = e.call.key → e'.call.seq < e.call.seq

def Sequential (s : State) : Action → Prop
  | .invoke c => (∀ p ∈ s.threads, p.call.key ≠ c.key) ∧
      (c.ev.op = .recvFromClient → ∃ e ∈ s.shared.log, e.connects c.key)
  | .advance .. => True

instance (s : State) (a : Action) : Decidable (Sequential s a) := by
  induction a using Act.casesOn <;> unfold Sequential <;> infer_instance

/-- The dispatch that starts comes after all that the log has of its socket. -/
def Later (s : State) : Action → Prop
  | .invoke c => ∀ e ∈ s.shared.log, e.call.key = c.key → e.call.seq < c.seq
  | .advance .. => True

def Before (a b : Call) : Prop := a.key = b.key → a.seq < b.seq

theorem seq_of_mem_callsOf {run : Replayer} {cfg : Config (Option Payload)} {ev : Dispatchers.Event} {seq : ℕ}
    {c : Call} (hc : c ∈ callsOf run cfg ev seq) : c.seq = seq := by
  unfold callsOf at hc
  split at hc
  · split_ifs at hc
    · obtain ⟨vu,-,rfl⟩ := List.mem_map.mp hc
      rfl
    · cases hc
  · cases hc

theorem callsOf_before (run : Replayer) (cfg : Config (Option Payload)) (ev : Dispatchers.Event) (seq : ℕ) :
    (callsOf run cfg ev seq).Pairwise Before := by
  unfold callsOf
  split
  · split_ifs
    · rw [List.pairwise_map]
      refine List.pairwise_lt_range.imp ?_
      intro i j hij hkey
      have hvu : i = j := (key_inj hkey).2
      omega
    · exact .nil
  · exact .nil

/-- The dispatches with one key are started in the order of the session. -/
theorem calls_before (run : Replayer) (cfg : Config (Option Payload)) (evs : List Dispatchers.Event) :
    (calls run cfg evs).Pairwise Before := by
  have hidx : (selected cfg evs).zipIdx.Pairwise fun a b => a.2 < b.2 := by
    rw [← List.pairwise_map (f := Prod.snd) (R := (· < ·)),List.zipIdx_map_snd]
    exact List.pairwise_lt_range'
  unfold calls
  rw [List.pairwise_flatMap]
  refine ⟨fun e _ => callsOf_before run cfg e.1 e.2,hidx.imp ?_⟩
  intro e e' hlt c hc c' hc' _
  rw [seq_of_mem_callsOf hc,seq_of_mem_callsOf hc']
  exact hlt

section Scheduling

variable {cs : List Call} {s t : State} {a : Action}

/-- What is in flight or in the log was started before. -/
def Past (cs : List Call) (s : State) : Prop :=
  (∀ p ∈ s.threads, p.call ∈ cs.take (started s)) ∧ ∀ e ∈ s.shared.log, e.call ∈ cs.take (started s)

theorem past_log {e : Answer} {d d' : Dispatcher} {p : Pc} {o : Pc ⊕ Reply} {l : List Call}
    (hadv : advance e d p = (d',o)) (hp : p.call ∈ l) (h : ∀ x ∈ d.log, x.call ∈ l) : ∀ x ∈ d'.log, x.call ∈ l := by
  rcases (moved hadv).log with hlog | ⟨effect,hlog,-⟩
  · rwa [hlog]
  · intro x hx
    rw [hlog,List.mem_append,List.mem_singleton] at hx
    rcases hx with hx | rfl
    · exact h x hx
    · exact hp

theorem past_step (h : Past cs s) (hok : Scheduled cs s a) (hst : step s a = some t) : Past cs t := by
  rcases Pool.step_cases hst with ⟨c,rfl,rfl⟩ | ⟨i,e,l,r,p,d',p',rfl,hl,-,hadv,rfl⟩ | ⟨i,e,l,r,p,d',v,rfl,hl,-,hadv,rfl⟩
  · have hn : started { s with threads := s.threads ++ [entry c] } = started s+1 := by
      simp [started]
      omega
    obtain ⟨hlt,hc⟩ := List.getElem?_eq_some_iff.mp (show cs[started s]? = some c from hok)
    have hgrow : ∀ x, x ∈ cs.take (started s) → x ∈ cs.take (started s+1) :=
      fun x hx => (List.take_subset_take_left cs (Nat.le_succ _)) hx
    have hself : c ∈ cs.take (started s+1) := by
      rw [List.take_succ_eq_append_getElem hlt,hc]
      simp
    refine ⟨?_,?_⟩
    · intro p hp
      rw [hn]
      rcases List.mem_append.mp hp with hp | hp
      · exact hgrow _ (h.1 p hp)
      · rw [List.mem_singleton.mp hp,(entry_call c).1]
        exact hself
    · intro x hx
      rw [hn]
      exact hgrow _ (h.2 x hx)
  · have hn : started (⟨d',l ++ p' :: r,s.replies⟩ : State) = started s := by simp [started,hl]
    have hp := h.1 p (by simp [hl])
    refine ⟨?_,?_⟩
    · intro q hq
      rw [hn]
      rcases List.mem_cons.mp (List.perm_middle.subset hq) with rfl | hq
      · rw [(moved_next hadv).1]
        exact hp
      · exact h.1 q (hl ▸ List.perm_middle.symm.subset (List.mem_cons_of_mem _ hq))
    · rw [hn]
      exact past_log hadv hp h.2
  · have hn : started (⟨d',l ++ r,v :: s.replies⟩ : State) = started s := by
      simp [started,hl]
      omega
    have hp := h.1 p (by simp [hl])
    refine ⟨?_,?_⟩
    · intro q hq
      rw [hn]
      exact h.1 q (hl ▸ List.perm_middle.symm.subset (List.mem_cons_of_mem _ hq))
    · rw [hn]
      exact past_log hadv hp h.2

theorem later_of_scheduled (hcs : cs.Pairwise Before) (h : Past cs s) (hok : Scheduled cs s a) : Later s a := by
  cases a with
  | advance => trivial
  | invoke c =>
    intro e he hkey
    obtain ⟨hlt,hc⟩ := List.getElem?_eq_some_iff.mp (show cs[started s]? = some c from hok)
    obtain ⟨i,hi,hcall⟩ := List.mem_iff_getElem.mp (h.2 e he)
    rw [List.getElem_take] at hcall
    rw [List.length_take] at hi
    have hbefore : Before cs[i] cs[started s] := List.pairwise_iff_getElem.mp hcs i (started s) _ hlt (by omega)
    rw [hcall,hc] at hbefore
    exact hbefore hkey

end Scheduling

def Pc.receives : Pc → Bool
  | .looking _ | .writing _ _ => true
  | _ => false

def Pc.closes : Pc → Bool
  | .closing _ _ => true
  | _ => false

theorem moved_log {e : Answer} {d d' : Dispatcher} {p : Pc} {o : Pc ⊕ Reply} (h : advance e d p = (d',o)) :
    d'.log = d.log ∨ ∃ effect : Effect, d'.log = d.log ++ [⟨p.call,effect⟩] ∧
      ((effect = .noClient ∨ ∃ n, effect = .sent n) → p.receives = true) := by
  have hd : d' = (advance e d p).1 := by rw [h]
  subst hd
  cases p with
  | opening c =>
    cases he : e.err with
    | some message => exact .inr ⟨.connectFailed,by simp [advance,he,Dispatcher.record,Pc.call],by simp⟩
    | none => exact .inl (by simp [advance,he])
  | storing c m => exact .inr ⟨.connected m,rfl,by simp⟩
  | looking c =>
    cases hc : d.clients c.key with
    | none => exact .inr ⟨.noClient,by simp [advance,hc,Dispatcher.record,Pc.call],fun _ => rfl⟩
    | some m => exact .inl (by simp [advance,hc])
  | writing c m =>
    simp only [advance]
    split_ifs
    · exact .inr ⟨.refused m,rfl,fun _ => rfl⟩
    · cases e.err with
      | some message => exact .inr ⟨.emitFailed m,rfl,fun _ => rfl⟩
      | none => exact .inr ⟨.sent m,rfl,fun _ => rfl⟩
  | taking c =>
    cases hc : d.clients c.key with
    | none => exact .inr ⟨.taken none,by simp [advance,hc,Dispatcher.record,Pc.call],by simp⟩
    | some m => exact .inr ⟨.taken (some m),by simp [advance,hc,Dispatcher.record,Dispatcher.setClient,Pc.call],by simp⟩
  | closing c m => exact .inr ⟨.closed m,rfl,by simp⟩
  | passing c => exact .inl rfl

/-- A dispatch that goes on has logged nothing, or is a disconnect that has taken its client. -/
theorem moved_on {e : Answer} {d d' : Dispatcher} {p p' : Pc} (h : advance e d p = (d',.inl p')) :
    (p'.receives = true → p.receives = true) ∧ p.closes = false ∧
    (d'.log = d.log ∨ p'.closes = true ∧ ∃ effect, d'.log = d.log ++ [⟨p.call,effect⟩]) := by
  cases p with
  | opening c =>
    cases he : e.err with
    | some message => simp [advance,he] at h
    | none =>
      simp only [advance,he,Prod.mk.injEq,Sum.inl.injEq] at h
      obtain ⟨rfl,rfl⟩ := h
      exact ⟨fun h => h,rfl,.inl rfl⟩
  | looking c =>
    cases hc : d.clients c.key with
    | none => simp [advance,hc] at h
    | some m =>
      simp only [advance,hc,Prod.mk.injEq,Sum.inl.injEq] at h
      obtain ⟨rfl,rfl⟩ := h
      exact ⟨fun h => h,rfl,.inl rfl⟩
  | taking c =>
    cases hc : d.clients c.key with
    | none => simp [advance,hc] at h
    | some m =>
      simp only [advance,hc,Prod.mk.injEq,Sum.inl.injEq] at h
      obtain ⟨rfl,rfl⟩ := h
      exact ⟨fun h => h,rfl,.inr ⟨rfl,.taken (some m),rfl⟩⟩
  | writing c m =>
    simp only [advance] at h
    split_ifs at h
    · simp at h
    · cases he : e.err <;> simp [he] at h
  | storing | closing | passing => simp [advance] at h

/-- A dispatch in flight comes after all that the log has of its socket, but for what it has logged
itself, and a message comes after the connect. -/
structure Follows (p : Pc) (d : Dispatcher) : Prop where
  later : ∀ e ∈ d.log, e.call.key = p.call.key → e.call.seq < p.call.seq ∨ p.closes = true ∧ e.call = p.call
  connected : p.receives = true → ∃ e ∈ d.log, e.connects p.call.key

def Apart (p q : Pc) : Prop := p.call.key ≠ q.call.key

section Order

variable {d d' : Dispatcher} {p q : Pc} {e : Answer} {o : Pc ⊕ Reply}

theorem split_concat {α : Type} {l pre post : List α} {x y : α} (h : l ++ [x] = pre ++ y :: post) :
    (post = [] ∧ pre = l ∧ y = x) ∨ ∃ post', l = pre ++ y :: post' := by
  rcases List.eq_nil_or_concat post with rfl | ⟨post',z,rfl⟩
  · obtain ⟨hl,hx⟩ := List.append_inj' h rfl
    exact .inl ⟨rfl,hl.symm,(List.cons.inj hx).1.symm⟩
  · have hcut : l ++ [x] = (pre ++ y :: post') ++ [z] := by simpa using h
    exact .inr ⟨post',(List.append_inj' hcut rfl).1⟩

theorem inOrder_concat (h : InOrder d) (hp : Follows p d) {effect : Effect} (hlog : d'.log = d.log ++ [⟨p.call,effect⟩])
    (hrecv : (effect = .noClient ∨ ∃ n, effect = .sent n) → p.receives = true) : InOrder d' := by
  have hnot : p.receives = true → p.closes = false := by cases p <;> simp [Pc.receives,Pc.closes]
  refine ⟨?_,?_,?_⟩
  · intro pre x post hx heff
    rw [hlog] at hx
    rcases split_concat hx with ⟨-,rfl,rfl⟩ | ⟨post',hx⟩
    · exact hp.connected (hrecv heff)
    · exact h.connected pre x post' hx heff
  · intro pre x post hx y hy hkey
    rw [hlog] at hx
    rcases split_concat hx with ⟨-,rfl,rfl⟩ | ⟨post',hx⟩
    · rcases hp.later y hy hkey with hlt | ⟨-,heq⟩
      · exact hlt.le
      · rw [heq]
    · exact h.ordered pre x post' hx y hy hkey
  · intro pre x post n hx heff y hy hkey
    rw [hlog] at hx
    rcases split_concat hx with ⟨-,rfl,rfl⟩ | ⟨post',hx⟩
    · rcases hp.later y hy hkey with hlt | ⟨hcl,-⟩
      · exact hlt
      · rw [hnot (hrecv (.inr ⟨n,heff⟩))] at hcl
        cases hcl
    · exact h.written pre x post' n hx heff y hy hkey

theorem inOrder_advance (h : InOrder d) (hp : Follows p d) (hadv : advance e d p = (d',o)) : InOrder d' := by
  rcases moved_log hadv with hlog | ⟨effect,hlog,hrecv⟩
  · obtain ⟨h₁,h₂,h₃⟩ := h
    refine ⟨?_,?_,?_⟩ <;> rwa [hlog]
  · exact inOrder_concat h hp hlog hrecv

theorem follows_other (hq : Follows q d) (hapart : Apart p q) (hadv : advance e d p = (d',o)) : Follows q d' := by
  rcases moved_log hadv with hlog | ⟨effect,hlog,-⟩
  · exact ⟨by rw [hlog]; exact hq.later,by rw [hlog]; exact hq.connected⟩
  · rw [Apart] at hapart
    refine ⟨?_,fun hr => ?_⟩
    · intro x hx hkey
      rw [hlog,List.mem_append,List.mem_singleton] at hx
      rcases hx with hx | rfl
      · exact hq.later x hx hkey
      · exact absurd hkey hapart
    · obtain ⟨x,hx,hc⟩ := hq.connected hr
      exact ⟨x,by simp [hlog,hx],hc⟩

theorem follows_next {p' : Pc} (hp : Follows p d) (hadv : advance e d p = (d',.inl p')) : Follows p' d' := by
  obtain ⟨hrecv,hopen,hlog⟩ := moved_on hadv
  have hcall := (moved_next hadv).1
  have hold : ∀ x ∈ d.log, x.call.key = p.call.key → x.call.seq < p.call.seq := by
    intro x hx hkey
    rcases hp.later x hx hkey with hlt | ⟨hcl,-⟩
    · exact hlt
    · rw [hopen] at hcl
      cases hcl
  rcases hlog with hlog | ⟨hcl,effect,hlog⟩
  · refine ⟨?_,fun hr => ?_⟩
    · rw [hlog,hcall]
      exact fun x hx hkey => .inl (hold x hx hkey)
    · rw [hlog,hcall]
      exact hp.connected (hrecv hr)
  · refine ⟨?_,fun hr => ?_⟩
    · intro x hx hkey
      rw [hcall] at hkey ⊢
      rw [hlog,List.mem_append,List.mem_singleton] at hx
      rcases hx with hx | rfl
      · exact .inl (hold x hx hkey)
      · exact .inr ⟨hcl,rfl⟩
    · obtain ⟨x,hx,hc⟩ := hp.connected (hrecv hr)
      exact ⟨x,by simp [hlog,hx],hcall ▸ hc⟩

end Order

/-- A run that dispatches the events of a socket one after the other keeps their order. -/
theorem sequential_run_in_order {run : Replayer} {cfg : Config (Option Payload)} {evs : List Dispatchers.Event}
    {as : List Action} {s : State}
    (hr : Run step (fun s a => Scheduled (calls run cfg evs) s a ∧ Sequential s a) init as s) : InOrder s.shared := by
  have hrun : Run step (fun s a => Later s a ∧ Sequential s a) init as s := by
    refine hr.under (Past (calls run cfg evs)) (fun _ _ _ h hok hst => past_step h hok.1 hst)
      (fun _ _ h hok => ⟨later_of_scheduled (calls_before run cfg evs) h hok.1,hok.2⟩) ?_
    exact ⟨by simp [init],by simp [init]⟩
  have hinit : Pool.Holds (fun d _ _ => InOrder d) (fun p d _ => Follows p d) Apart init :=
    ⟨⟨by simp [init],by simp [init],by simp [init]⟩,by simp [init],.nil⟩
  refine (Pool.run_holds (fun p q hpq => Ne.symm hpq) ?_ ?_ ?_ hrun hinit).shared
  · intro s c hok hs
    obtain ⟨hcall,-,hsuits⟩ := entry_call c
    refine ⟨hs.shared,⟨?_,?_⟩,?_⟩
    · rw [hcall]
      exact fun x hx hkey => .inl (hok.1 x hx hkey)
    · intro hrecv
      rw [hcall]
      apply hok.2.2
      unfold entry at hrecv
      cases hop : c.ev.op <;> simp [hop,Pc.receives] at hrecv ⊢
    · intro q hq
      rw [hcall]
      exact (hok.2.1 q hq).symm
  · intro s i e p o d' p' _ _ _ hadv hG hp ho hpair
    refine ⟨inOrder_advance hG hp hadv,follows_next hp hadv,fun q hq => follows_other (ho q hq) (hpair q hq) hadv,?_⟩
    intro q hq
    rw [(moved_next hadv).1]
    exact hpair q hq
  · intro s i e p o d' r _ _ _ hadv hG hp ho hpair
    exact ⟨inOrder_advance hG hp hadv,fun q hq => follows_other (ho q hq) (hpair q hq) hadv⟩

def socketEvent (ts : ℤ) (op : SocketOp) : Dispatchers.Event := ⟨"ev",ts,some (.socket ⟨"s1",op,"/","msg",none,"",0⟩)⟩

/-- A captured socket that connects, sends a message and disconnects. -/
def chat : List Dispatchers.Event := [socketEvent 0 .connect,socketEvent 1 .recvFromClient,socketEvent 2 .disconnect]

def chatConfig : Config (Option Payload) :=
  ⟨"rep_a",1,0,0,0,1,0,0,Dispatchers.registered.map Prod.fst⟩

/-- The message is looked up while the client is still being opened. -/
def hastyRun : List Action :=
  [.invoke (socketCall blue 0 .connect),.invoke (socketCall blue 1 .recvFromClient),.advance 1 succeeded]

theorem hasty_message_rejected : Along step (Scheduled (calls blue chatConfig chat)) init hastyRun ∧
    ∃ s ∈ exec step init hastyRun, s.replies.map (·.2.errorCode) = ["socket_no_client"] ∧ ¬ InOrder s.shared := by
  have hend : ∃ s ∈ exec step init hastyRun, s.replies.map (·.2.errorCode) = ["socket_no_client"] ∧
      s.shared.log = [⟨socketCall blue 1 .recvFromClient,.noClient⟩] := by decide +kernel
  obtain ⟨s,hs,hcode,hlog⟩ := hend
  refine ⟨by decide +kernel,s,hs,hcode,fun h => ?_⟩
  obtain ⟨x,hx,-⟩ := h.connected [] _ [] hlog (.inl rfl)
  cases hx

/-- Each dispatch starts when the one before has returned. -/
def patientRun : List Action :=
  [.invoke (socketCall blue 0 .connect),.advance 0 succeeded,.advance 0 succeeded,
    .invoke (socketCall blue 1 .recvFromClient),.advance 0 succeeded,.advance 0 succeeded,
    .invoke (socketCall blue 2 .disconnect),.advance 0 succeeded,.advance 0 succeeded]

theorem sequential_run_in_order_patientRun : ∃ s ∈ exec step init patientRun, InOrder s.shared ∧
    s.shared.log.map (·.effect) = [.connected 0,.sent 0,.taken (some 0),.closed 0] := by
  have hend : ∃ s ∈ exec step init patientRun,
      s.shared.log.map (·.effect) = [.connected 0,.sent 0,.taken (some 0),.closed 0] := by decide +kernel
  obtain ⟨s,hs,hlog⟩ := hend
  have hr : Run step (fun s a => Scheduled (calls blue chatConfig chat) s a ∧ Sequential s a) init patientRun s :=
    .of_exec (by decide +kernel) (Option.mem_def.mp hs)
  exact ⟨s,hs,sequential_run_in_order hr,hlog⟩

end SocketClients
end Clearvoiance
