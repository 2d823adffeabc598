import Clearvoiance.Hub
import Clearvoiance.Transition

/-! Messages that do not fit a client's buffer.  A `Publish` call takes the clients of its topic under
the hub's lock and offers each of them the message; where the buffer is full it counts a drop under the
client's own lock.  The client's writer sends what is in the buffer, and on a timer reports the counts
and clears them.  Beside the state stands a ledger of what happened to the messages. -/
namespace Clearvoiance
namespace DropNotices

open Transition Hub

variable {π : Type*}

/-- The goroutine that reads the client's requests: `replying` is `tryEnqueue` before its `select`,
`counting` is its default branch before the lock. -/
inductive Reader (π : Type*)
  | reading
  | replying (msg : Outgoing π)
  | counting (topic : String)
  | returned
  deriving DecidableEq

/-- The writer pump; it holds the client's lock while it flushes. -/
inductive Writer (π : Type*)
  | selecting
  | writing (msg : Outgoing π)
  | flushing
  | noticing (topic : String) (n : ℕ)
  | exited
  deriving DecidableEq

structure Client (π : Type*) where
  send : List (Outgoing π)
  dropped : AList fun _ : String => ℕ
  reader : Reader π
  writer : Writer π
  cancelled : Bool
  deriving DecidableEq

/-- A call of `Publish` that has taken its clients: those it has not offered the message to yet, and the
one whose drop it is about to count. -/
structure Call (π : Type*) where
  topic : String
  payload : π
  remaining : List ClientId
  counting : Option ClientId
  deriving DecidableEq

/-- What became of the messages of one topic for one client. -/
structure Ledger where
  published : ℕ
  enqueued : ℕ
  notified : ℕ
  deriving DecidableEq

structure State (π : Type*) where
  subscribers : Subscribers
  clients : List (Client π)
  calls : List (Call π)
  ledger : ClientId → String → Ledger

def sendCap : ℕ := 256

def init : State π := ⟨∅,[],[],fun _ _ => ⟨0,0,0⟩⟩

/-- `publish` names the order in which the call goes through its clients; `reply` and `offer` are the
`select` of `tryEnqueue`, `count` and `drop` its default branch under the lock; `write` and `noticed`
end a write, with success or not. -/
inductive Label (π : Type*)
  | connect
  | receive (c : ClientId) (r : Request)
  | reply (c : ClientId)
  | count (c : ClientId)
  | leave (c : ClientId)
  | publish (topic : String) (payload : π) (order : List ClientId)
  | offer (i : ℕ)
  | drop (i : ℕ)
  | take (c : ClientId)
  | write (c : ClientId) (ok : Bool)
  | tick (c : ClientId)
  | notice (c : ClientId) (topic : String)
  | noticed (c : ClientId) (ok : Bool)
  | flushed (c : ClientId)
  | stop (c : ClientId)

def Writer.holdsLock : Writer π → Bool
  | .flushing | .noticing _ _ => true
  | _ => false

/-- `c.dropped[topic]++`. -/
def bump (dropped : AList fun _ : String => ℕ) (topic : String) : AList fun _ : String => ℕ :=
  dropped.insert topic ((dropped.lookup topic).getD 0+1)

def record (ledger : ClientId → String → Ledger) (c : ClientId) (topic : String) (f : Ledger → Ledger) :
    ClientId → String → Ledger := fun d u => if d = c ∧ u = topic then f (ledger d u) else ledger d u

/-- Where the reader loop goes on after a request. -/
def Reader.after : Option (Outgoing π) → Reader π
  | some msg => .replying msg
  | none => .reading

/-- A client as `Handler` sets it up; the acknowledgement of the authentication is the first reply. -/
def newClient : Client π := ⟨[],∅,.replying ⟨"__auth",.ok⟩,.selecting,false⟩

def State.setClient (s : State π) (c : ClientId) (cl : Client π) : State π :=
  { s with clients := s.clients.set c cl }

def step (s : State π) : Label π → Option (State π)
  | .connect => some { s with clients := s.clients ++ [newClient] }
  | .receive c r => do
    let cl ← s.clients[c]?
    match cl.reader with
    | .reading =>
      let (subscribers,reply) := handle s.subscribers c r
      some { s.setClient c { cl with reader := Reader.after reply } with subscribers := subscribers }
    | _ => none
  | .reply c => do
    let cl ← s.clients[c]?
    match cl.reader with
    | .replying msg =>
      if cl.send.length < sendCap then some (s.setClient c { cl with send := cl.send ++ [msg], reader := .reading })
      else some (s.setClient c { cl with reader := .counting msg.topic })
    | _ => none
  | .count c => do
    let cl ← s.clients[c]?
    match cl.reader,cl.writer.holdsLock with
    | .counting topic,false => some (s.setClient c { cl with dropped := bump cl.dropped topic, reader := .reading })
    | _,_ => none
  | .leave c => do
    let cl ← s.clients[c]?
    match cl.reader with
    | .reading =>
      some { s.setClient c { cl with reader := .returned, cancelled := true } with
        subscribers := removeAll s.subscribers c }
    | _ => none
  | .publish topic payload order =>
    if order.Perm (members s.subscribers topic) then
      some { s with
        calls := s.calls ++ [⟨topic,payload,order,none⟩]
        ledger := fun c u =>
          if u = topic ∧ c ∈ members s.subscribers topic then { s.ledger c u with published := (s.ledger c u).published+1 }
          else s.ledger c u }
    else none
  | .offer i => do
    let k ← s.calls[i]?
    match k.counting,k.remaining with
    | none,c :: rest =>
      let cl ← s.clients[c]?
      if cl.send.length < sendCap then
        some { s.setClient c { cl with send := cl.send ++ [⟨k.topic,.published k.payload⟩] } with
          calls := s.calls.set i { k with remaining := rest }
          ledger := record s.ledger c k.topic fun e => { e with enqueued := e.enqueued+1 } }
      else some { s with calls := s.calls.set i { k with remaining := rest, counting := some c } }
    | _,_ => none
  | .drop i => do
    let k ← s.calls[i]?
    match k.counting with
    | some c =>
      let cl ← s.clients[c]?
      if cl.writer.holdsLock then none
      else some { s.setClient c { cl with dropped := bump cl.dropped k.topic } with
        calls := s.calls.set i { k with counting := none } }
    | none => none
  | .take c => do
    let cl ← s.clients[c]?
    match cl.writer,cl.send with
    | .selecting,msg :: send => some (s.setClient c { cl with send := send, writer := .writing msg })
    | _,_ => none
  | .write c ok => do
    let cl ← s.clients[c]?
    match cl.writer with
    | .writing _ =>
      if ok then some (s.setClient c { cl with writer := .selecting })
      else some (s.setClient c { cl with writer := .exited, cancelled := true })
    | _ => none
  | .tick c => do
    let cl ← s.clients[c]?
    match cl.writer with
    | .selecting => some (s.setClient c { cl with writer := .flushing })
    | _ => none
  | .notice c topic => do
    let cl ← s.clients[c]?
    match cl.writer,cl.dropped.lookup topic with
    | .flushing,some n => some (s.setClient c { cl with writer := .noticing topic n })
    | _,_ => none
  | .noticed c ok => do
    let cl ← s.clients[c]?
    match cl.writer with
    | .noticing topic n =>
      some { s.setClient c { cl with dropped := cl.dropped.erase topic, writer := .flushing } with
        ledger := if ok then record s.ledger c topic fun e => { e with notified := e.notified+n } else s.ledger }
    | _ => none
  | .flushed c => do
    let cl ← s.clients[c]?
    match cl.writer,cl.dropped.keys with
    | .flushing,[] => some (s.setClient c { cl with writer := .selecting })
    | _,_ => none
  | .stop c => do
    let cl ← s.clients[c]?
    match cl.writer,cl.cancelled with
    | .selecting,true => some (s.setClient c { cl with writer := .exited })
    | _,_ => none

def pending (s : State π) (c : ClientId) (topic : String) : ℕ :=
  ((s.clients[c]?).bind fun cl => cl.dropped.lookup topic).getD 0

/-- Whether the call still has to deal with the client. -/
def Call.owes (k : Call π) (c : ClientId) (topic : String) : ℕ :=
  if k.topic = topic then k.remaining.count c+(if k.counting = some c then 1 else 0) else 0

/-- Messages of calls that are still on their way to the client. -/
def inFlight (s : State π) (c : ClientId) (topic : String) : ℕ := (s.calls.map fun k => k.owes c topic).sum

/-- Every message published on the topic while the client is subscribed was put into its buffer, was told
to it in a notice, is counted, or is still being offered. -/
def Balanced (s : State π) (c : ClientId) (topic : String) : Prop :=
  (s.ledger c topic).published =
    (s.ledger c topic).enqueued+(s.ledger c topic).notified+pending s c topic+inFlight s c topic

/-- The steps that keep the account: no write of a notice for the topic fails, and no answer of the hub
that goes by the name of the topic is dropped. -/
def Accounted (c : ClientId) (topic : String) (s : State π) : Label π → Prop
  | .count d => d = c → ∀ cl, s.clients[d]? = some cl → cl.reader ≠ .counting topic
  | .noticed d ok => d = c → ok = false → ∀ cl, s.clients[d]? = some cl → ∀ n, cl.writer ≠ .noticing topic n
  | _ => True

instance (s : State π) (c : ClientId) (topic : String) : Decidable (Balanced s c topic) :=
  inferInstanceAs (Decidable (_ = _))

instance [DecidableEq π] (c : ClientId) (topic : String) (s : State π) (l : Label π) :
    Decidable (Accounted c topic s l) :=
  match l with
  | .count d =>
    match h : s.clients[d]? with
    | none => .isTrue (by simp [Accounted,h])
    | some cl => decidable_of_iff (d = c → cl.reader ≠ .counting topic) (by simp [Accounted,h])
  | .noticed d ok =>
    match h : s.clients[d]? with
    | none => .isTrue (by simp [Accounted,h])
    | some cl =>
      match hw : cl.writer with
      | .noticing u n => decidable_of_iff (d = c → ok = false → u ≠ topic) (by simp [Accounted,h,hw])
      | .selecting | .writing _ | .flushing | .exited => .isTrue (by simp [Accounted,h,hw])
  | .connect | .receive _ _ | .reply _ | .leave _ | .publish _ _ _ | .offer _ | .drop _ | .take _ | .write _ _ |
    .tick _ | .notice _ _ | .flushed _ | .stop _ => .isTrue trivial

/-- What holds between the counters and the writer that reports them. -/
structure Sound (s : State π) : Prop where
  distinct : Distinct s.subscribers
  positive : ∀ (c : ClientId) (cl : Client π), s.clients[c]? = some cl →
    ∀ topic n, cl.dropped.lookup topic = some n → 0 < n
  locked : ∀ (c : ClientId) (cl : Client π), s.clients[c]? = some cl → ∀ topic n, cl.writer = .noticing topic n →
    cl.dropped.lookup topic = some n

theorem clients_setClient {s : State π} {c d : ClientId} {cl cl' : Client π} (h : s.clients[c]? = some cl) :
    (s.setClient c cl').clients[d]? = if d = c then some cl' else s.clients[d]? := by
  obtain ⟨hlt,-⟩ := List.getElem?_eq_some_iff.mp h
  by_cases hd : d = c
  · subst hd
    rw [if_pos rfl,State.setClient,List.getElem?_set_self hlt]
  · rw [if_neg hd,State.setClient,List.getElem?_set_ne (Ne.symm hd)]

theorem lookup_bump (dropped : AList fun _ : String => ℕ) (topic u : String) :
    ((bump dropped topic).lookup u).getD 0 = (dropped.lookup u).getD 0+(if u = topic then 1 else 0) := by
  by_cases hu : u = topic
  · subst hu
    simp [bump]
  · rw [bump,AList.lookup_insert_ne hu,if_neg hu,Nat.add_zero]

/-- A step that leaves counters, calls and ledger alone. -/
def Quiet (s t : State π) : Prop :=
  ∃ (c : ClientId) (cl cl' : Client π) (subscribers : Subscribers), s.clients[c]? = some cl ∧ cl'.dropped = cl.dropped ∧
    (∀ topic n, cl'.writer = .noticing topic n → cl.writer = .noticing topic n ∨ cl.dropped.lookup topic = some n) ∧
    (Distinct s.subscribers → Distinct subscribers) ∧ t = { s.setClient c cl' with subscribers := subscribers }

theorem quiet_setClient {s : State π} {c : ClientId} {cl cl' : Client π} (h : s.clients[c]? = some cl)
    (hd : cl'.dropped = cl.dropped)
    (hw : ∀ topic n, cl'.writer = .noticing topic n → cl.writer = .noticing topic n ∨ cl.dropped.lookup topic = some n) :
    Quiet s (s.setClient c cl') :=
  ⟨c,cl,cl',s.subscribers,h,hd,hw,id,rfl⟩

inductive Move (s t : State π) : Label π → Prop
  | quiet (l : Label π) : Quiet s t → (∀ c topic, Accounted c topic s l) → Move s t l
  | connect : t = { s with clients := s.clients ++ [newClient] } → Move s t .connect
  | count (c : ClientId) (cl : Client π) (topic : String) : s.clients[c]? = some cl → cl.reader = .counting topic →
      cl.writer.holdsLock = false →
      t = s.setClient c { cl with dropped := bump cl.dropped topic, reader := .reading } → Move s t (.count c)
  | publish (topic : String) (payload : π) (order : List ClientId) : order.Perm (members s.subscribers topic) →
      t = { s with
        calls := s.calls ++ [⟨topic,payload,order,none⟩]
        ledger := fun c u =>
          if u = topic ∧ c ∈ members s.subscribers topic then { s.ledger c u with published := (s.ledger c u).published+1 }
          else s.ledger c u } → Move s t (.publish topic payload order)
  | enqueue (i : ℕ) (k : Call π) (c : ClientId) (rest : List ClientId) (cl : Client π) : s.calls[i]? = some k →
      k.remaining = c :: rest → s.clients[c]? = some cl →
      t = { s.setClient c { cl with send := cl.send ++ [⟨k.topic,.published k.payload⟩] } with
        calls := s.calls.set i { k with remaining := rest }
        ledger := record s.ledger c k.topic fun e => { e with enqueued := e.enqueued+1 } } → Move s t (.offer i)
  | refuse (i : ℕ) (k : Call π) (c : ClientId) (rest : List ClientId) : s.calls[i]? = some k → k.counting = none →
      k.remaining = c :: rest →
      t = { s with calls := s.calls.set i { k with remaining := rest, counting := some c } } → Move s t (.offer i)
  | drop (i : ℕ) (k : Call π) (c : ClientId) (cl : Client π) : s.calls[i]? = some k → k.counting = some c →
      s.clients[c]? = some cl → cl.writer.holdsLock = false →
      t = { s.setClient c { cl with dropped := bump cl.dropped k.topic } with
        calls := s.calls.set i { k with counting := none } } → Move s t (.drop i)
  | noticed (c : ClientId) (cl : Client π) (topic : String) (n : ℕ) (ok : Bool) : s.clients[c]? = some cl →
      cl.writer = .noticing topic n →
      t = { s.setClient c { cl with dropped := cl.dropped.erase topic, writer := .flushing } with
        ledger := if ok then record s.ledger c topic fun e => { e with notified := e.notified+n } else s.ledger } →
      Move s t (.noticed c ok)

theorem move_receive {s t : State π} {c : ClientId} {r : Request} (h : step s (.receive c r) = some t) :
    Move s t (.receive c r) := by
  simp only [step,Option.bind_eq_bind,Option.bind_eq_some_iff] at h
  obtain ⟨cl,hc,h⟩ := h
  split at h
  · cases h
    exact .quiet _ ⟨c,cl,{ cl with reader := Reader.after (handle s.subscribers c r).2 },_,hc,rfl,fun _ _ h => .inl h,
      fun hd => distinct_handle (π := π) hd c r,rfl⟩ fun _ _ => trivial
  · cases h

theorem move_reply {s t : State π} {c : ClientId} (h : step s (.reply c) = some t) : Move s t (.reply c) := by
  simp only [step,Option.bind_eq_bind,Option.bind_eq_some_iff] at h
  obtain ⟨cl,hc,h⟩ := h
  split at h
  · split at h
    all_goals
      cases h
      exact .quiet _ (quiet_setClient hc rfl fun _ _ h => .inl h) fun _ _ => trivial
  · cases h

theorem move_offer {s t : State π} {i : ℕ} (h : step s (.offer i) = some t) : Move s t (.offer i) := by
  simp only [step,Option.bind_eq_bind,Option.bind_eq_some_iff] at h
  obtain ⟨k,hk,h⟩ := h
  split at h
  · simp only [Option.bind_eq_some_iff] at h
    obtain ⟨cl,hc,h⟩ := h
    split at h
    · cases h
      exact .enqueue i k _ _ cl hk ‹_› hc rfl
    · cases h
      exact .refuse i k _ _ hk ‹_› ‹_› rfl
  · cases h

theorem move_drop {s t : State π} {i : ℕ} (h : step s (.drop i) = some t) : Move s t (.drop i) := by
  simp only [step,Option.bind_eq_bind,Option.bind_eq_some_iff] at h
  obtain ⟨k,hk,h⟩ := h
  split at h
  · simp only [Option.bind_eq_some_iff] at h
    obtain ⟨cl,hc,h⟩ := h
    split at h
    · cases h
    · cases h
      exact .drop i k _ cl hk ‹_› hc (Bool.eq_false_iff.mpr ‹_›) rfl
  · cases h

theorem move_write {s t : State π} {c : ClientId} {ok : Bool} (h : step s (.write c ok) = some t) :
    Move s t (.write c ok) := by
  simp only [step,Option.bind_eq_bind,Option.bind_eq_some_iff] at h
  obtain ⟨cl,hc,h⟩ := h
  split at h
  · split at h
    all_goals
      cases h
      exact .quiet _ (quiet_setClient hc rfl (by simp)) fun _ _ => trivial
  · cases h

theorem move_notice {s t : State π} {c : ClientId} {topic : String} (h : step s (.notice c topic) = some t) :
    Move s t (.notice c topic) := by
  simp only [step,Option.bind_eq_bind,Option.bind_eq_some_iff] at h
  obtain ⟨cl,hc,h⟩ := h
  split at h
  · cases h
    refine .quiet _ (quiet_setClient hc rfl fun u n hn => ?_) fun _ _ => trivial
    cases hn
    exact .inr ‹_›
  · cases h

theorem step_cases {s t : State π} {l : Label π} (h : step s l = some t) : Move s t l := by
  cases l with
  | connect => exact .connect (by simpa [step] using h.symm)
  | receive c r => exact move_receive h
  | reply c => exact move_reply h
  | count c =>
    simp only [step,Option.bind_eq_bind,Option.bind_eq_some_iff] at h
    obtain ⟨cl,hc,h⟩ := h
    split at h
    · cases h
      exact .count c cl _ hc ‹_› ‹_› rfl
    · cases h
  | leave c =>
    simp only [step,Option.bind_eq_bind,Option.bind_eq_some_iff] at h
    obtain ⟨cl,hc,h⟩ := h
    split at h
    · cases h
      exact .quiet _ ⟨c,cl,{ cl with reader := .returned, cancelled := true },_,hc,rfl,fun _ _ h => .inl h,
        fun hd => distinct_removeAll hd c,rfl⟩ fun _ _ => trivial
    · cases h
  | publish topic payload order =>
    simp only [step,Option.ite_none_right_eq_some,Option.some.injEq] at h
    exact .publish topic payload order h.1 h.2.symm
  | offer i => exact move_offer h
  | drop i => exact move_drop h
  | take c | tick c | flushed c | stop c =>
    simp only [step,Option.bind_eq_bind,Option.bind_eq_some_iff] at h
    obtain ⟨cl,hc,h⟩ := h
    split at h
    · cases h
      exact .quiet _ (quiet_setClient hc rfl (by simp)) fun _ _ => trivial
    · cases h
  | write c ok => exact move_write h
  | notice c topic => exact move_notice h
  | noticed c ok =>
    simp only [step,Option.bind_eq_bind,Option.bind_eq_some_iff] at h
    obtain ⟨cl,hc,h⟩ := h
    split at h
    · cases h
      exact .noticed c cl _ _ ok hc ‹_› rfl
    · cases h

theorem pending_of_client {s : State π} {c : ClientId} {cl : Client π} (h : s.clients[c]? = some cl) (topic : String) :
    pending s c topic = (cl.dropped.lookup topic).getD 0 := by
  simp [pending,h]

theorem pending_set {s t : State π} {c : ClientId} {cl cl' : Client π} (h : s.clients[c]? = some cl)
    (ht : t.clients = s.clients.set c cl') (d : ClientId) (topic : String) :
    pending t d topic = if d = c then (cl'.dropped.lookup topic).getD 0 else pending s d topic := by
  have hget : (s.setClient c cl').clients[d]? = if d = c then some cl' else s.clients[d]? := clients_setClient h
  rw [State.setClient,← ht] at hget
  rw [pending,hget]
  split <;> rfl

theorem inFlight_set {s t : State π} {i : ℕ} {k k' : Call π} (h : s.calls[i]? = some k)
    (ht : t.calls = s.calls.set i k') (c : ClientId) (topic : String) :
    inFlight t c topic+k.owes c topic = inFlight s c topic+k'.owes c topic := by
  obtain ⟨hi,-⟩ := List.getElem?_eq_some_iff.mp h
  have hs := split_at h
  rw [inFlight,inFlight,ht,List.set_eq_take_append_cons_drop,if_pos hi]
  conv_rhs => rw [hs]
  simp only [List.map_append,List.map_cons,List.sum_append,List.sum_cons]
  omega

theorem sound_init : Sound (init : State π) :=
  ⟨fun topic => by simp [init,members],by simp [init],by simp [init]⟩

/-- A client record that replaces another keeps what holds between counters and writer. -/
theorem sound_set {s t : State π} (hs : Sound s) {c : ClientId} {cl cl' : Client π} (h : s.clients[c]? = some cl)
    (ht : t.clients = s.clients.set c cl') (hd : Distinct t.subscribers)
    (hpos : ∀ topic n, cl'.dropped.lookup topic = some n → 0 < n)
    (hlock : ∀ topic n, cl'.writer = .noticing topic n → cl'.dropped.lookup topic = some n) : Sound t := by
  have hget : ∀ (d : ClientId) dl, t.clients[d]? = some dl → dl = cl' ∨ s.clients[d]? = some dl := by
    intro d dl hdl
    have hset : (s.setClient c cl').clients[d]? = if d = c then some cl' else s.clients[d]? := clients_setClient h
    rw [State.setClient,← ht,hdl] at hset
    split at hset
    · exact .inl (Option.some.inj hset)
    · exact .inr hset.symm
  refine ⟨hd,fun d dl hdl => ?_,fun d dl hdl => ?_⟩
  · rcases hget d dl hdl with rfl | hold
    · exact hpos
    · exact hs.positive d dl hold
  · rcases hget d dl hdl with rfl | hold
    · exact hlock
    · exact hs.locked d dl hold

theorem pos_bump {dropped : AList fun _ : String => ℕ} (h : ∀ topic n, dropped.lookup topic = some n → 0 < n)
    (topic u : String) (n : ℕ) (hn : (bump dropped topic).lookup u = some n) : 0 < n := by
  by_cases hu : u = topic
  · subst hu
    rw [bump,AList.lookup_insert,Option.some_inj] at hn
    omega
  · rw [bump,AList.lookup_insert_ne hu] at hn
    exact h u n hn

theorem not_noticing {w : Writer π} (h : w.holdsLock = false) (topic : String) (n : ℕ) : w ≠ .noticing topic n := by
  rintro rfl
  simp [Writer.holdsLock] at h

theorem sound_step {s t : State π} {l : Label π} (hs : Sound s) (h : step s l = some t) : Sound t := by
  rcases step_cases h with ⟨_,⟨c,cl,cl',subs,hc,hd,hw,hdist,rfl⟩,-⟩ | rfl | ⟨c,cl,topic,hc,-,hfree,rfl⟩ |
    ⟨topic,payload,order,-,rfl⟩ | ⟨i,k,c,rest,cl,-,-,hc,rfl⟩ | ⟨i,k,c,rest,-,-,-,rfl⟩ |
    ⟨i,k,c,cl,-,-,hc,hfree,rfl⟩ | ⟨c,cl,topic,n,ok,hc,-,rfl⟩
  · refine sound_set hs hc rfl (hdist hs.distinct) (hd ▸ hs.positive c cl hc) fun topic n hn => ?_
    rw [hd]
    rcases hw topic n hn with hold | hlook
    · exact hs.locked c cl hc topic n hold
    · exact hlook
  · have hget : ∀ (d : ClientId) dl, (s.clients ++ [newClient])[d]? = some dl →
        dl = newClient ∨ s.clients[d]? = some dl := by
      intro d dl hdl
      rw [List.getElem?_append] at hdl
      split at hdl
      · exact .inr hdl
      · exact .inl (List.mem_singleton.mp (List.mem_of_getElem? hdl))
    refine ⟨hs.distinct,fun d dl hdl => ?_,fun d dl hdl => ?_⟩
    · rcases hget d dl hdl with rfl | hold
      · simp [newClient]
      · exact hs.positive d dl hold
    · rcases hget d dl hdl with rfl | hold
      · simp [newClient]
      · exact hs.locked d dl hold
  · refine sound_set hs hc rfl hs.distinct (pos_bump (hs.positive c cl hc) topic) fun u n hn => ?_
    exact absurd hn (not_noticing hfree u n)
  · exact ⟨hs.distinct,hs.positive,hs.locked⟩
  · exact sound_set hs hc rfl hs.distinct (hs.positive c cl hc) (hs.locked c cl hc)
  · exact ⟨hs.distinct,hs.positive,hs.locked⟩
  · refine sound_set hs hc rfl hs.distinct (pos_bump (hs.positive c cl hc) k.topic) fun u n hn => ?_
    exact absurd hn (not_noticing hfree u n)
  · refine sound_set hs hc rfl hs.distinct (fun u m hm => ?_) (by simp)
    by_cases hu : u = topic
    · subst hu
      simp at hm
    · rw [AList.lookup_erase_ne hu] at hm
      exact hs.positive c cl hc u m hm

theorem record_self (ledger : ClientId → String → Ledger) (c : ClientId) (topic : String) (f : Ledger → Ledger) :
    record ledger c topic f c topic = f (ledger c topic) := by
  simp [record]

theorem record_of_ne (ledger : ClientId → String → Ledger) {c d : ClientId} {topic u : String} (f : Ledger → Ledger)
    (h : ¬ (d = c ∧ u = topic)) : record ledger c topic f d u = ledger d u := by
  rw [record,if_neg h]

/-- A call that deals with one more client owes one message less. -/
theorem owes_remaining {k k' : Call π} {d : ClientId} {rest : List ClientId} (hrem : k.remaining = d :: rest)
    (hk : k' = { k with remaining := rest }) (c : ClientId) (topic : String) :
    k.owes c topic = k'.owes c topic+(if c = d ∧ topic = k.topic then 1 else 0) := by
  subst hk
  simp only [Call.owes,hrem,List.count_cons,beq_iff_eq]
  by_cases ht : k.topic = topic
  · by_cases hd : d = c
    · simp only [ht,hd,if_true,and_self]
      omega
    · simp only [ht,hd,Ne.symm hd,if_true,if_false,false_and,Nat.add_zero]
  · simp only [ht,Ne.symm ht,if_false,and_false]

section Accounts

variable {s t : State π} {c d : ClientId} {topic u : String} {cl cl' : Client π} {i : ℕ} {k k' : Call π}

theorem balanced_congr (hledger : t.ledger c topic = s.ledger c topic) (hpend : pending t c topic = pending s c topic)
    (hfly : inFlight t c topic = inFlight s c topic) : Balanced t c topic ↔ Balanced s c topic := by
  rw [Balanced,Balanced,hledger,hpend,hfly]

theorem inFlight_congr (h : t.calls = s.calls) : inFlight t c topic = inFlight s c topic := by
  rw [inFlight,inFlight,h]

theorem pending_keep (hc : s.clients[d]? = some cl) (hclients : t.clients = s.clients.set d cl')
    (hd : (cl'.dropped.lookup topic).getD 0 = (cl.dropped.lookup topic).getD 0) :
    pending t c topic = pending s c topic := by
  rw [pending_set hc hclients]
  split
  · rename_i he
    rw [he,pending_of_client hc,hd]
  · rfl

theorem pending_connect (h : t.clients = s.clients ++ [newClient]) : pending t c topic = pending s c topic := by
  by_cases hlt : c < s.clients.length
  · simp [pending,h,List.getElem?_append_left hlt]
  · have hnone : s.clients[c]? = none := List.getElem?_eq_none (Nat.not_lt.mp hlt)
    simp only [pending,h,hnone,List.getElem?_append_right (Nat.not_lt.mp hlt)]
    cases hnew : [newClient (π := π)][c-s.clients.length]? with
    | none => rfl
    | some cl =>
      obtain rfl := List.mem_singleton.mp (List.mem_of_getElem? hnew)
      rfl

theorem pending_bump (hc : s.clients[d]? = some cl) (hclients : t.clients = s.clients.set d cl')
    (hd : cl'.dropped = bump cl.dropped u) :
    pending t c topic = pending s c topic+(if c = d ∧ topic = u then 1 else 0) := by
  rw [pending_set hc hclients,hd,lookup_bump,← pending_of_client hc]
  by_cases hdc : c = d
  · subst hdc
    simp only [if_true,true_and]
  · simp only [hdc,if_false,false_and,Nat.add_zero]

theorem balanced_publish (hs : Sound s) (payload : π) {order : List ClientId}
    (hperm : order.Perm (members s.subscribers u)) (hclients : t.clients = s.clients)
    (hcalls : t.calls = s.calls ++ [⟨u,payload,order,none⟩])
    (hledger : t.ledger c topic = if topic = u ∧ c ∈ members s.subscribers u then
      { s.ledger c topic with published := (s.ledger c topic).published+1 } else s.ledger c topic)
    (hb : Balanced s c topic) : Balanced t c topic := by
  have hpend : pending t c topic = pending s c topic := by rw [pending,pending,hclients]
  have hcount : order.count c = if c ∈ members s.subscribers u then 1 else 0 := by
    rw [hperm.count_eq,(hs.distinct u).count]
  have hfly : inFlight t c topic = inFlight s c topic+(if topic = u ∧ c ∈ members s.subscribers u then 1 else 0) := by
    simp only [inFlight,hcalls,List.map_append,List.sum_append,List.map_singleton,List.sum_singleton,Call.owes,hcount,
      eq_comm (a := u),ite_and,reduceCtorEq,if_false,Nat.add_zero]
  unfold Balanced at hb ⊢
  rw [hfly,hpend,hledger]
  split
  · simp only
    omega
  · exact hb

theorem balanced_enqueue {rest : List ClientId} (hk : s.calls[i]? = some k) (hrem : k.remaining = d :: rest)
    (hcalls : t.calls = s.calls.set i { k with remaining := rest })
    (hledger : t.ledger = record s.ledger d k.topic fun e => { e with enqueued := e.enqueued+1 })
    (hpend : pending t c topic = pending s c topic) (hb : Balanced s c topic) : Balanced t c topic := by
  have hfly := inFlight_set (t := t) hk hcalls c topic
  have howes := owes_remaining hrem rfl c topic
  unfold Balanced at hb ⊢
  rw [hledger,hpend]
  by_cases hsame : c = d ∧ topic = k.topic
  · obtain ⟨rfl,rfl⟩ := hsame
    rw [record_self]
    simp only [and_self,if_true] at howes ⊢
    omega
  · rw [record_of_ne _ _ hsame]
    rw [if_neg hsame] at howes
    omega

theorem owes_counting {rest : List ClientId} (hnone : k.counting = none) (hrem : k.remaining = d :: rest) :
    ({ k with remaining := rest, counting := some d } : Call π).owes c topic = k.owes c topic := by
  simp only [Call.owes,hrem,hnone,List.count_cons,beq_iff_eq,Option.some.injEq,reduceCtorEq,if_false,Nat.add_zero]

theorem owes_counted (hsome : k.counting = some d) : k.owes c topic =
    ({ k with counting := none } : Call π).owes c topic+(if c = d ∧ topic = k.topic then 1 else 0) := by
  simp only [Call.owes,hsome,Option.some.injEq,eq_comm (a := d),eq_comm (a := k.topic),reduceCtorEq,if_false,
    Nat.add_zero]
  split <;> simp_all

theorem balanced_drop (hk : s.calls[i]? = some k) (hsome : k.counting = some d) (hc : s.clients[d]? = some cl)
    (hclients : t.clients = s.clients.set d cl') (hd : cl'.dropped = bump cl.dropped k.topic)
    (hcalls : t.calls = s.calls.set i { k with counting := none }) (hledger : t.ledger = s.ledger)
    (hb : Balanced s c topic) : Balanced t c topic := by
  have hpend : pending t c topic = pending s c topic+(if c = d ∧ topic = _ then 1 else 0) :=
    pending_bump hc hclients hd
  have hfly := inFlight_set (t := t) hk hcalls c topic
  have howes : k.owes c topic = _ := owes_counted hsome
  unfold Balanced at hb ⊢
  rw [hledger]
  omega

theorem balanced_count (hc : s.clients[d]? = some cl) (hclients : t.clients = s.clients.set d cl')
    (hd : cl'.dropped = bump cl.dropped u) (hcalls : t.calls = s.calls) (hledger : t.ledger = s.ledger)
    (hb : Balanced s c topic) : Balanced t c topic ↔ ¬ (c = d ∧ topic = u) := by
  have hpend : pending t c topic = pending s c topic+(if c = d ∧ topic = _ then 1 else 0) :=
    pending_bump hc hclients hd
  have hfly : inFlight t c topic = inFlight s c topic := inFlight_congr hcalls
  unfold Balanced at hb ⊢
  rw [hledger,hfly,hpend]
  split <;> simp_all

/-- A notice for another client or topic changes nothing here; one that is written reports the whole
counter, and one that is not forgets it. -/
theorem balanced_noticed (hs : Sound s) {n : ℕ} {ok : Bool} (hc : s.clients[d]? = some cl)
    (hwriter : cl.writer = .noticing u n) (hclients : t.clients = s.clients.set d cl')
    (hd : cl'.dropped = cl.dropped.erase u) (hcalls : t.calls = s.calls)
    (hledger : t.ledger = if ok then record s.ledger d u fun e => { e with notified := e.notified+n } else s.ledger)
    (hb : Balanced s c topic) : Balanced t c topic ↔ ok = true ∨ ¬ (c = d ∧ topic = u) := by
  have hfly : inFlight t c topic = inFlight s c topic := inFlight_congr hcalls
  have hlook := hs.locked d cl hc u n hwriter
  have hpos := hs.positive d cl hc u n hlook
  by_cases hsame : c = d ∧ topic = u
  · obtain ⟨rfl,rfl⟩ := hsame
    have hold : pending s c topic = n := by rw [pending_of_client hc,hlook,Option.getD_some]
    have hnew : pending t c topic = 0 := by
      rw [pending_set hc hclients,if_pos rfl,hd,AList.lookup_erase,Option.getD_none]
    unfold Balanced at hb ⊢
    cases ok with
    | true =>
      simp only [if_true] at hledger
      rw [hledger,record_self,hnew,hfly]
      refine ⟨fun _ => .inl rfl,fun _ => ?_⟩
      simp only
      omega
    | false =>
      simp only [Bool.false_eq_true,if_false] at hledger
      rw [hledger,hnew,hfly]
      simp only [Bool.false_eq_true,and_self,not_true_eq_false,or_self,iff_false]
      omega
  · have hkeep : pending t c topic = pending s c topic := by
      rw [pending_set hc hclients,hd]
      split
      · rename_i hdc
        rw [AList.lookup_erase_ne fun hu => hsame ⟨hdc,hu⟩,hdc,pending_of_client hc]
      · rfl
    have hsameLedger : t.ledger c topic = s.ledger c topic := by
      rw [hledger]
      split
      · exact record_of_ne _ _ hsame
      · rfl
    exact iff_of_true ((balanced_congr hsameLedger hkeep hfly).mpr hb) (.inr hsame)

end Accounts

/-- A step keeps the account of a client and a topic exactly when it is none of those that forget drops
or count answers as drops. -/
theorem balanced_step {s t : State π} {l : Label π} (hs : Sound s) (h : step s l = some t) (c : ClientId)
    (topic : String) (hb : Balanced s c topic) : Balanced t c topic ↔ Accounted c topic s l := by
  rcases step_cases h with ⟨_,⟨d,cl,cl',subs,hc,hd,-,-,ht⟩,hok⟩ | ht | ⟨d,cl,u,hc,hreader,-,ht⟩ |
    ⟨u,payload,order,hperm,ht⟩ | ⟨i,k,d,rest,cl,hk,hrem,hc,ht⟩ | ⟨i,k,d,rest,hk,hnone,hrem,ht⟩ |
    ⟨i,k,d,cl,hk,hsome,hc,-,ht⟩ | ⟨d,cl,u,n,ok,hc,hwriter,ht⟩
  · have hpend : pending t c topic = pending s c topic :=
      pending_keep hc (show _ = s.clients.set d cl' by rw [ht]; rfl) (by rw [hd])
    have hsame : Balanced t c topic ↔ Balanced s c topic :=
      balanced_congr (by rw [ht]; rfl) hpend (by rw [ht]; rfl)
    exact iff_of_true (hsame.mpr hb) (hok c topic)
  · have hpend : pending t c topic = pending s c topic := pending_connect (by rw [ht])
    exact iff_of_true ((balanced_congr (by rw [ht]) hpend (by rw [ht]; rfl)).mpr hb) trivial
  · rw [balanced_count (t := t) (u := u) hc (by rw [ht]; rfl) rfl (by rw [ht]; rfl) (by rw [ht]; rfl) hb]
    constructor
    · intro hne hdc cl' hcl' hcount
      rw [hc,Option.some_inj] at hcl'
      subst hcl'
      exact hne ⟨hdc.symm,(Reader.counting.inj (hreader.symm.trans hcount)).symm⟩
    · rintro hok ⟨rfl,rfl⟩
      exact hok rfl cl hc hreader
  · exact iff_of_true (balanced_publish hs payload hperm (by rw [ht]) (by rw [ht]) (by rw [ht]) hb) trivial
  · have hclients : t.clients =
        s.clients.set d { cl with send := cl.send ++ [⟨k.topic,.published k.payload⟩] } := by rw [ht]; rfl
    have hpend : pending t c topic = pending s c topic := pending_keep hc hclients rfl
    exact iff_of_true (balanced_enqueue hk hrem (by rw [ht]) (by rw [ht]) hpend hb) trivial
  · have hfly := inFlight_set (t := t) hk (by rw [ht]) c topic
    rw [owes_counting hnone hrem,Nat.add_right_cancel_iff] at hfly
    exact iff_of_true ((balanced_congr (by rw [ht]) (by rw [ht]; rfl) hfly).mpr hb) trivial
  · exact iff_of_true (balanced_drop hk hsome hc (by rw [ht]; rfl) rfl (by rw [ht]) (by rw [ht]; rfl) hb) trivial
  · have hbal : Balanced t c topic ↔ ok = true ∨ ¬ (c = d ∧ topic = u) :=
      balanced_noticed hs hc hwriter (by rw [ht]; rfl) rfl (by rw [ht]; rfl) (by rw [ht]) hb
    rw [hbal]
    constructor
    · rintro (rfl | hne) hdc hok cl' hcl' m hm
      · cases hok
      · rw [hc,Option.some_inj] at hcl'
        subst hcl'
        exact hne ⟨hdc.symm,(Writer.noticing.inj (hwriter.symm.trans hm)).1.symm⟩
    · intro hok
      by_contra hcon
      push Not at hcon
      obtain ⟨rfl,rfl⟩ := hcon.2
      exact hok rfl (Bool.eq_false_iff.mpr hcon.1) cl hc n hwriter

/-- Along a run the account of a client and a topic is balanced in every state exactly when no write of a
drop notice for the topic fails and no answer of the hub under that name is dropped. -/
theorem drops_accounted_iff (c : ClientId) (topic : String) {as : List (Label π)} {s : State π}
    (he : exec step init as = some s) :
    (∀ pre post u, as = pre ++ post → exec step init pre = some u → Balanced u c topic) ↔
      Along step (Accounted c topic) init as := by
  have hstart : Balanced (init : State π) c topic := by simp [Balanced,init,pending,inFlight]
  have hiff := forall_reached_iff (fun u => Sound u ∧ Balanced u c topic)
    (fun s l t hs hst => (and_iff_right (sound_step hs.1 hst)).trans (balanced_step hs.1 hst c topic hs.2))
    he ⟨sound_init,hstart⟩
  rw [← hiff]
  refine ⟨fun h pre post u has hu => ⟨?_,h pre post u has hu⟩,fun h pre post u has hu => (h pre post u has hu).2⟩
  exact (Run.of_exec_true hu).invariant Sound (fun _ _ _ hs _ hst => sound_step hs hst) sound_init

def progressTopic : String := "replay.rep_1.progress"

/-- So many answers of the hub to a client that reads none of them. -/
def pings : ℕ → List (Label ℕ)
  | 0 => []
  | n+1 => .receive 0 .ping :: .reply 0 :: pings n

/-- The answers fill the buffer of a client, and a message for it is dropped. -/
def overflow : List (Label ℕ) :=
  .connect :: .reply 0 :: .receive 0 (.subscribe progressTopic) :: .reply 0 ::
    (pings 254 ++ ([.publish progressTopic 7 [0],.offer 0,.drop 0] : List (Label ℕ)))

def noticeFails : List (Label ℕ) := overflow ++ ([.tick 0,.notice 0 progressTopic,.noticed 0 false] : List (Label ℕ))

def noticeArrives : List (Label ℕ) :=
  overflow ++ ([.tick 0,.notice 0 progressTopic,.noticed 0 true,.flushed 0,.take 0] : List (Label ℕ))

/-- The write of the notice fails and the counter is gone all the same. -/
theorem drop_forgotten :
    ∃ s ∈ exec step (init : State ℕ) noticeFails, ¬ Balanced s 0 progressTopic ∧
      s.ledger 0 progressTopic = ⟨1,0,0⟩ ∧ pending s 0 progressTopic = 0 ∧ inFlight s 0 progressTopic = 0 ∧
      0 ∈ members s.subscribers progressTopic := by
  decide +kernel

theorem drops_accounted_noticeArrives :
    ∃ s ∈ exec step (init : State ℕ) noticeArrives, s.ledger 0 progressTopic = ⟨1,0,1⟩ ∧
      Balanced s 0 progressTopic := by
  have h : ∃ s ∈ exec step (init : State ℕ) noticeArrives, s.ledger 0 progressTopic = ⟨1,0,1⟩ := by decide +kernel
  obtain ⟨s,hs,hledger⟩ := h
  have hall := (drops_accounted_iff 0 progressTopic (Option.mem_def.mp hs)).mpr (by decide +kernel)
  exact ⟨s,hs,hledger,hall noticeArrives [] s (by simp) (Option.mem_def.mp hs)⟩

end DropNotices
end Clearvoiance
