import Clearvoiance.Hub
import Clearvoiance.Transition

/-! The dashboard's WebSocket client and the hub's topic table.  The client keeps its handlers by topic,
subscribes anew whenever a connection opens and sends nothing while it is not open; the hub reads the
requests of each connection in order.  Connections of other clients run beside the dashboard's. -/
namespace Clearvoiance
namespace Subscriptions

open Transition Hub

variable {π : Type*}

inductive ReadyState
  | connecting
  | isOpen
  | closing
  | closed
  deriving DecidableEq

/-- A handler is the identity of a function object. -/
abbrev HandlerId := ℕ

/-- The variables of `createWSClient`; `conn` is the connection that `ws` refers to and `timer` the delay
of a pending reconnect. -/
structure Dashboard where
  handlers : List (String × List HandlerId)
  pendingSubscribes : List String
  reconnectAttempt : ℕ
  closed : Bool
  conn : ClientId
  readyState : ReadyState
  timer : Option ℕ
  deriving DecidableEq

/-- The handler of a connection on the hub's side. -/
inductive Server
  | pending
  | reading
  | returned
  deriving DecidableEq

/-- A connection with what is under way on it in each direction; `dashboard` tells whose it is. -/
structure Conn (π : Type*) where
  dashboard : Bool
  server : Server
  up : List Request
  down : List (Outgoing π)
  deriving DecidableEq

structure State (π : Type*) where
  dashboard : Dashboard
  conns : List (Conn π)
  subscribers : Subscribers
  deriving DecidableEq

def newConn (dashboard : Bool) : Conn π := ⟨dashboard,.pending,[],[]⟩

/-- `createWSClient` connects at once. -/
def init : State π := ⟨⟨[],[],0,false,0,.connecting,none⟩,[newConn true],∅⟩

def Dashboard.topics (d : Dashboard) : List String := d.handlers.map Prod.fst

/-- The set of a topic is replaced in place. -/
def setAt (topic : String) (set : List HandlerId) (handlers : List (String × List HandlerId)) :
    List (String × List HandlerId) := handlers.map fun p => if p.1 = topic then (topic,set) else p

/-- `send`: nothing unless the socket is open. -/
def Dashboard.send (d : Dashboard) (r : Request) : List Request := if d.readyState = .isOpen then [r] else []

def Dashboard.subscribe (d : Dashboard) (topic : String) (handler : HandlerId) : Dashboard × List Request :=
  match d.handlers.lookup topic with
  | none =>
    ({ d with
      handlers := d.handlers ++ [(topic,[handler])]
      pendingSubscribes := d.pendingSubscribes.insert topic },d.send (.subscribe topic))
  | some set =>
    ({ d with handlers := setAt topic (if handler ∈ set then set else set ++ [handler]) d.handlers },[])

/-- The callback that `subscribe` returns. -/
def Dashboard.unsubscribe (d : Dashboard) (topic : String) (handler : HandlerId) : Dashboard × List Request :=
  match d.handlers.lookup topic with
  | none => (d,[])
  | some set =>
    if set.filter (· ≠ handler) = [] then
      ({ d with handlers := d.handlers.filter fun p => p.1 ≠ topic },d.send (.unsubscribe topic))
    else ({ d with handlers := setAt topic (set.filter (· ≠ handler)) d.handlers },[])

def Dashboard.onOpen (d : Dashboard) : Dashboard × List Request :=
  ({ d with
    readyState := .isOpen
    reconnectAttempt := 0
    pendingSubscribes := d.pendingSubscribes.filter (· ∉ d.topics) },d.topics.map .subscribe)

def Dashboard.onClose (d : Dashboard) : Dashboard :=
  if d.closed then { d with readyState := .closed }
  else { d with
    readyState := .closed
    timer := some (min 10000 (500*2^d.reconnectAttempt))
    reconnectAttempt := d.reconnectAttempt+1 }

def Dashboard.closeSocket (d : Dashboard) : Dashboard :=
  if d.readyState = .closed then d else { d with readyState := .closing }

/-- `subscribe` to `lost` are the dashboard's calls and events, `accept` to `readError` the hub's.  `kept`
tells whether the answer found room in the client's buffer; `push` is a published message that did.
`visit` and `request` are another client's. -/
inductive Label (π : Type*)
  | subscribe (topic : String) (handler : HandlerId)
  | unsubscribe (topic : String) (handler : HandlerId)
  | close
  | connect
  | opened
  | receive
  | fail
  | lost
  | accept (c : ClientId)
  | deliver (c : ClientId) (kept : Bool)
  | push (c : ClientId) (topic : String) (payload : π)
  | readError (c : ClientId)
  | visit
  | request (c : ClientId) (r : Request)

/-- The dashboard after a call or an event, and what it sends on its connection. -/
def State.act (s : State π) (next : Dashboard × List Request) : State π :=
  { s with
    dashboard := next.1
    conns := s.conns.modify s.dashboard.conn fun cn => { cn with up := cn.up ++ next.2 } }

def State.setConn (s : State π) (c : ClientId) (cn : Conn π) : State π := { s with conns := s.conns.set c cn }

def step (s : State π) : Label π → Option (State π)
  | .subscribe topic handler => if topic = "" then none else some (s.act (s.dashboard.subscribe topic handler))
  | .unsubscribe topic handler => some (s.act (s.dashboard.unsubscribe topic handler))
  | .close => some { s with dashboard := { s.dashboard.closeSocket with closed := true } }
  | .connect =>
    if s.dashboard.timer.isNone then none
    else if s.dashboard.closed then some { s with dashboard := { s.dashboard with timer := none } }
    else some { s with
      dashboard := { s.dashboard with timer := none, conn := s.conns.length, readyState := .connecting }
      conns := s.conns ++ [newConn true] }
  | .opened => do
    let cn ← s.conns[s.dashboard.conn]?
    if s.dashboard.readyState = .connecting ∧ cn.server ≠ .pending then some (s.act s.dashboard.onOpen) else none
  | .receive => do
    let cn ← s.conns[s.dashboard.conn]?
    match cn.down with
    | _ :: down =>
      if s.dashboard.readyState = .isOpen then some (s.setConn s.dashboard.conn { cn with down := down }) else none
    | [] => none
  | .fail => some { s with dashboard := s.dashboard.closeSocket }
  | .lost => if s.dashboard.readyState = .closed then none else some { s with dashboard := s.dashboard.onClose }
  | .accept c => do
    let cn ← s.conns[c]?
    if cn.server = .pending then some (s.setConn c { cn with server := .reading, down := cn.down ++ [⟨"__auth",.ok⟩] })
    else none
  | .deliver c kept => do
    let cn ← s.conns[c]?
    match cn.server,cn.up with
    | .reading,r :: up =>
      let (subscribers,reply) := handle s.subscribers c r
      some { s.setConn c { cn with up := up, down := cn.down ++ (if kept then reply.toList else []) } with
        subscribers := subscribers }
    | _,_ => none
  | .push c topic payload => do
    let cn ← s.conns[c]?
    if cn.server = .reading then some (s.setConn c { cn with down := cn.down ++ [⟨topic,.published payload⟩] }) else none
  | .readError c => do
    let cn ← s.conns[c]?
    if cn.server = .reading then
      some { s.setConn c { cn with server := .returned } with subscribers := removeAll s.subscribers c }
    else none
  | .visit => some { s with conns := s.conns ++ [newConn false] }
  | .request c r => do
    let cn ← s.conns[c]?
    if cn.dashboard then none else some (s.setConn c { cn with up := cn.up ++ [r] })

/-- What a request makes of a topic's being registered. -/
def Request.effect (topic : String) (registered : Prop) : Request → Prop
  | .subscribe u => if u = topic ∧ u ≠ "" then True else registered
  | .unsubscribe u => if u = topic ∧ u ≠ "" then False else registered
  | _ => registered

/-- What the requests under way will make of it. -/
def settles (up : List Request) (topic : String) (registered : Prop) : Prop :=
  up.foldl (Request.effect topic) registered

theorem settles_append (up : List Request) (r : Request) (topic : String) (registered : Prop) :
    settles (up ++ [r]) topic registered = Request.effect topic (settles up topic registered) r := by
  rw [settles,List.foldl_append]
  rfl

theorem settles_subscribes {topics : List String} (hnamed : "" ∉ topics) (topic : String) (registered : Prop) :
    settles (topics.map .subscribe) topic registered ↔ registered ∨ topic ∈ topics := by
  induction topics generalizing registered with
  | nil => simp [settles]
  | cons u topics ih =>
    obtain ⟨hu,htopics⟩ := List.ne_and_not_mem_of_not_mem_cons hnamed
    have hrest := ih htopics (Request.effect topic registered (.subscribe u))
    rw [List.map_cons,settles,List.foldl_cons,← settles,hrest,List.mem_cons]
    by_cases he : u = topic
    · subst he
      simp [Request.effect,Ne.symm hu]
    · simp [Request.effect,he,Ne.symm he]

/-- The hub does with a request what the request says, for its own client and no other. -/
theorem mem_members_handle (s : Subscribers) (c d : ClientId) (topic : String) (r : Request) :
    d ∈ members (handle (π := π) s c r).1 topic ↔
      if d = c then Request.effect topic (d ∈ members s topic) r else d ∈ members s topic := by
  cases r with
  | ping | unknown | undecodable text => simp [handle,Request.effect]
  | subscribe u =>
    by_cases hu : u = ""
    · simp [handle,Request.effect,hu]
    · simp only [handle,hu,if_false,mem_members_add,Request.effect]
      by_cases hd : d = c
      · by_cases ht : u = topic
        · subst ht
          simp [hd,hu]
        · simp [hd,ht,Ne.symm ht]
      · simp [hd]
  | unsubscribe u =>
    by_cases hu : u = ""
    · simp [handle,Request.effect,hu]
    · simp only [handle,hu,if_false,mem_members_remove,Request.effect]
      by_cases hd : d = c
      · by_cases ht : u = topic
        · subst ht
          simp [hd,hu]
        · simp [hd,ht,Ne.symm ht]
      · simp [hd]

/-- A call changes the topics as the request says that it sends, if it sends one. -/
def Follows (d : Dashboard) (next : Dashboard × List Request) : Prop :=
  next.1.readyState = d.readyState ∧ next.1.conn = d.conn ∧
    ((next.2 = [] ∧ ∀ t, t ∈ next.1.topics ↔ t ∈ d.topics) ∨
      ∃ r, next.2 = d.send r ∧ ∀ t, t ∈ next.1.topics ↔ Request.effect t (t ∈ d.topics) r)

theorem topics_setAt (topic : String) (set : List HandlerId) (handlers : List (String × List HandlerId)) :
    (setAt topic set handlers).map Prod.fst = handlers.map Prod.fst := by
  rw [setAt,List.map_map]
  refine List.map_congr_left fun p _ => ?_
  simp only [Function.comp]
  split
  · exact Eq.symm ‹_›
  · rfl

theorem follows_subscribe (d : Dashboard) {topic : String} (h : topic ≠ "") (handler : HandlerId) :
    Follows d (d.subscribe topic handler) := by
  unfold Dashboard.subscribe
  cases d.handlers.lookup topic with
  | none =>
    refine ⟨rfl,rfl,.inr ⟨.subscribe topic,rfl,fun t => ?_⟩⟩
    simp only [Dashboard.topics,List.map_append,List.map_cons,List.map_nil,List.mem_append,List.mem_singleton,
      Request.effect,h,ne_eq,not_false_eq_true,and_true]
    by_cases ht : topic = t
    · simp [ht]
    · simp [ht,Ne.symm ht]
  | some set => exact ⟨rfl,rfl,.inl ⟨rfl,fun t => by simp only [Dashboard.topics,topics_setAt]⟩⟩

theorem follows_unsubscribe (d : Dashboard) (hnamed : "" ∉ d.topics) (topic : String) (handler : HandlerId) :
    Follows d (d.unsubscribe topic handler) := by
  unfold Dashboard.unsubscribe
  cases hl : d.handlers.lookup topic with
  | none => exact ⟨rfl,rfl,.inl ⟨rfl,fun t => Iff.rfl⟩⟩
  | some set =>
    obtain ⟨l,r,hd,-⟩ := List.lookup_eq_some_iff.mp hl
    have hne : topic ≠ "" := by
      rintro rfl
      exact hnamed (by simp [Dashboard.topics,hd])
    simp only
    split
    · refine ⟨rfl,rfl,.inr ⟨.unsubscribe topic,rfl,fun t => ?_⟩⟩
      have hfilter : t ∈ (d.handlers.filter fun p => p.1 ≠ topic).map Prod.fst ↔ t ∈ d.topics ∧ t ≠ topic := by
        simp only [Dashboard.topics,List.mem_map,List.mem_filter,decide_eq_true_eq]
        constructor
        · rintro ⟨p,⟨hp,hne⟩,rfl⟩
          exact ⟨⟨p,hp,rfl⟩,hne⟩
        · rintro ⟨⟨p,hp,rfl⟩,hne⟩
          exact ⟨p,⟨hp,hne⟩,rfl⟩
      simp only [Dashboard.topics] at hfilter ⊢
      rw [hfilter]
      by_cases ht : topic = t
      · subst ht
        simp [Request.effect,hne]
      · simp [Request.effect,ht,Ne.symm ht]
    · exact ⟨rfl,rfl,.inl ⟨rfl,fun t => by simp only [Dashboard.topics,topics_setAt]⟩⟩

/-- What the client wants is what the hub has once the requests under way have arrived. -/
structure Agrees (s : State π) : Prop where
  current : ∃ cn, s.conns[s.dashboard.conn]? = some cn ∧ cn.dashboard = true
  named : "" ∉ s.dashboard.topics
  fresh : s.dashboard.readyState = .connecting → ∀ cn, s.conns[s.dashboard.conn]? = some cn →
    cn.up = [] ∧ ∀ t, s.dashboard.conn ∉ members s.subscribers t
  settled : s.dashboard.readyState = .isOpen → ∀ cn, s.conns[s.dashboard.conn]? = some cn →
    cn.server ≠ .pending ∧ (cn.server = .reading →
      ∀ t, settles cn.up t (s.dashboard.conn ∈ members s.subscribers t) ↔ t ∈ s.dashboard.topics)
  live : ∀ t c, c ∈ members s.subscribers t → ∃ cn, s.conns[c]? = some cn ∧ cn.server = .reading
  nonempty : NoEmptyTopic s.subscribers

theorem effect_empty (registered : Prop) (r : Request) : Request.effect "" registered r = registered := by
  cases r with
  | subscribe u | unsubscribe u =>
    by_cases hu : u = "" <;> simp [Request.effect,hu]
  | ping | unknown | undecodable text => rfl

theorem conns_act (s : State π) (next : Dashboard × List Request) (c : ClientId) : (s.act next).conns[c]? =
    if c = s.dashboard.conn then (s.conns[c]?).map fun cn => { cn with up := cn.up ++ next.2 } else s.conns[c]? := by
  rw [State.act,List.getElem?_modify]
  cases s.conns[c]? with
  | none => simp
  | some cn =>
    by_cases hc : c = s.dashboard.conn
    · simp [hc]
    · simp [hc,Ne.symm hc]

theorem conns_setConn {s : State π} {c : ClientId} {cn : Conn π} (h : s.conns[c]? = some cn) (cn' : Conn π)
    (d : ClientId) : (s.setConn c cn').conns[d]? = if d = c then some cn' else s.conns[d]? := by
  obtain ⟨hlt,-⟩ := List.getElem?_eq_some_iff.mp h
  by_cases hd : d = c
  · subst hd
    rw [if_pos rfl,State.setConn,List.getElem?_set_self hlt]
  · rw [if_neg hd,State.setConn,List.getElem?_set_ne (Ne.symm hd)]

/-- An act of the dashboard leaves the hub's side of every connection. -/
theorem live_act {s : State π} (hs : Agrees s) (next : Dashboard × List Request) (t : String) (c : ClientId)
    (h : c ∈ members s.subscribers t) : ∃ cn, (s.act next).conns[c]? = some cn ∧ cn.server = .reading := by
  obtain ⟨cn,hcn,hserver⟩ := hs.live t c h
  rw [conns_act,hcn]
  split
  · exact ⟨_,rfl,hserver⟩
  · exact ⟨cn,rfl,hserver⟩

theorem agrees_call {s : State π} (hs : Agrees s) {next : Dashboard × List Request} (h : Follows s.dashboard next) :
    Agrees (s.act next) := by
  obtain ⟨hready,hconn,htopics⟩ := h
  obtain ⟨cn,hcn,hmine⟩ := hs.current
  have hget : (s.act next).conns[next.1.conn]? = some { cn with up := cn.up ++ next.2 } := by
    rw [conns_act,hconn,if_pos rfl,hcn]
    rfl
  refine ⟨⟨_,hget,hmine⟩,?_,?_,?_,live_act hs next,hs.nonempty⟩
  · rcases htopics with ⟨-,hsame⟩ | ⟨r,-,heffect⟩
    · exact fun hmem => hs.named ((hsame "").mp hmem)
    · intro hmem
      have hold := (heffect "").mp hmem
      rw [effect_empty] at hold
      exact hs.named hold
  · intro hc cn' hcn'
    have hcn' := Option.some.inj (hget.symm.trans hcn')
    subst hcn'
    have hstate : s.dashboard.readyState = .connecting := hready ▸ hc
    obtain ⟨hup,hnone⟩ := hs.fresh hstate cn hcn
    refine ⟨?_,hconn ▸ hnone⟩
    rcases htopics with ⟨hnil,-⟩ | ⟨r,hsend,-⟩
    · simp [hup,hnil]
    · simp [hup,hsend,Dashboard.send,hstate]
  · intro hc cn' hcn'
    have hcn' := Option.some.inj (hget.symm.trans hcn')
    subst hcn'
    have hstate : s.dashboard.readyState = .isOpen := hready ▸ hc
    obtain ⟨hserver,hsettled⟩ := hs.settled hstate cn hcn
    refine ⟨hserver,fun hreading t => ?_⟩
    have hold := hsettled hreading t
    change settles (cn.up ++ next.2) t (next.1.conn ∈ members s.subscribers t) ↔ t ∈ next.1.topics
    rw [hconn]
    rcases htopics with ⟨hnil,hsame⟩ | ⟨r,hsend,heffect⟩
    · rw [hnil,List.append_nil,hsame]
      exact hold
    · rw [hsend,Dashboard.send,if_pos hstate,settles_append,propext hold,heffect]

theorem agrees_opened {s : State π} (hs : Agrees s) {cn : Conn π} (hcn : s.conns[s.dashboard.conn]? = some cn)
    (hstate : s.dashboard.readyState = .connecting) (hserver : cn.server ≠ .pending) :
    Agrees (s.act s.dashboard.onOpen) := by
  obtain ⟨cn₀,hcn₀,hmine⟩ := hs.current
  obtain rfl := Option.some.inj (hcn₀.symm.trans hcn)
  obtain ⟨hup,hnone⟩ := hs.fresh hstate _ hcn
  have hget : (s.act s.dashboard.onOpen).conns[s.dashboard.conn]? =
      some { cn₀ with up := s.dashboard.topics.map .subscribe } := by
    rw [conns_act,if_pos rfl,hcn]
    simp [Dashboard.onOpen,hup]
  refine ⟨⟨_,hget,hmine⟩,hs.named,?_,?_,live_act hs _,hs.nonempty⟩
  · exact fun hc => ReadyState.noConfusion hc
  · intro _ cn' hcn'
    have hcn' := Option.some.inj (hget.symm.trans hcn')
    subst hcn'
    refine ⟨hserver,fun _ t => ?_⟩
    change settles (s.dashboard.topics.map .subscribe) t (s.dashboard.conn ∈ members s.subscribers t) ↔ _
    rw [settles_subscribes hs.named,or_iff_right (hnone t)]
    rfl

/-- A dashboard that is not open has no say about the topics of its connection. -/
theorem agrees_idle {s : State π} (hs : Agrees s) {d : Dashboard} (hconn : d.conn = s.dashboard.conn)
    (htopics : d.topics = s.dashboard.topics) (hstate : d.readyState = .closing ∨ d.readyState = .closed) :
    Agrees { s with dashboard := d } := by
  have hidle : d.readyState ≠ .connecting ∧ d.readyState ≠ .isOpen := by
    rcases hstate with h | h <;> simp [h]
  refine ⟨?_,?_,fun h => absurd h hidle.1,fun h => absurd h hidle.2,hs.live,hs.nonempty⟩
  · simpa [hconn] using hs.current
  · rw [htopics]
    exact hs.named

/-- What happens on the wire or in the hub of a connection, in its topics' favour. -/
theorem agrees_conn {s : State π} (hs : Agrees s) {c : ClientId} {cn cn' : Conn π} {subscribers : Subscribers}
    (h : s.conns[c]? = some cn) (hmine : cn'.dashboard = cn.dashboard)
    (hother : ∀ d t, d ≠ c → (d ∈ members subscribers t ↔ d ∈ members s.subscribers t))
    (hfresh : cn.up = [] → (∀ t, c ∉ members s.subscribers t) → cn.dashboard = true →
      cn'.up = [] ∧ ∀ t, c ∉ members subscribers t)
    (hsettled : cn.server ≠ .pending → cn.dashboard = true → cn'.server ≠ .pending ∧
      (cn'.server = .reading → cn.server = .reading ∧
        ∀ t, settles cn'.up t (c ∈ members subscribers t) ↔ settles cn.up t (c ∈ members s.subscribers t)))
    (hlive : ∀ t, c ∈ members subscribers t → cn'.server = .reading) (hempty : NoEmptyTopic subscribers) :
    Agrees { s.setConn c cn' with subscribers := subscribers } := by
  have hget := conns_setConn h cn'
  obtain ⟨cn₀,hcn₀,hmine₀⟩ := hs.current
  refine ⟨?_,hs.named,fun hstate cn₁ hcn₁ => ?_,fun hstate cn₁ hcn₁ => ?_,fun t d hd => ?_,hempty⟩
  · by_cases hc : s.dashboard.conn = c
    · refine ⟨cn',(hget _).trans (if_pos hc),?_⟩
      rw [hc,h,Option.some_inj] at hcn₀
      rw [hmine,hcn₀,hmine₀]
    · exact ⟨cn₀,((hget _).trans (if_neg hc)).trans hcn₀,hmine₀⟩
  · by_cases hc : s.dashboard.conn = c
    · obtain rfl := Option.some.inj (((hget _).trans (if_pos hc)).symm.trans hcn₁)
      have hcn : cn₀ = cn := Option.some.inj (hcn₀.symm.trans (hc ▸ h))
      obtain ⟨hup,hnone⟩ := hs.fresh hstate cn₀ hcn₀
      rw [hcn] at hup hmine₀
      obtain ⟨hup',hnone'⟩ := hfresh hup (hc ▸ hnone) hmine₀
      exact ⟨hup',fun t => hc ▸ hnone' t⟩
    · have hcn₁ : s.conns[s.dashboard.conn]? = some cn₁ := ((hget _).trans (if_neg hc)).symm.trans hcn₁
      obtain ⟨hup,hnone⟩ := hs.fresh hstate cn₁ hcn₁
      exact ⟨hup,fun t hmem => hnone t ((hother _ t hc).mp hmem)⟩
  · by_cases hc : s.dashboard.conn = c
    · obtain rfl := Option.some.inj (((hget _).trans (if_pos hc)).symm.trans hcn₁)
      have hcn : cn₀ = cn := Option.some.inj (hcn₀.symm.trans (hc ▸ h))
      obtain ⟨hserver,hagree⟩ := hs.settled hstate cn₀ hcn₀
      rw [hcn] at hserver hagree hmine₀
      obtain ⟨hserver',hkeep⟩ := hsettled hserver hmine₀
      refine ⟨hserver',fun hreading t => ?_⟩
      obtain ⟨hold,heq⟩ := hkeep hreading
      have hall := hagree hold t
      change settles cn'.up t (s.dashboard.conn ∈ members subscribers t) ↔ t ∈ s.dashboard.topics
      rw [hc] at hall ⊢
      exact (heq t).trans hall
    · have hcn₁ : s.conns[s.dashboard.conn]? = some cn₁ := ((hget _).trans (if_neg hc)).symm.trans hcn₁
      obtain ⟨hserver,hagree⟩ := hs.settled hstate cn₁ hcn₁
      refine ⟨hserver,fun hreading t => ?_⟩
      change settles cn₁.up t (s.dashboard.conn ∈ members subscribers t) ↔ t ∈ s.dashboard.topics
      rw [propext (hother _ t hc)]
      exact hagree hreading t
  · by_cases hc : d = c
    · exact ⟨cn',(hget d).trans (if_pos hc),hlive t (hc ▸ hd)⟩
    · obtain ⟨cn₁,hcn₁,hserver⟩ := hs.live t d ((hother d t hc).mp hd)
      exact ⟨cn₁,((hget d).trans (if_neg hc)).trans hcn₁,hserver⟩

theorem getElem?_newConn {s : State π} {c : ClientId} {cn : Conn π} (b : Bool) (h : s.conns[c]? = some cn) :
    (s.conns ++ [newConn b])[c]? = some cn := by
  obtain ⟨hlt,-⟩ := List.getElem?_eq_some_iff.mp h
  rw [List.getElem?_append_left hlt,h]

theorem agrees_connect {s : State π} (hs : Agrees s) {d : Dashboard} (hconn : d.conn = s.conns.length)
    (htopics : d.topics = s.dashboard.topics) (hstate : d.readyState = .connecting) :
    Agrees { s with dashboard := d, conns := s.conns ++ [newConn true] } := by
  have hget : (s.conns ++ [newConn true])[d.conn]? = some (newConn (π := π) true) := by
    rw [hconn,List.getElem?_concat_length]
  have hnone : ∀ t, d.conn ∉ members s.subscribers t := by
    intro t hmem
    obtain ⟨cn,hcn,-⟩ := hs.live t d.conn hmem
    obtain ⟨hlt,-⟩ := List.getElem?_eq_some_iff.mp hcn
    exact absurd hlt (by rw [hconn]; exact Nat.lt_irrefl _)
  refine ⟨⟨_,hget,rfl⟩,?_,fun _ cn hcn => ?_,fun h => ?_,fun t c hc => ?_,hs.nonempty⟩
  · rw [htopics]
    exact hs.named
  · obtain rfl := Option.some.inj (hget.symm.trans hcn)
    exact ⟨rfl,hnone⟩
  · exact absurd (hstate.symm.trans h) (by simp)
  · obtain ⟨cn,hcn,hserver⟩ := hs.live t c hc
    exact ⟨cn,getElem?_newConn true hcn,hserver⟩

theorem agrees_visit {s : State π} (hs : Agrees s) : Agrees { s with conns := s.conns ++ [newConn false] } := by
  obtain ⟨cn,hcn,hmine⟩ := hs.current
  have hget := getElem?_newConn false hcn
  refine ⟨⟨cn,hget,hmine⟩,hs.named,fun hstate cn' hcn' => ?_,fun hstate cn' hcn' => ?_,fun t c hc => ?_,hs.nonempty⟩
  · obtain rfl := Option.some.inj (hget.symm.trans hcn')
    exact hs.fresh hstate cn hcn
  · obtain rfl := Option.some.inj (hget.symm.trans hcn')
    exact hs.settled hstate cn hcn
  · obtain ⟨cn',hcn',hserver⟩ := hs.live t c hc
    exact ⟨cn',getElem?_newConn false hcn',hserver⟩

theorem topics_closeSocket (d : Dashboard) : d.closeSocket.conn = d.conn ∧ d.closeSocket.topics = d.topics ∧
    (d.closeSocket.readyState = .closing ∨ d.closeSocket.readyState = .closed) := by
  unfold Dashboard.closeSocket
  split
  · exact ⟨rfl,rfl,.inr ‹_›⟩
  · exact ⟨rfl,rfl,.inl rfl⟩

theorem topics_onClose (d : Dashboard) :
    d.onClose.conn = d.conn ∧ d.onClose.topics = d.topics ∧ d.onClose.readyState = .closed := by
  unfold Dashboard.onClose
  split <;> exact ⟨rfl,rfl,rfl⟩

theorem agrees_init : Agrees (init : State π) := by
  refine ⟨⟨newConn true,rfl,rfl⟩,by simp [init,Dashboard.topics],fun _ cn hcn => ?_,fun h => ?_,by simp [init,members],
    fun topic => by simp [init]⟩
  · obtain rfl := Option.some.inj hcn
    exact ⟨rfl,by simp [init,members]⟩
  · exact ReadyState.noConfusion h

/-- The hub's topics are left alone while something moves on a connection of which it has read nothing. -/
theorem agrees_wire {s : State π} (hs : Agrees s) {c : ClientId} {cn cn' : Conn π} (h : s.conns[c]? = some cn)
    (hmine : cn'.dashboard = cn.dashboard) (hup : cn.dashboard = true → cn'.up = cn.up)
    (hserver : cn'.server = cn.server ∨ (cn.server = .pending ∧ cn'.server = .reading)) :
    Agrees (s.setConn c cn') := by
  have hreading : ∀ t, c ∈ members s.subscribers t → cn.server = .reading := by
    intro t hmem
    obtain ⟨cn₁,hcn₁,hread⟩ := hs.live t c hmem
    rwa [Option.some.inj (hcn₁.symm.trans h)] at hread
  refine agrees_conn hs h hmine (fun _ _ _ => Iff.rfl) (fun hnil hnone hd => ⟨(hup hd).trans hnil,hnone⟩)
    ?_ ?_ hs.nonempty
  · intro hne hd
    rcases hserver with hsame | ⟨hpending,-⟩
    · rw [hsame,hup hd]
      exact ⟨hne,fun hread => ⟨hread,fun _ => Iff.rfl⟩⟩
    · exact absurd hpending hne
  · intro t hmem
    rcases hserver with hsame | ⟨-,hread⟩
    · rw [hsame]
      exact hreading t hmem
    · exact hread

theorem agrees_deliver {s : State π} (hs : Agrees s) {c : ClientId} {cn : Conn π} (h : s.conns[c]? = some cn)
    (hread : cn.server = .reading) {r : Request} {up : List Request} (hup : cn.up = r :: up)
    (down : List (Outgoing π)) :
    Agrees { s.setConn c { cn with up := up, down := down } with
      subscribers := (handle (π := π) s.subscribers c r).1 } := by
  refine agrees_conn hs h rfl (fun d t hd => ?_) (fun hnil => ?_) (fun hne _ => ⟨hne,fun _ => ⟨hread,fun t => ?_⟩⟩)
    (fun _ _ => hread) (noEmptyTopic_handle hs.nonempty c r)
  · rw [mem_members_handle,if_neg hd]
  · rw [hup] at hnil
    cases hnil
  · have hmem := propext (mem_members_handle (π := π) s.subscribers c c t r)
    rw [if_pos rfl] at hmem
    rw [hup,hmem]
    rfl

theorem agrees_readError {s : State π} (hs : Agrees s) {c : ClientId} {cn : Conn π} (h : s.conns[c]? = some cn) :
    Agrees { s.setConn c { cn with server := .returned } with subscribers := removeAll s.subscribers c } := by
  have hgone : ∀ t, c ∉ members (removeAll s.subscribers c) t := fun t hmem => (mem_members_removeAll.mp hmem).2 rfl
  refine agrees_conn hs h rfl (fun d t hd => ?_) (fun hnil _ _ => ⟨hnil,hgone⟩)
    (fun _ _ => ⟨by simp,fun hread => Server.noConfusion hread⟩) (fun t hmem => absurd hmem (hgone t))
    (noEmptyTopic_removeAll hs.nonempty c)
  rw [mem_members_removeAll,and_iff_left hd]

theorem agrees_step {s t : State π} {l : Label π} (hs : Agrees s) (h : step s l = some t) : Agrees t := by
  cases l with
  | subscribe topic handler =>
    simp only [step,Option.ite_none_left_eq_some,Option.some.injEq] at h
    rw [← h.2]
    exact agrees_call hs (follows_subscribe s.dashboard h.1 handler)
  | unsubscribe topic handler =>
    simp only [step,Option.some.injEq] at h
    rw [← h]
    exact agrees_call hs (follows_unsubscribe s.dashboard hs.named topic handler)
  | close =>
    simp only [step,Option.some.injEq] at h
    rw [← h]
    obtain ⟨hconn,htopics,hstate⟩ := topics_closeSocket s.dashboard
    exact agrees_idle hs (d := { s.dashboard.closeSocket with closed := true }) hconn htopics hstate
  | connect =>
    simp only [step] at h
    split at h
    · cases h
    · split at h
      · cases h
        exact ⟨hs.current,hs.named,hs.fresh,hs.settled,hs.live,hs.nonempty⟩
      · cases h
        exact agrees_connect hs rfl rfl rfl
  | opened =>
    simp only [step,Option.bind_eq_bind,Option.bind_eq_some_iff,Option.ite_none_right_eq_some,Option.some.injEq] at h
    obtain ⟨cn,hcn,⟨hstate,hserver⟩,rfl⟩ := h
    exact agrees_opened hs hcn hstate hserver
  | receive =>
    simp only [step,Option.bind_eq_bind,Option.bind_eq_some_iff] at h
    obtain ⟨cn,hcn,h⟩ := h
    split at h
    · simp only [Option.ite_none_right_eq_some,Option.some.injEq] at h
      rw [← h.2]
      exact agrees_wire hs hcn rfl (fun _ => rfl) (.inl rfl)
    · cases h
  | fail =>
    simp only [step,Option.some.injEq] at h
    rw [← h]
    obtain ⟨hconn,htopics,hstate⟩ := topics_closeSocket s.dashboard
    exact agrees_idle hs hconn htopics hstate
  | lost =>
    simp only [step,Option.ite_none_left_eq_some,Option.some.injEq] at h
    rw [← h.2]
    obtain ⟨hconn,htopics,hstate⟩ := topics_onClose s.dashboard
    exact agrees_idle hs hconn htopics (.inr hstate)
  | accept c =>
    simp only [step,Option.bind_eq_bind,Option.bind_eq_some_iff,Option.ite_none_right_eq_some,Option.some.injEq] at h
    obtain ⟨cn,hcn,hpending,rfl⟩ := h
    exact agrees_wire hs hcn rfl (fun _ => rfl) (.inr ⟨hpending,rfl⟩)
  | deliver c kept =>
    simp only [step,Option.bind_eq_bind,Option.bind_eq_some_iff] at h
    obtain ⟨cn,hcn,h⟩ := h
    split at h
    · cases h
      exact agrees_deliver hs hcn ‹_› ‹_› _
    · cases h
  | push c topic payload =>
    simp only [step,Option.bind_eq_bind,Option.bind_eq_some_iff,Option.ite_none_right_eq_some,Option.some.injEq] at h
    obtain ⟨cn,hcn,-,rfl⟩ := h
    exact agrees_wire hs hcn rfl (fun _ => rfl) (.inl rfl)
  | readError c =>
    simp only [step,Option.bind_eq_bind,Option.bind_eq_some_iff,Option.ite_none_right_eq_some,Option.some.injEq] at h
    obtain ⟨cn,hcn,-,rfl⟩ := h
    exact agrees_readError hs hcn
  | visit =>
    simp only [step,Option.some.injEq] at h
    rw [← h]
    exact agrees_visit hs
  | request c r =>
    simp only [step,Option.bind_eq_bind,Option.bind_eq_some_iff,Option.ite_none_left_eq_some,Option.some.injEq] at h
    obtain ⟨cn,hcn,hforeign,rfl⟩ := h
    exact agrees_wire hs hcn rfl (fun hd => absurd hd hforeign) (.inl rfl)

/-- In every state in which the dashboard's connection is open on both sides and no request is under way
on it, the hub has it under exactly the topics with a handler; and the hub never has a topic without
clients, nor a client whose connection handler is not running. -/
theorem subscriptions_agree {as : List (Label π)} {s : State π} (he : exec step init as = some s) :
    (∀ cn, s.conns[s.dashboard.conn]? = some cn → s.dashboard.readyState = .isOpen → cn.server = .reading → cn.up = [] →
      ∀ topic, s.dashboard.conn ∈ members s.subscribers topic ↔ topic ∈ s.dashboard.topics) ∧
    (∀ topic, s.subscribers.lookup topic ≠ some []) ∧
    ∀ topic c, c ∈ members s.subscribers topic → ∃ cn, s.conns[c]? = some cn ∧ cn.server = .reading := by
  have hs : Agrees s := (Run.of_exec_true he).invariant Agrees (fun _ _ _ hs _ hst => agrees_step hs hst) agrees_init
  refine ⟨fun cn hcn hstate hreading hup topic => ?_,hs.nonempty,hs.live⟩
  have hsettled := (hs.settled hstate cn hcn).2 hreading topic
  rw [hup] at hsettled
  exact hsettled

/-- A topic subscribed before the connection is open and dropped while it is lost, another one in between,
and a stale callback, over two connections. -/
def reconnectRun : List (Label ℕ) :=
  [.subscribe "a" 1,.accept 0,.opened,.subscribe "b" 2,.deliver 0 true,.receive,.deliver 0 true,.push 0 "b" 5,.lost,
    .unsubscribe "a" 1,.connect,.accept 1,.unsubscribe "a" 1,.readError 0,.opened,.subscribe "c" 3,.unsubscribe "b" 9,
    .deliver 1 true,.deliver 1 false]

theorem subscriptions_agree_reconnectRun :
    ∃ s ∈ exec step (init : State ℕ) reconnectRun, s.dashboard.topics = ["b","c"] ∧
      s.dashboard.conn ∈ members s.subscribers "b" ∧ s.dashboard.conn ∉ members s.subscribers "a" := by
  have h : ∃ s ∈ exec step (init : State ℕ) reconnectRun, s.dashboard.topics = ["b","c"] ∧
      s.dashboard.readyState = .isOpen ∧
      ∃ cn ∈ s.conns[s.dashboard.conn]?, cn.server = .reading ∧ cn.up = [] := by
    decide +kernel
  obtain ⟨s,hs,htopics,hopen,cn,hcn,hreading,hup⟩ := h
  have hall := (subscriptions_agree (Option.mem_def.mp hs)).1 cn (Option.mem_def.mp hcn) hopen hreading hup
  exact ⟨s,hs,htopics,(hall "b").mpr (by simp [htopics]),fun ha => absurd ((hall "a").mp ha) (by simp [htopics])⟩

end Subscriptions
end Clearvoiance
