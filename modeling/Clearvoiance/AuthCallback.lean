import Clearvoiance.Dispatchers
import Clearvoiance.Transition

/-! The callback auth strategy of a replay.  The HTTP dispatches of a run share one cache of credentials;
a dispatch looks its request's user up, asks the endpoint if the cache has no fresh entry, and stores the
answer.  The user is read from a header of the request, which nothing sets: it is the user of the event
only where the captured headers say so. -/
namespace Clearvoiance
namespace AuthCallback

open CapturedEvents Dispatchers Transition

structure CallbackRequest where
  eventID : String
  userID : String
  method : String
  path : String
  deriving DecidableEq

structure Credential where
  header : String
  value : String
  deriving DecidableEq

structure CacheEntry where
  credential : Credential
  expiresAt : ℤ

/-- The response of the endpoint: no response, or a status with the body as text and as decoded. -/
inductive Reply
  | failed (message : String)
  | answered (statusCode : ℕ) (raw : String) (out : Except String Credential)

/-- The strategy of a replay; times are in nanoseconds. -/
structure Config where
  url : String
  cacheTTL : ℤ

/-- One dispatch of an HTTP event to a virtual user. -/
structure Call where
  target : Target
  ev : Dispatchers.Event
  vu : ℕ

/-- A request that was handed to the HTTP client, with the dispatch and the mutated body it comes from. -/
structure Sent where
  call : Call
  event : HttpEvent
  body : Bytes
  request : Request

/-- The cache, the answers of the endpoint and the requests that were sent. -/
structure Shared where
  cache : List (String × CacheEntry)
  answers : List (CallbackRequest × Credential)
  sent : List Sent

inductive Pc
  | start (call : Call)
  | lookup (call : Call) (event : HttpEvent) (body : Bytes) (request : Request)
  | callback (call : Call) (event : HttpEvent) (body : Bytes) (request : Request)
  | store (call : Call) (event : HttpEvent) (body : Bytes) (request : Request) (credential : Credential)
  | send (call : Call) (event : HttpEvent) (body : Bytes) (request : Request)

/-- What the environment answers to one step: the clock, the endpoint, the path of the parsed URL, and the
blob store, the mutator, the HTTP client and the target. -/
structure Env where
  now : ℤ
  reply : Reply
  urlPath : String
  world : World

abbrev Next := Shared × (Pc ⊕ Outcome)

/-- `req.Header.Get(name)`. -/
def header (req : Request) (name : String) : String :=
  ((req.header.get (canonicalMIMEHeaderKey name)).head?).getD ""

def userID (req : Request) : String := header req "X-Clearvoiance-User-Id"

def eventID (req : Request) : String := header req "X-Clearvoiance-Event-Id"

def payload (path : String) (req : Request) : CallbackRequest := ⟨eventID req,userID req,req.method,path⟩

def defaultTTL : ℤ := 300000000000

def ttl (a : Config) : ℤ := if a.cacheTTL ≤ 0 then defaultTTL else a.cacheTTL

/-- The answer of the endpoint, with the header it is set under, or the message of the error. -/
def decodeReply (url : String) (w : World) (reply : Reply) : Except String Credential :=
  match w.newRequest "POST" url with
  | some reason => .error ("auth callback: build request: " ++ reason)
  | none =>
    match reply with
    | .failed message => .error ("auth callback: " ++ message)
    | .answered statusCode raw out =>
      if statusCode ≠ 200 then .error ("auth callback: non-200 " ++ toString statusCode ++ ": " ++ raw)
      else
        match out with
        | .error message => .error ("auth callback: decode response: " ++ message)
        | .ok c => .ok (if c.header = "" then { c with header := "Authorization" } else c)

def authorized (req : Request) (c : Credential) : Request := { req with header := req.header.set c.header c.value }

def failed (s : Shared) (event : HttpEvent) (message : String) : Next :=
  (s,.inr (Http.result event,some ("auth: " ++ message)))

/-- One atomic step of `Dispatch`, with `Apply` taken apart at its locks and its call of the endpoint. -/
def advance (a : Config) (e : Env) (s : Shared) : Pc → Next
  | .start c =>
    match Http.extractHTTP c.ev with
    | none => (s,.inr (blank,some "http dispatcher: event has no http payload"))
    | some h =>
      match fetchBody e.world h.requestBody with
      | .error message => (s,.inr ({ Http.result h with errorCode := "blob_fetch", errorMessage := message },none))
      | .ok body =>
        match Http.prepare { e.world with applyAuth := .ok } c.target c.ev c.vu h body with
        | .error message => (s,.inr (Http.result h,some message))
        | .ok (mutated,req) => (s,.inl (.lookup c h mutated req))
  | .lookup c h body req =>
    if a.url = "" then failed s h "auth callback: URL is required"
    else
      match s.cache.lookup (userID req) with
      | none => (s,.inl (.callback c h body req))
      | some entry =>
        if e.now < entry.expiresAt then (s,.inl (.send c h body (authorized req entry.credential)))
        else (s,.inl (.callback c h body req))
  | .callback c h body req =>
    match decodeReply a.url e.world e.reply with
    | .error message => failed s h message
    | .ok out => ({ s with answers := s.answers ++ [(payload e.urlPath req,out)] },.inl (.store c h body req out))
  | .store c h body req out =>
    let entry : CacheEntry := ⟨out,e.now+ttl a⟩
    ({ s with cache := (userID req,entry) :: s.cache.filter (·.1 ≠ userID req) },
      .inl (.send c h body (authorized req out)))
  | .send c h body req => ({ s with sent := s.sent ++ [⟨c,h,body,req⟩] },.inr (Http.fire e.world h body req,none))

abbrev State := Pool Shared Pc Outcome

abbrev Action := Act Call Env

def step (a : Config) : State → Action → Option State := Pool.step .start (advance a)

def init : State := ⟨⟨[],[],[]⟩,[],[]⟩

/-- The request as it is before the strategy is applied. -/
def Sent.captured (x : Sent) : Request := Http.request x.call.target x.call.ev x.call.vu x.event x.body

/-- The request is the other one but for the header of the credential, which has the value of the credential and no
other. -/
structure Bears (c : Credential) (before req : Request) : Prop where
  value : req.header.get (canonicalMIMEHeaderKey c.header) = [c.value]
  others : ∀ name, name ≠ canonicalMIMEHeaderKey c.header → req.header.get name = before.header.get name
  rest : req.method = before.method ∧ req.url = before.url ∧ req.body = before.body

/-- The request is the captured one with a credential that was returned for a request that carried the user of the
event. -/
def Sent.Backed (s : Shared) (x : Sent) : Prop :=
  Http.extractHTTP x.call.ev = some x.event ∧
    ∃ r ∈ s.answers, r.1.userID = x.event.userId ∧ Bears r.2 x.captured x.request

def Isolated (s : Shared) : Prop := ∀ x ∈ s.sent, x.Backed s

/-- The body is there, and the request is built. -/
def builds (w : World) (c : Call) (h : HttpEvent) : Bool :=
  match fetchBody w h.requestBody with
  | .error _ => false
  | .ok body => (Http.prepare { w with applyAuth := .ok } c.target c.ev c.vu h body).isOk

/-- The request of a dispatch before its body is known. -/
def bareRequest (c : Call) (h : HttpEvent) : Request := Http.request c.target c.ev c.vu h []

/-- A request that is built from an event names the user of the event. -/
def Pc.Names (w : World) : Pc → Prop
  | .start c => ∀ h ∈ Http.extractHTTP c.ev, builds w c h = true → userID (bareRequest c h) = h.userId
  | _ => True

/-- The captured headers carry the user of a dispatched event to the callback. -/
def CarriesUser (s : State) : Action → Prop
  | .invoke _ => True
  | .advance i e => ∀ p ∈ s.threads[i]?, p.Names e.world

instance (w : World) (p : Pc) : Decidable (p.Names w) := by
  induction p using Pc.casesOn <;> unfold Pc.Names <;> infer_instance

instance (s : State) (a : Action) : Decidable (CarriesUser s a) := by
  induction a using Act.casesOn <;> unfold CarriesUser <;> infer_instance

theorem authorized_bears (req : Request) (c : Credential) : Bears c req (authorized req c) :=
  ⟨Header.get_set _ _ _,fun _ hne => Header.get_set_of_ne _ _ hne,rfl,rfl,rfl⟩

/-- A request for this user was answered with the credential. -/
def Answered (s : Shared) (user : String) (c : Credential) : Prop := ∃ r ∈ s.answers, r.2 = c ∧ r.1.userID = user

/-- The request was built from the event of the dispatch, and names its user. -/
structure Named (c : Call) (h : HttpEvent) (body : Bytes) (req : Request) : Prop where
  event : Http.extractHTTP c.ev = some h
  request : req = Http.request c.target c.ev c.vu h body
  user : userID req = h.userId

def Pc.Known (s : Shared) : Pc → Prop
  | .start _ => True
  | .lookup c h body req | .callback c h body req => Named c h body req
  | .store c h body req out => Named c h body req ∧ Answered s (userID req) out
  | .send c h body req => Sent.Backed s ⟨c,h,body,req⟩

/-- Whatever is cached for a user was returned for this user, and the requests that were sent are isolated. -/
structure Sourced (s : Shared) : Prop where
  cache : ∀ x ∈ s.cache, Answered s x.1 x.2.credential
  sent : Isolated s

/-- What one step does to the shared state and to the dispatch. -/
inductive Moved (w : World) (s : Shared) : Pc → Shared → Pc ⊕ Outcome → Prop
  | replied (p : Pc) (v : Outcome) : Moved w s p s (.inr v)
  | prepared (c : Call) (h : HttpEvent) (body : Bytes) : Http.extractHTTP c.ev = some h → builds w c h = true →
      Moved w s (.start c) s (.inl (.lookup c h body (Http.request c.target c.ev c.vu h body)))
  | missed (c : Call) (h : HttpEvent) (body : Bytes) (req : Request) :
      Moved w s (.lookup c h body req) s (.inl (.callback c h body req))
  | hit (c : Call) (h : HttpEvent) (body : Bytes) (req : Request) (entry : CacheEntry) : (userID req,entry) ∈ s.cache →
      Moved w s (.lookup c h body req) s (.inl (.send c h body (authorized req entry.credential)))
  | answered (c : Call) (h : HttpEvent) (body : Bytes) (req : Request) (path : String) (out : Credential) :
      Moved w s (.callback c h body req) { s with answers := s.answers ++ [(payload path req,out)] }
        (.inl (.store c h body req out))
  | stored (c : Call) (h : HttpEvent) (body : Bytes) (req : Request) (out : Credential) (expiresAt : ℤ) :
      Moved w s (.store c h body req out)
        { s with cache := (userID req,⟨out,expiresAt⟩) :: s.cache.filter (·.1 ≠ userID req) }
        (.inl (.send c h body (authorized req out)))
  | sent (c : Call) (h : HttpEvent) (body : Bytes) (req : Request) (v : Outcome) :
      Moved w s (.send c h body req) { s with sent := s.sent ++ [⟨c,h,body,req⟩] } (.inr v)

theorem prepare_ok {w : World} {c : Call} {h : HttpEvent} {body mutated : Bytes} {req : Request}
    (hp : Http.prepare { w with applyAuth := .ok } c.target c.ev c.vu h body = .ok (mutated,req)) :
    req = Http.request c.target c.ev c.vu h mutated := by
  unfold Http.prepare at hp
  split at hp
  · cases hp
  · split at hp
    · cases hp
    · simp only [Except.ok.injEq,Prod.mk.injEq] at hp
      rw [← hp.2,← hp.1]

theorem mem_of_lookup {l : List (String × CacheEntry)} {k : String} {e : CacheEntry} (h : l.lookup k = some e) :
    (k,e) ∈ l := by
  obtain ⟨l₁,l₂,rfl,-⟩ := List.lookup_eq_some_iff.mp h
  simp

theorem moved {a : Config} {e : Env} {s s' : Shared} {p : Pc} {o : Pc ⊕ Outcome} (hadv : advance a e s p = (s',o)) :
    Moved e.world s p s' o := by
  cases p with
  | start c =>
    simp only [advance] at hadv
    split at hadv
    · cases hadv
      exact .replied _ _
    · next h hext =>
      split at hadv
      · cases hadv
        exact .replied _ _
      · next body hbody =>
        split at hadv
        · cases hadv
          exact .replied _ _
        · next mutated req hprep =>
          have hbuilds : builds e.world c h = true := by simp only [builds,hbody,hprep,Except.isOk,Except.toBool]
          cases hadv
          rw [prepare_ok hprep]
          exact .prepared c h mutated hext hbuilds
  | lookup c h body req =>
    simp only [advance,failed] at hadv
    split_ifs at hadv
    · cases hadv
      exact .replied _ _
    · split at hadv
      · cases hadv
        exact .missed c h body req
      · next entry hentry =>
        split_ifs at hadv
        · cases hadv
          exact .hit c h body req entry (mem_of_lookup hentry)
        · cases hadv
          exact .missed c h body req
  | callback c h body req =>
    simp only [advance,failed] at hadv
    split at hadv
    · cases hadv
      exact .replied _ _
    · cases hadv
      exact .answered c h body req _ _
  | store c h body req out =>
    cases hadv
    exact .stored c h body req out _
  | send c h body req =>
    cases hadv
    exact .sent c h body req _

/-- A request that names its user is backed once it bears what was returned for this user. -/
theorem Named.backed {s : Shared} {c : Call} {h : HttpEvent} {body : Bytes} {req : Request} {out : Credential}
    (hn : Named c h body req) (ha : Answered s (userID req) out) : Sent.Backed s ⟨c,h,body,authorized req out⟩ := by
  obtain ⟨r,hr,rfl,huser⟩ := ha
  have hcaptured : Sent.captured ⟨c,h,body,authorized req r.2⟩ = req := hn.request.symm
  refine ⟨hn.event,r,hr,huser.trans hn.user,?_⟩
  rw [hcaptured]
  exact authorized_bears req r.2

namespace Moved

variable {w : World} {s s' : Shared} {p p' : Pc} {o : Pc ⊕ Outcome}

theorem keeps (hm : Moved w s p s' o) : ∀ r ∈ s.answers, r ∈ s'.answers := by
  cases hm with
  | answered c h body req path out => exact fun r hr => List.mem_append_left _ hr
  | _ => exact fun r hr => hr

theorem answers (hm : Moved w s p s' o) {user : String} {c : Credential} (h : Answered s user c) :
    Answered s' user c := by
  obtain ⟨r,hr,hc⟩ := h
  exact ⟨r,hm.keeps r hr,hc⟩

theorem backed (hm : Moved w s p s' o) {x : Sent} (h : x.Backed s) : x.Backed s' := by
  obtain ⟨hevent,r,hr,hbears⟩ := h
  exact ⟨hevent,r,hm.keeps r hr,hbears⟩

theorem sourced (hm : Moved w s p s' o) (hs : Sourced s) (hp : p.Known s) : Sourced s' := by
  have hcache : ∀ x ∈ s.cache, Answered s' x.1 x.2.credential := fun x hx => hm.answers (hs.cache x hx)
  have hsent : ∀ x ∈ s.sent, x.Backed s' := fun x hx => hm.backed (hs.sent x hx)
  cases hm with
  | replied p v => exact hs
  | prepared c h body hext hbuilds => exact hs
  | missed c h body req => exact hs
  | hit c h body req entry hentry => exact hs
  | answered c h body req path out => exact ⟨hcache,hsent⟩
  | stored c h body req out expiresAt =>
    refine ⟨fun x hx => ?_,hsent⟩
    rcases List.mem_cons.mp hx with rfl | hx
    · exact hp.2
    · exact hcache x (List.mem_of_mem_filter hx)
  | sent c h body req v =>
    refine ⟨hcache,fun x hx => ?_⟩
    rcases List.mem_append.mp hx with hx | hx
    · exact hsent x hx
    · rw [List.mem_singleton.mp hx]
      exact hp

theorem known (hm : Moved w s p s' (.inl p')) (hs : Sourced s) (hp : p.Known s) (hnames : p.Names w) :
    p'.Known s' := by
  cases hm with
  | prepared c h body hext hbuilds => exact ⟨hext,rfl,hnames h hext hbuilds⟩
  | missed c h body req => exact hp
  | hit c h body req entry hentry => exact hp.backed (hs.cache _ hentry)
  | answered c h body req path out => exact ⟨hp,_,List.mem_append_right _ (List.mem_singleton_self _),rfl,rfl⟩
  | stored c h body req out expiresAt => exact hp.1.backed hp.2

theorem still_known (hm : Moved w s p s' o) {q : Pc} (hq : q.Known s) : q.Known s' := by
  cases q with
  | start c => trivial
  | lookup c h body req | callback c h body req => exact hq
  | store c h body req out => exact ⟨hq.1,hm.answers hq.2⟩
  | send c h body req => exact hm.backed hq

end Moved

variable {a : Config} {as : List Action} {s : State}

theorem run_sourced (hr : Run (step a) CarriesUser init as s) : Sourced s.shared := by
  have hinit : Pool.Holds (fun s _ _ => Sourced s) (fun p s _ => p.Known s) (fun _ _ => True) init := by
    refine ⟨⟨?_,?_⟩,?_,.nil⟩
    · intro x hx
      cases hx
    · intro x hx
      cases hx
    · intro p hp
      cases hp
  refine (Pool.run_holds (fun _ _ _ => trivial) ?_ ?_ ?_ hr hinit).shared
  · intro s c _ hs
    exact ⟨hs.shared,trivial,fun _ _ => trivial⟩
  · intro s i e p o s' p' hok hi _ hadv hG hp ho _
    have hm := moved hadv
    exact ⟨hm.sourced hG hp,hm.known hG hp (hok p hi),fun q hq => hm.still_known (ho q hq),fun _ _ => trivial⟩
  · intro s i e p o s' v _ _ _ hadv hG hp ho _
    have hm := moved hadv
    exact ⟨hm.sourced hG hp,fun q hq => hm.still_known (ho q hq)⟩

/-- Where the captured headers name the users of the events, every request that is sent bears a credential that was
returned for the user of its event. -/
theorem credentials_isolated (hr : Run (step a) CarriesUser init as s) : Isolated s.shared := (run_sourced hr).sent

def visit (id user : String) (headers : List (String × List String)) : Dispatchers.Event :=
  ⟨id,0,some (.http ⟨"GET","/orders",headers,none,200,none,0,"",user,"/orders"⟩)⟩

def shopTarget : Target := ⟨"http://localhost:3000","rep_1"⟩

def tokens : Config := ⟨"http://localhost:9000/token",0⟩

def shopWorld : World :=
  ⟨none,fun body _ _ => .ok body,fun _ _ => none,.ok,fun _ => .ok ⟨200,2⟩,0,fun _ _ => none,false,fun _ _ _ => (0,none)⟩

def granting (value : String) : Env := ⟨0,.answered 200 "" (.ok ⟨"",value⟩),"/orders",shopWorld⟩

def fetched (value : String) : List Action := List.replicate 5 (.advance 0 (granting value))

/-- The users of the requests that were sent, with the credentials that they bear. -/
def bearers (s : Shared) : List (String × List String) :=
  s.sent.map fun x => (x.event.userId,x.request.header.get "Authorization")

/-- Events of two users, neither with a header that names its user. -/
def twoUsers : List Action :=
  (.invoke ⟨shopTarget,visit "ev_1" "alice" [],0⟩ : Action) :: fetched "token-1" ++
    (.invoke ⟨shopTarget,visit "ev_2" "bob" [],0⟩ : Action) ::
      List.replicate 3 (.advance 0 (granting "token-2") : Action)

/-- The second user's request goes out with the credential that was fetched for the first one's. -/
theorem two_users_share_credential : ∃ s ∈ exec (step tokens) init twoUsers, ¬ Isolated s.shared ∧
    bearers s.shared = [("alice",["token-1"]),("bob",["token-1"])] ∧
    s.shared.answers.map (fun r => (r.1.eventID,r.1.userID,r.2.value)) = [("ev_1","","token-1")] := by
  have hend : ∃ s ∈ exec (step tokens) init twoUsers,
      bearers s.shared = [("alice",["token-1"]),("bob",["token-1"])] ∧
      s.shared.answers.map (fun r => (r.1.eventID,r.1.userID,r.2.value)) = [("ev_1","","token-1")] := by
    decide +kernel
  obtain ⟨s,hs,hbearers,hanswers⟩ := hend
  refine ⟨s,hs,fun h => ?_,hbearers,hanswers⟩
  have hmem : ("bob",["token-1"]) ∈ bearers s.shared := by
    rw [hbearers]
    simp
  obtain ⟨x,hx,hbob⟩ := List.mem_map.mp hmem
  obtain ⟨-,r,hr,huser,-⟩ := h x hx
  have hempty : (r.1.eventID,r.1.userID,r.2.value) = ("ev_1","","token-1") := by
    have hmem := List.mem_map_of_mem (f := fun r => (r.1.eventID,r.1.userID,r.2.value)) hr
    rw [hanswers] at hmem
    exact List.mem_singleton.mp hmem
  have : r.1.userID = "" ∧ x.event.userId = "bob" := ⟨(Prod.mk.inj (Prod.mk.inj hempty).2).1,(Prod.mk.inj hbob).1⟩
  rw [this.1,this.2] at huser
  exact absurd huser (by decide)

def namedUsers : List Action :=
  .invoke ⟨shopTarget,visit "ev_1" "alice" [("X-Clearvoiance-User-Id",["alice"])],0⟩ :: fetched "token-1" ++
    .invoke ⟨shopTarget,visit "ev_2" "bob" [("X-Clearvoiance-User-Id",["bob"])],0⟩ :: fetched "token-2"

theorem credentials_isolated_namedUsers : ∃ s ∈ exec (step tokens) init namedUsers, Isolated s.shared ∧
    bearers s.shared = [("alice",["token-1"]),("bob",["token-2"])] := by
  have hend : ∃ s ∈ exec (step tokens) init namedUsers,
      bearers s.shared = [("alice",["token-1"]),("bob",["token-2"])] := by
    decide +kernel
  obtain ⟨s,hs,hbearers⟩ := hend
  have hr : Run (step tokens) CarriesUser init namedUsers s := .of_exec (by decide +kernel) (Option.mem_def.mp hs)
  exact ⟨s,hs,credentials_isolated hr,hbearers⟩

end AuthCallback
end Clearvoiance
