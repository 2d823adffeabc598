import Clearvoiance.HermeticResponse

/-! The chain that ties a replayed request to its mocks: the replay engine dispatches a captured
event, an HTTP adapter of the service puts an event id into the async context, and the hermetic
`fetch` asks the mock store for that id and rebuilds the captured response.  The dispatcher names the
captured event in a header; the adapters read only the replay id and always make up a new event id. -/
namespace Clearvoiance
namespace Hermetic

open HermeticResponse (FetchFaithful FetchKeeps Response ResponseError fetchResponse fetch_faithful_iff)
open MockPack (BlobRef CapturedEvent HttpExchange entryFromEvent fetchMockPack storeEntry)
open MockStore

def beBytes : ℕ → ℕ → Hex.Bytes
  | 0,_ => []
  | n+1,v => beBytes n (v/256) ++ [UInt8.ofNat (v%256)]

/-- `newEventId` at a clock reading in milliseconds and with eight random bytes. -/
def newEventId (now : ℕ) (random : Vector UInt8 8) : String :=
  "ev_" ++ String.ofList (Hex.encodeToString (beBytes 8 now ++ random.toList))

structure EventContext where
  eventId : String
  replayId : Option String
  deriving DecidableEq

abbrev Headers := List (String × String)

def Headers.add (h : Headers) (name value : String) : Headers := h ++ [(name.toLower,value)]

def Headers.set (h : Headers) (name value : String) : Headers :=
  h.filter (fun f => f.1 ≠ name.toLower) ++ [(name.toLower,value)]

def Headers.get (h : Headers) (name : String) : Option String := (h.find? fun f => f.1 == name).map Prod.snd

/-- A captured body: inline bytes, or the bucket and key of a blob. -/
structure Body where
  inline : Hex.Bytes
  blob : Option (String × String)
  contentType : String
  deriving DecidableEq

structure HttpEvent where
  method : String
  path : String
  headers : List (String × List String)
  requestBody : Option Body
  deriving DecidableEq

/-- `http` is the payload of inbound HTTP and webhook events. -/
structure Event where
  id : String
  http : Option HttpEvent
  deriving DecidableEq

structure Request where
  method : String
  url : String
  headers : Headers
  body : Hex.Bytes
  deriving DecidableEq

/-- What a replay is configured with, and what `http.NewRequest` accepts. -/
structure TargetConfig where
  baseURL : String
  replayID : String
  blobReader : Option (String → String → Except String Hex.Bytes) := none
  mutator : Option (Hex.Bytes → String → ℕ → Except String Hex.Bytes) := none
  auth : Option (Request → Except String Request) := none
  validRequest : String → String → Bool := fun _ _ => true

inductive DispatchError
  | noPayload
  | blobFetch (message : String)
  | mutator (message : String)
  | buildRequest
  | auth (message : String)
  deriving DecidableEq

def shouldSkipHeader (name : String) : Bool :=
  name.toLower ∈ ["host","content-length","connection","keep-alive","proxy-authenticate","proxy-authorization",
    "te","trailer","transfer-encoding","upgrade","accept-encoding"]

def replayedHeaders (ev : HttpEvent) : Headers :=
  (ev.headers.filter fun f => !shouldSkipHeader f.1).flatMap fun f =>
    (f.2.filter (· ≠ "[REDACTED]")).map fun v => (f.1.toLower,v)

def contentTypeFrom (h : HttpEvent) : String :=
  let ofBody := (h.requestBody.map (·.contentType)).getD ""
  let ofHeader (name : String) := (h.headers.find? fun f => f.1 == name).bind fun f => f.2.head?
  if ofBody ≠ "" then ofBody else ((ofHeader "content-type").orElse fun _ => ofHeader "Content-Type").getD ""

def fetchBody (reader : Option (String → String → Except String Hex.Bytes)) : Option Body → Except String Hex.Bytes
  | none => .ok []
  | some b =>
    if b.inline ≠ [] then .ok b.inline
    else match b.blob,reader with
      | none,_ => .ok []
      | some (bucket,key),none =>
        .error ("body stored as blob " ++ bucket ++ "/" ++ key ++ " but no blob reader configured")
      | some (bucket,key),some get => get bucket key

def stampedHeaders (target : TargetConfig) (id : String) (http : HttpEvent) (vu : ℕ) : Headers :=
  let headers := (replayedHeaders http).set "User-Agent" "clearvoiance-replayer/0.1"
  let headers := headers.set "X-Clearvoiance-Event-Id" id
  let headers := if target.replayID ≠ "" then headers.set "X-Clearvoiance-Replay-Id" target.replayID else headers
  if 0 < vu then headers.set "X-Clearvoiance-Vu" (toString vu) else headers

/-- The request `HTTPDispatcher.Dispatch` sends. -/
def dispatch (target : TargetConfig) (ev : Event) (vu : ℕ) : Except DispatchError Request := do
  let some http := ev.http | throw .noPayload
  let base := String.ofList (target.baseURL.toList.reverse.dropWhile (· = '/')).reverse
  let path := if http.path = "" then "/" else http.path
  let path := if path.startsWith "/" then path else "/" ++ path
  let body ← (fetchBody target.blobReader http.requestBody).mapError .blobFetch
  let body ← match target.mutator with
    | some mutate => (mutate body (contentTypeFrom http) vu).mapError .mutator
    | none => pure body
  if !target.validRequest http.method (base ++ path) then throw .buildRequest
  let req : Request := ⟨http.method,base ++ path,stampedHeaders target ev.id http vu,body⟩
  match target.auth with
  | some apply => (apply req).mapError .auth
  | none => pure req

def extractReplayId (h : Headers) : Option String := h.get "x-clearvoiance-replay-id"

/-- `Math.random()`, `Date.now()` and `randomBytes(8)` as an adapter finds them. -/
structure Arrival where
  random : ℚ
  now : ℕ
  entropy : Vector UInt8 8

/-- The async context a request handler runs in; a request that is not sampled has none. -/
def requestScope (sampleRate : ℚ) (arrival : Arrival) (h : Headers) : Option EventContext :=
  if sampleRate < 1 ∧ sampleRate ≤ arrival.random then none
  else some ⟨newEventId arrival.now arrival.entropy,extractReplayId h⟩

def captureHttp (sampleRate : ℚ) : Arrival → Headers → Option EventContext := requestScope sampleRate

def captureKoa (sampleRate : ℚ) : Arrival → Headers → Option EventContext := requestScope sampleRate

def registerCapture (sampleRate : ℚ) : Arrival → Headers → Option EventContext := requestScope sampleRate

def clearvoianceStrapiMiddleware (sampleRate : ℚ) : Arrival → Headers → Option EventContext :=
  captureKoa sampleRate

inductive Adapter
  | express | koa | fastify | strapi
  deriving DecidableEq

def Adapter.scope : Adapter → ℚ → Arrival → Headers → Option EventContext
  | .express => captureHttp
  | .koa => captureKoa
  | .fastify => registerCapture
  | .strapi => clearvoianceStrapiMiddleware

/-- An outbound call as `extractFetchCall` reads it. -/
structure FetchCall where
  protocol : String
  method : String
  host : String
  pathname : String
  search : String
  body : Option Hex.Bytes
  contentType : Option String
  deriving DecidableEq

structure UnmockedInfo where
  protocol : String
  method : String
  host : String
  path : String
  eventId : String
  signature : String
  deriving DecidableEq

inductive Policy
  | strict | loose
  deriving DecidableEq

inductive Outcome
  | passthrough
  | mocked (entry : MockEntry) (response : Response)
  | invalidResponse (entry : MockEntry) (err : ResponseError)
  | rejected (info : UnmockedInfo) (message : String)
  | synthetic (info : UnmockedInfo) (response : Response)
  deriving DecidableEq

variable (signatureOf : FetchCall → Signature) (dropped : String → Bool)

def unmocked (policy : Policy) (eventId : String) (sig : String) (c : FetchCall) : Outcome :=
  let info : UnmockedInfo := ⟨c.protocol,c.method,c.host,c.pathname ++ c.search,eventId,sig⟩
  match policy with
  | .strict => .rejected info ("clearvoiance hermetic: unmocked outbound " ++ c.method ++ " " ++ c.host ++
      c.pathname ++ " (event=" ++ eventId ++ ", sig=" ++ String.ofList (sig.toList.take 12) ++ "…)")
  | .loose => .synthetic info ⟨200,[("content-type","application/json")],"{}".toUTF8.toList⟩

def hermeticFetch (policy : Policy) (ctx : Option EventContext) (s : Store) (c : FetchCall) : Store × Outcome :=
  match ctx with
  | none => (s,.passthrough)
  | some ctx =>
    if ctx.eventId = "" then (s,.passthrough)
    else
      let r := take s ctx.eventId (signatureOf c)
      match r.2 with
      | none => (r.1,unmocked policy ctx.eventId (signatureOf c).text c)
      | some e => match fetchResponse dropped e with
        | .ok response => (r.1,.mocked e response)
        | .error err => (r.1,.invalidResponse e err)

/-- The outbound calls of one handler, one after the other. -/
def handle (policy : Policy) (ctx : Option EventContext) : Store → List FetchCall → List Outcome
  | _,[] => []
  | s,c :: cs =>
    let r := hermeticFetch signatureOf dropped policy ctx s c
    r.2 :: handle policy ctx r.1 cs

def serve (s : Store) : List (String × Signature) → Store
  | [] => s
  | x :: xs => serve (take s x.1 x.2).1 xs

/-- A dispatched request reaches the service: adapter, then handler. -/
def receive (adapter : Adapter) (sampleRate : ℚ) (arrival : Arrival) (policy : Policy) (s : Store) (req : Request)
    (calls : List FetchCall) : List Outcome :=
  handle signatureOf dropped policy (adapter.scope sampleRate arrival req.headers) s calls

/-- A captured outbound call: the engine's signature of its request, and the exchange. -/
structure OutboundCall where
  signature : Signature
  http : HttpExchange
  deriving DecidableEq

def outboundCall (id : String) (ev : CapturedEvent) : Option OutboundCall := do
  let outbound ← ev.outbound
  let http ← outbound.http
  if outbound.causedByEventId = id then
    some ⟨MockPack.engineSignature (MockPack.signatureInput ev outbound http),http⟩
  else none

/-- The outbound calls of an event, in capture order. -/
def outboundsOf (events : List CapturedEvent) (id : String) : List OutboundCall :=
  events.filterMap (outboundCall id)

/-- What the mock store has for a call of an event. -/
def OutboundCall.mock (id : String) (c : OutboundCall) : MockEntry :=
  ⟨id,c.signature,c.http.status,MockPack.mapHeaderValues c.http.responseHeaders,
    MockPack.inlineBytes c.http.responseBody,MockPack.contentTypeOf c.http.responseBody⟩

/-- The call is answered from its own mock, with the status, the headers and the body that were captured; `blobs` is
what the blob store holds. -/
def Outcome.Answers (blobs : BlobRef → Hex.Bytes) (id : String) (c : OutboundCall) : Outcome → Prop
  | .mocked entry response => entry = c.mock id ∧ FetchFaithful blobs c.http (.ok response)
  | _ => False

/-- Every call is answered with the response of its own captured outbound. -/
def Answered (blobs : BlobRef → Hex.Bytes) (id : String) (captured : List OutboundCall) (outcomes : List Outcome) :
    Prop :=
  List.Forall₂ (fun c o => o.Answers blobs id c) captured outcomes

def Sampled (sampleRate : ℚ) (arrival : Arrival) : Prop := 1 ≤ sampleRate ∨ arrival.random < sampleRate

instance (sampleRate : ℚ) (arrival : Arrival) : Decidable (Sampled sampleRate arrival) :=
  inferInstanceAs (Decidable (_ ∨ _))

theorem newEventId_ne_empty (now : ℕ) (random : Vector UInt8 8) : newEventId now random ≠ "" := by
  intro h
  have hl := congrArg String.toList h
  simp [newEventId] at hl

/-- All adapters open the same scope: a new event id, whatever the request says. -/
theorem scope_eq (adapter : Adapter) (sampleRate : ℚ) (arrival : Arrival) (h : Headers) :
    adapter.scope sampleRate arrival h =
      if Sampled sampleRate arrival then some ⟨newEventId arrival.now arrival.entropy,extractReplayId h⟩
      else none := by
  have hscope : adapter.scope sampleRate arrival h = requestScope sampleRate arrival h := by cases adapter <;> rfl
  rw [hscope,requestScope]
  by_cases hs : Sampled sampleRate arrival
  · have hno : ¬ (sampleRate < 1 ∧ sampleRate ≤ arrival.random) := by
      rintro ⟨h1,h2⟩
      rcases hs with hs | hs
      · exact absurd h1 (not_lt.mpr hs)
      · exact absurd h2 (not_le.mpr hs)
    rw [if_neg hno,if_pos hs]
  · have hyes : sampleRate < 1 ∧ sampleRate ≤ arrival.random := by
      simpa [Sampled] using hs
    rw [if_pos hyes,if_neg hs]

theorem Outcome.Answers.mocked {blobs : BlobRef → Hex.Bytes} {id : String} {c : OutboundCall} {o : Outcome}
    (h : o.Answers blobs id c) : ∃ r, o = .mocked (c.mock id) r ∧ FetchFaithful blobs c.http (.ok r) := by
  cases o with
  | mocked entry r =>
    obtain ⟨rfl,hr⟩ := h
    exact ⟨r,rfl,hr⟩
  | _ => exact h.elim

/-- The mocks of an event in the pack of a session. -/
theorem ofEvent_pack (events : List CapturedEvent) (id : String) :
    ofEvent ((events.filterMap entryFromEvent).map storeEntry) id = (outboundsOf events id).map (·.mock id) := by
  induction events with
  | nil => rfl
  | cons ev events ih =>
    unfold ofEvent outboundsOf at ih ⊢
    cases hout : ev.outbound with
    | none => simpa [entryFromEvent,outboundCall,hout] using ih
    | some outbound =>
      cases hhttp : outbound.http with
      | none => simpa [entryFromEvent,outboundCall,hout,hhttp] using ih
      | some http =>
        by_cases hid : outbound.causedByEventId = id
        · simp [entryFromEvent,outboundCall,hout,hhttp,hid,storeEntry,OutboundCall.mock,ih]
        · simp [entryFromEvent,outboundCall,hout,hhttp,hid,storeEntry,ih]

theorem serves_serve {s : Store} {pack : List MockEntry} {taken : List String} (h : Serves s pack taken)
    (before : List (String × Signature)) :
    Serves (serve s before) pack ((before.map fun x => keyOf x.1 x.2).reverse ++ taken) := by
  induction before generalizing s taken with
  | nil => simpa [serve] using h
  | cons x xs ih => simpa [serve] using ih (h.take x.1 x.2).1

/-- A mocked call ran in a scope, its entry was taken for the id of that scope, and its response is built from it. -/
theorem hermeticFetch_mocked {policy : Policy} {ctx : Option EventContext} {s : Store} {c : FetchCall}
    {e : MockEntry} {r : Response} (h : (hermeticFetch signatureOf dropped policy ctx s c).2 = .mocked e r) :
    fetchResponse dropped e = .ok r ∧ ∃ x, ctx = some x ∧ (take s x.eventId (signatureOf c)).2 = some e := by
  unfold hermeticFetch at h
  split at h
  · cases h
  · rename_i x
    split at h
    · cases h
    · dsimp only at h
      split at h
      · cases policy <;> cases h
      · rename_i e' he'
        split at h
        · rename_i hresponse
          cases h
          exact ⟨hresponse,x,rfl,he'⟩
        · cases h

theorem fetchResponse_of_mem {policy : Policy} {ctx : Option EventContext} {s : Store} {cs : List FetchCall}
    {e : MockEntry} {r : Response} (h : .mocked e r ∈ handle signatureOf dropped policy ctx s cs) :
    fetchResponse dropped e = .ok r := by
  induction cs generalizing s with
  | nil => simp [handle] at h
  | cons c cs ih =>
    rcases List.mem_cons.mp h with h | h
    · exact (hermeticFetch_mocked signatureOf dropped h.symm).1
    · exact ih h

variable {blobs : BlobRef → Hex.Bytes}

/-- In the scope of its own event, a handler that repeats the captured calls is answered in
capture order. -/
theorem handle_answered {policy : Policy} {x : EventContext} {s : Store} {pack : List MockEntry} {taken : List String}
    {done rest : List OutboundCall} {cs : List FetchCall} (hx : x.eventId ≠ "") (h : Serves s pack taken)
    (hp : ofEvent pack x.eventId = (done ++ rest).map (·.mock x.eventId))
    (hc : ∀ g, taken.count (keyOf x.eventId g) = (done.filter fun c => c.signature = g).length)
    (hsig : cs.map signatureOf = rest.map (·.signature)) (hok : ∀ c ∈ rest, FetchKeeps dropped blobs c.http) :
    Answered blobs x.eventId rest (handle signatureOf dropped policy (some x) s cs) := by
  induction rest generalizing s taken done cs with
  | nil =>
    have hcs : cs = [] := by simpa using hsig
    subst hcs
    exact .nil
  | cons o rest ih =>
    cases cs with
    | nil => simp at hsig
    | cons c cs =>
      simp only [List.map_cons,List.cons.injEq] at hsig
      have hpack : ofEvent pack x.eventId =
          done.map (·.mock x.eventId) ++ o.mock x.eventId :: rest.map (·.mock x.eventId) := by simp [hp]
      have htake : (take s x.eventId (signatureOf c)).2 = some (o.mock x.eventId) := by
        rw [hsig.1]
        refine h.take_next hpack fun g => ?_
        rw [hc g,List.filter_map,List.length_map]
        rfl
      have hfaithful := (fetch_faithful_iff dropped blobs o.http x.eventId o.signature
        (MockPack.contentTypeOf o.http.responseBody)).mpr (hok o List.mem_cons_self)
      obtain ⟨r,hr,-⟩ := id hfaithful
      have hr : fetchResponse dropped (o.mock x.eventId) = .ok r := hr
      have hfetch : hermeticFetch signatureOf dropped policy (some x) s c =
          ((take s x.eventId (signatureOf c)).1,.mocked (o.mock x.eventId) r) := by
        simp only [hermeticFetch,hx,if_false,htake,hr]
      have hdone : ofEvent pack x.eventId = ((done ++ [o]) ++ rest).map (·.mock x.eventId) := by simp [hp]
      simp only [handle,hfetch]
      refine .cons ⟨rfl,hr ▸ hfaithful⟩ (ih (h.take x.eventId (signatureOf c)).1 hdone ?_ hsig.2
        fun a ha => hok a (List.mem_cons_of_mem o ha))
      intro g
      rw [hsig.1,List.filter_append,List.length_append,← hc g]
      by_cases hg : o.signature = g
      · subst hg
        simp
      · have hne : keyOf x.eventId o.signature ≠ keyOf x.eventId g := fun hk => hg (keyOf_injective hk).2
        rw [List.count_cons_of_ne hne]
        simp [hg]

/-- Where all calls are answered, all captured responses can be rebuilt. -/
theorem keeps_of_answered {policy : Policy} {ctx : Option EventContext} {s : Store} {id : String}
    {captured : List OutboundCall} {cs : List FetchCall}
    (h : Answered blobs id captured (handle signatureOf dropped policy ctx s cs)) :
    ∀ c ∈ captured, FetchKeeps dropped blobs c.http := by
  intro c hc
  obtain ⟨i,hi,rfl⟩ := List.mem_iff_getElem.mp hc
  have hi' := h.length_eq ▸ hi
  obtain ⟨r,hr,hfaithful⟩ := Outcome.Answers.mocked (h.get hi hi')
  have hmem := List.mem_of_getElem (List.get_eq_getElem .. ▸ hr)
  have hresponse := fetchResponse_of_mem signatureOf dropped hmem
  rw [← hresponse] at hfaithful
  exact (fetch_faithful_iff dropped blobs _ id _ _).mp hfaithful

/-- A replayed event has all its outbound calls answered with the captured responses exactly when it made
none, or the adapter kept the request and drew the captured event's own id for it, and every
captured response is one that a `Response` can be rebuilt from. -/
theorem replay_answered_iff (blobs : BlobRef → Hex.Bytes) (adapter : Adapter) (sampleRate : ℚ) (arrival : Arrival)
    (policy : Policy) (target : TargetConfig) (vu : ℕ) (events : List CapturedEvent)
    (before : List (String × Signature)) (ev : Event) (req : Request) (calls : List FetchCall)
    (_hsent : dispatch target ev vu = .ok req) (hbefore : ∀ x ∈ before, x.1 ≠ ev.id)
    (hsig : calls.map signatureOf = (outboundsOf events ev.id).map (·.signature)) :
    Answered blobs ev.id (outboundsOf events ev.id)
      (receive signatureOf dropped adapter sampleRate arrival policy (serve (fetchMockPack events) before) req calls) ↔
    calls = [] ∨ Sampled sampleRate arrival ∧ newEventId arrival.now arrival.entropy = ev.id ∧
      ∀ c ∈ outboundsOf events ev.id, FetchKeeps dropped blobs c.http := by
  have hserves := serves_serve (serves_load ((events.filterMap entryFromEvent).map storeEntry)) before
  rw [receive,scope_eq]
  constructor
  · intro h
    cases calls with
    | nil => exact .inl rfl
    | cons c cs =>
      right
      have hall := keeps_of_answered signatureOf dropped h
      obtain ⟨o,rest,hp⟩ : ∃ o rest, outboundsOf events ev.id = o :: rest := by
        cases hp : outboundsOf events ev.id with
        | nil => simp [hp] at hsig
        | cons o rest => exact ⟨o,rest,rfl⟩
      rw [hp] at h
      obtain ⟨r,hr,-⟩ := Outcome.Answers.mocked (List.forall₂_cons.mp h).1
      obtain ⟨-,x,hx,htake⟩ := hermeticFetch_mocked signatureOf dropped hr
      split at hx
      · rename_i hsampled
        cases hx
        have hid : (o.mock ev.id).eventId = newEventId arrival.now arrival.entropy := hserves.take_eventId htake
        exact ⟨hsampled,hid.symm,hall⟩
      · cases hx
  · rintro (rfl | ⟨hsampled,hid,hok⟩)
    · have hnil : outboundsOf events ev.id = [] := by simpa using hsig.symm
      rw [hnil]
      exact .nil
    · rw [if_pos hsampled,hid]
      have hne : ev.id ≠ "" := hid ▸ newEventId_ne_empty _ _
      have hpack : ofEvent ((events.filterMap entryFromEvent).map storeEntry) ev.id =
          ([] ++ outboundsOf events ev.id).map (OutboundCall.mock ev.id) := ofEvent_pack events ev.id
      refine handle_answered signatureOf dropped (x := ⟨ev.id,extractReplayId req.headers⟩) hne hserves hpack ?_ hsig hok
      intro g
      have hzero : ∀ k ∈ (before.map fun x => keyOf x.1 x.2).reverse, keyOf ev.id g ≠ k := by
        intro k hk heq
        obtain ⟨x,hx,rfl⟩ := List.mem_map.mp (List.mem_reverse.mp hk)
        exact hbefore x hx (keyOf_injective heq).1.symm
      simp only [List.append_nil,List.filter_nil,List.length_nil]
      exact List.count_eq_zero.mpr fun hmem => hzero _ hmem rfl

/-- `GET https://api.example.com/v1/ping`. -/
def pingCall : FetchCall := ⟨"https:","GET","api.example.com","/v1/ping","",none,none⟩

def pingSignature : Signature :=
  ⟨"d742c96df79084737fe2997c202b3daa20fdc081479e92a187e9f21d02e1aac3",by decide⟩

def capturedAt : Arrival := ⟨0,1700000000000,Vector.replicate 8 7⟩

def replayedAt : Arrival := ⟨0,1800000000000,Vector.replicate 8 9⟩

def pingEvent : Event := ⟨newEventId capturedAt.now capturedAt.entropy,some ⟨"GET","/",[],none⟩⟩

/-- The call of the handler, as it was captured. -/
def pingOutbound : CapturedEvent :=
  ⟨[],some ⟨"api.example.com",pingEvent.id,
    some ⟨"GET","/v1/ping",none,200,⟨[("content-type",["text/plain"])],by simp⟩,some ⟨some (.inline [112]),""⟩⟩⟩⟩

def pingTarget : TargetConfig := { baseURL := "http://127.0.0.1:3000", replayID := "rep_1" }

def pingRequest : Request :=
  ⟨"GET","http://127.0.0.1:3000/",[("user-agent","clearvoiance-replayer/0.1"),
    ("x-clearvoiance-event-id",pingEvent.id),("x-clearvoiance-replay-id","rep_1")],[]⟩

theorem dispatch_ping : dispatch pingTarget pingEvent 0 = .ok pingRequest := by decide +kernel

theorem ping_signature :
    [pingCall].map (fun _ => pingSignature) = (outboundsOf [pingOutbound] pingEvent.id).map (·.signature) := by
  decide +kernel

/-- The dispatcher names the captured event, the adapter does not read the name. -/
theorem replay_not_answered : dispatch pingTarget pingEvent 0 = .ok pingRequest ∧
    pingRequest.headers.get "x-clearvoiance-event-id" = some pingEvent.id ∧
    [pingCall].map (fun _ => pingSignature) = (outboundsOf [pingOutbound] pingEvent.id).map (·.signature) ∧
    (∃ info message, receive (fun _ => pingSignature) (fun _ => false) .express 1 replayedAt .strict
      (fetchMockPack [pingOutbound]) pingRequest [pingCall] = [.rejected info message]) ∧
    ∀ blobs, ¬ Answered blobs pingEvent.id (outboundsOf [pingOutbound] pingEvent.id)
      (receive (fun _ => pingSignature) (fun _ => false) .express 1 replayedAt .strict (fetchMockPack [pingOutbound])
        pingRequest [pingCall]) := by
  obtain ⟨info,message,hrejected⟩ : ∃ info message,
      receive (fun _ => pingSignature) (fun _ => false) .express 1 replayedAt .strict (fetchMockPack [pingOutbound])
        pingRequest [pingCall] = [.rejected info message] := ⟨_,_,rfl⟩
  refine ⟨dispatch_ping,by decide +kernel,ping_signature,⟨info,message,hrejected⟩,fun blobs h => ?_⟩
  rw [hrejected] at h
  obtain ⟨c,-,hanswers,-⟩ := List.forall₂_cons_right_iff.mp h
  exact hanswers.elim

theorem ping_keeps : ∀ c ∈ outboundsOf [pingOutbound] pingEvent.id, FetchKeeps (fun _ => false) (fun _ => []) c.http := by
  intro c hc
  have hhttp : (outboundsOf [pingOutbound] pingEvent.id).map (·.http) =
      [⟨"GET","/v1/ping",none,200,⟨[("content-type",["text/plain"])],by simp⟩,some ⟨some (.inline [112]),""⟩⟩] := by
    decide +kernel
  have hmem := List.mem_map_of_mem (f := fun c => OutboundCall.http c) hc
  rw [hhttp,List.mem_singleton] at hmem
  rw [hmem]
  refine ⟨?_,trivial,fun f hf => ?_⟩
  · unfold HermeticResponse.StatusCarried
    decide
  · obtain rfl : f = ("content-type",["text/plain"]) := by simpa using hf
    exact .inr ⟨"text/plain",by decide +kernel⟩

theorem replay_answered_ping : newEventId capturedAt.now capturedAt.entropy = pingEvent.id ∧
    Answered (fun _ => []) pingEvent.id (outboundsOf [pingOutbound] pingEvent.id)
      (receive (fun _ => pingSignature) (fun _ => false) .express 1 capturedAt .strict
        (serve (fetchMockPack [pingOutbound]) []) pingRequest [pingCall]) := by
  refine ⟨rfl,(replay_answered_iff (fun _ => pingSignature) (fun _ => false) (fun _ => []) .express 1 capturedAt .strict
    pingTarget 0 [pingOutbound] [] pingEvent pingRequest [pingCall] dispatch_ping (by simp) ping_signature).mpr ?_⟩
  exact .inr ⟨by decide +kernel,rfl,ping_keeps⟩

end Hermetic
end Clearvoiance
