import Clearvoiance.MockStore
import Clearvoiance.Signature

/-! The mock pack: the engine turns every captured outbound HTTP call of a session into an entry with
the signature of its request and the recorded response, and the SDK puts the entries it receives into
its mock store. -/
namespace Clearvoiance
namespace MockPack

open Signature

structure BlobRef where
  bucket : String
  key : String
  sha256 : String
  deriving DecidableEq

inductive BodyData
  | inline (bytes : Bytes)
  | blob (ref : BlobRef)
  deriving DecidableEq

structure Body where
  data : Option BodyData
  contentType : String
  deriving DecidableEq

/-- A protobuf map: one list of values for each name. -/
structure HeaderMap where
  fields : List (String × List String)
  keyed : (fields.map Prod.fst).Nodup
  deriving DecidableEq

structure HttpExchange where
  method : String
  path : String
  requestBody : Option Body
  status : ℕ
  responseHeaders : HeaderMap
  responseBody : Option Body
  deriving DecidableEq

structure Outbound where
  target : String
  causedByEventId : String
  http : Option HttpExchange
  deriving DecidableEq

structure CapturedEvent where
  metadata : List (String × String)
  outbound : Option Outbound
  deriving DecidableEq

/-- `GetMockPackResponse`. -/
structure PackEntry where
  causedByEventId : String
  signature : MockStore.Signature
  status : ℕ
  responseHeaders : HeaderMap
  responseBody : Bytes
  responseContentType : String
  deriving DecidableEq

def inlineBytes (b : Option Body) : Bytes :=
  match b.bind (·.data) with
  | some (.inline bytes) => bytes
  | _ => []

def contentTypeOf (b : Option Body) : String := (b.map (·.contentType)).getD ""

def hostOf (ev : CapturedEvent) (outbound : Outbound) : String :=
  let host := (ev.metadata.lookup "host").getD ""
  if host = "" then outbound.target else host

def signatureInput (ev : CapturedEvent) (outbound : Outbound) (http : HttpExchange) : SignatureInput :=
  ⟨http.method,hostOf ev outbound,http.path,inlineBytes http.requestBody,contentTypeOf http.requestBody⟩

def engineSignature (i : SignatureInput) : MockStore.Signature :=
  ⟨String.ofList (goSignatureOf i),by simpa [goSignatureOf] using bar_not_mem_sha256Hex _⟩

def entryFromEvent (ev : CapturedEvent) : Option PackEntry := do
  let outbound ← ev.outbound
  let http ← outbound.http
  some ⟨outbound.causedByEventId,engineSignature (signatureInput ev outbound http),http.status,http.responseHeaders,
    inlineBytes http.responseBody,contentTypeOf http.responseBody⟩

def CapturedEvent.isHttp (ev : CapturedEvent) : Bool := (ev.outbound.bind (·.http)).isSome

theorem entryFromEvent_isSome (ev : CapturedEvent) : (entryFromEvent ev).isSome = ev.isHttp := by
  unfold entryFromEvent CapturedEvent.isHttp
  cases hout : ev.outbound with
  | none => rfl
  | some outbound => cases hhttp : outbound.http <;> simp [hhttp]

/-- An object cannot get a property of its own under this name by assignment. -/
def protoKey : String := "__proto__"

/-- `mapHeaderValues`: the names of a map are the properties of a new object. -/
def mapHeaderValues (h : HeaderMap) : List (String × List String) := h.fields.filter fun f => f.1 ≠ protoKey

/-- What the SDK stores for an entry of the stream. -/
def storeEntry (e : PackEntry) : MockStore.MockEntry :=
  ⟨e.causedByEventId,e.signature,e.status,mapHeaderValues e.responseHeaders,e.responseBody,e.responseContentType⟩

/-- The store after the SDK has read the pack of a session. -/
def fetchMockPack (events : List CapturedEvent) : MockStore.Store :=
  MockStore.load ((events.filterMap entryFromEvent).map storeEntry)

end MockPack
end Clearvoiance
