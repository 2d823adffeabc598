import Clearvoiance.FetchTransparency
import Clearvoiance.OutboundCapture

/-! Calls of `fetch`, recorded by `patchFetch` and mocked by the hermetic `fetch`.  The two read the body and the
content type in their own ways: the capture writes a form as text and reads a stream to its end where the mock
takes both for empty, and of several content types the capture takes the last and the mock the first. -/
namespace Clearvoiance
namespace Fetch

open Signature MockPack OutboundCapture
open Hex (utf8)

variable {ε ρ : Type}

/-- What the caller has made of the bytes of an `ArrayBuffer` or a view, which neither side copies: when the mock
signs the call, and when the capture has read the response. -/
structure Rewriting where
  signed : Bytes → Bytes
  recorded : Bytes → Bytes
  signed_length : ∀ bytes, (signed bytes).length = bytes.length
  recorded_length : ∀ bytes, (recorded bytes).length = bytes.length

def Rewriting.none : Rewriting := ⟨id,id,fun _ => rfl,fun _ => rfl⟩

/-- The bytes that the capture has read of a body, as they are in the end. -/
def Rewriting.recordedBody (w : Rewriting) (body : Option BodyInit) (bytes : Bytes) : Bytes :=
  match body with
  | some (.binary _) => w.recorded bytes
  | _ => bytes

def capturedEvent (o : CaptureOptions) (w : Rewriting) (causedBy : String) (body : Option BodyInit) (r : Recorded)
    (x : Exchange) : CapturedEvent :=
  buildEvent o r.method (toLowerCase r.url.host) (targetFromHost r.url.hostname) r.url.protocol
    (r.url.pathname ++ r.url.search) causedBy (r.headers.lookup "content-type") [w.recordedBody body r.body] x

def readBody (w : Rewriting) : BodyInit → Bytes
  | .text s => utf8 s
  | .binary bytes => w.signed bytes
  | .params ps => utf8 (serializeParams ps)
  | .blob bytes _ => bytes
  | .form _ | .stream _ | .other _ => []

/-- `headerString`: a missing value is written as `undefined`. -/
def headerString (headers : Option HeadersInit) (name : String) : Option String :=
  match headers with
  | none => none
  | some (.headers h) => h.get (toLowerCase name)
  | some (.pairs ps) =>
    (ps.find? fun p => toLowerCase (p[0]?.getD "undefined") = toLowerCase name).map fun p => p[1]?.getD "undefined"
  | some (.record fs) => (fs.find? fun f => toLowerCase f.1 = toLowerCase name).map fun f => f.2.getD "undefined"

def mockBody (w : Rewriting) (input : Input ε) (body : Option BodyInit) : Reading ε :=
  match body with
  | some b => .done (readBody w b)
  | none =>
    match input.body with
    | some s => if s.disturbed || s.locked then .threw .unusable else s.read
    | none => .done []

def mockContentType (input : Input ε) (headers : Option HeadersInit) : Option String :=
  match input with
  | .request r => headerString headers "content-type" <|> r.headers.get "content-type"
  | _ => headerString headers "content-type"

def replayedInput (input : Input ε) (init : Option (Init BodyInit)) (url : Url) (bytes : Bytes) : SignatureInput :=
  ⟨callMethod input (init.bind (·.method)),url.host,url.pathname ++ url.search,bytes,
    (mockContentType input (init.bind (·.headers))).getD ""⟩

variable (fits : Json JsonStrings.JsString Binary64 → Bool)

/-- The signature that the hermetic `fetch` looks up, if it comes to that. -/
def hermeticFetch (w : Rewriting) (env : Env ε) (causedBy : Option String) (input : Input ε)
    (init : Option (Init BodyInit)) : Option (List Char) :=
  if causedBy.getD "" = "" then none
  else
    match callUrl env input,mockBody w input (init.bind (·.body)) with
    | .ok url,.done bytes => some (signatureOf fits (replayedInput input init url bytes))
    | _,_ => none

def captureContentType (input : Input ε) (headers : Option HeadersInit) : Option String :=
  (mergedRequestHeaders input headers).lookup "content-type"

def recordedInput (o : CaptureOptions) (input : Input ε) (init : Option (Init BodyInit)) (url : Url) (bytes : Bytes) :
    SignatureInput :=
  let contentType := captureContentType input (init.bind (·.headers))
  ⟨callMethod input (init.bind (·.method)),toLowerCase url.host,url.pathname ++ url.search,kept o contentType bytes,
    contentType.getD ""⟩

/-- A call is recorded inside of an event scope, once its body is read and it is answered. -/
theorem recorded_some {env : Env ε} {network : Sent ε → Reply ε ρ} {skipHosts : List String} {causedBy : Option String}
    {input : Input ε} {init : Option (Init BodyInit)} {r : Recorded}
    (h : (patchedFetch env network skipHosts causedBy input init).recorded = some r) :
    causedBy.getD "" ≠ "" ∧ callUrl env input = .ok r.url ∧ captureBody env input (init.bind (·.body)) = .done r.body ∧
      r.method = callMethod input (init.bind (·.method)) ∧
      r.headers = mergedRequestHeaders input (init.bind (·.headers)) := by
  have horiginal : ∀ env input init, (originalFetch env network input init).recorded = none := by
    intro env input init
    unfold originalFetch
    split <;> rfl
  unfold patchedFetch at h
  simp only at h
  split_ifs at h with hscope
  · rw [horiginal] at h
    cases h
  · split at h
    · cases h
    · rename_i url hurl
      split_ifs at h
      · rw [horiginal] at h
        cases h
      · split at h
        · cases h
        · cases h
        · rename_i bytes hbody
          unfold Run.record at h
          split at h
          · cases h
            exact ⟨hscope,hurl,hbody,rfl,rfl⟩
          · rw [horiginal] at h
            cases h

theorem host_toLowerCase_empty {url : Url} (h : toLowerCase url.host = "") : targetFromHost url.hostname = "" := by
  have hlist : UnicodeCase.toLowerCase url.host.toList = [] := by
    have := congrArg String.toList h
    simpa [toLowerCase] using this
  have hlen := UnicodeCase.length_le_lowerFrom [] url.host.toList
  rw [show UnicodeCase.lowerFrom [] url.host.toList = [] from hlist] at hlen
  have hhost : url.host.toList = [] := List.length_eq_zero_iff.mp (by simpa using hlen)
  have hname : url.hostname = "" := by
    unfold Url.host at hhost
    split_ifs at hhost
    · exact String.toList_eq_nil_iff.mp hhost
    · simp at hhost
  rw [hname]
  decide

theorem front_eq (o : CaptureOptions) (input : Input ε) (init : Option (Init BodyInit)) (url : Url)
    (bytes bytes' : Bytes) :
    front UnicodeCase.goToUpper UnicodeCase.goToLower (recordedInput o input init url bytes) =
      front UnicodeCase.toUpperCase UnicodeCase.toLowerCase (replayedInput input init url bytes') := by
  have hmethod : UnicodeCase.goToUpper (callMethod input (init.bind (·.method))).toList =
      UnicodeCase.toUpperCase (callMethod input (init.bind (·.method))).toList := goToUpper_toUpperCase _
  have hhost : UnicodeCase.goToLower (toLowerCase url.host).toList = UnicodeCase.toLowerCase url.host.toList := by
    simp only [toLowerCase,String.toList_ofList]
    exact UnicodeCase.goToLower_toLowerCase _
  simp only [front,recordedInput,replayedInput,hmethod,hhost]

/-- The mock reads nothing of the body although there may be something to read. -/
def BodyInit.unread : BodyInit → Bool
  | .form _ | .stream _ | .other _ => true
  | _ => false

/-- The body as the mock reads it, if it reads it at all. -/
def Rewriting.signedBody (w : Rewriting) (body : Option BodyInit) (bytes : Bytes) : Bytes :=
  match body with
  | some (.binary _) => w.signed bytes
  | _ => bytes

/-- What is kept of the body says what the body does on the other side; of a form or a stream nothing is kept. -/
def RoundTrips (o : CaptureOptions) (w : Rewriting) (env : Env ε) (input : Input ε) (init : Option (Init BodyInit)) : Prop :=
  let type := captureContentType input (init.bind (·.headers))
  ∃ bytes, captureBody env input (init.bind (·.body)) = .done bytes ∧
    if (init.bind (·.body)).any BodyInit.unread then kept o type bytes = []
    else SameBody fits (kept o type (w.recordedBody (init.bind (·.body)) bytes)) (type.getD "")
      (w.signedBody (init.bind (·.body)) bytes) ((mockContentType input (init.bind (·.headers))).getD "")

theorem sameBody_nil_iff (body : Bytes) (type type' : String) : SameBody fits body type [] type' ↔ body = [] := by
  simp [SameBody]

theorem recordedBody_unread (w : Rewriting) {body : Option BodyInit} (h : body.any BodyInit.unread = true)
    (bytes : Bytes) : w.recordedBody body bytes = bytes := by
  unfold Rewriting.recordedBody
  split
  · cases h
  · rfl

/-- What the mock reads once the capture has read the body. -/
theorem mockBody_eq (w : Rewriting) {env : Env ε} {input : Input ε} {body : Option BodyInit} {bytes : Bytes}
    (h : captureBody env input body = .done bytes) :
    mockBody w input body = .done (if body.any BodyInit.unread then [] else w.signedBody body bytes) := by
  cases body with
  | none => exact h
  | some b =>
    simp only [captureBody] at h
    cases b with
    | form entries => rfl
    | stream id => rfl
    | other text => rfl
    | text s => exact h
    | binary bs =>
      obtain rfl : bs = bytes := Reading.done.inj h
      rfl
    | params ps => exact h
    | blob bs type => exact h

/-- `{ method: "POST", body }` with a form of one field. -/
def postForm : Init BodyInit := ⟨some "POST",none,some (.form [("a",.text "b")]),false,none⟩

def postFormRecord : Recorded := ⟨"POST",pingUrl,[],utf8 "a=b"⟩

/-- `{ method: "POST", headers: { "Content-Type": "application/json" }, body: "[1,2]" }` -/
def postJson : Init BodyInit :=
  ⟨some "POST",some (.record [("Content-Type",some "application/json")]),some (.text "[1,2]"),false,none⟩

end Fetch
end Clearvoiance
