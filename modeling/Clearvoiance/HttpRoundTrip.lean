import Clearvoiance.OutboundCapture

/-! Outbound calls of Node's `http` and `https` modules, recorded by `patchHttp` and mocked by the hermetic shim.
Both read method, host, path, content type and body from the arguments of the call and from the chunks that
are written; the shim puts the port into the host and signs what is written up to the first `end`. -/
namespace Clearvoiance
namespace HttpRoundTrip

open Signature MockPack OutboundCapture
open Fetch (Url toLowerCase toUpperCase)

/-- A property of an options object: not there, there without a value, or there with one. -/
abbrev Field (α : Type) := Option (Option α)

inductive Port
  | number (n : ℕ)
  | text (s : String)
  deriving DecidableEq

/-- The value of an outgoing header.  A number is given by its text. -/
inductive OutgoingValue
  | text (s : String)
  | number (text : String)
  | list (vs : List String)
  deriving DecidableEq

/-- The names and values of a header object, in the order of its properties. -/
structure HeaderRecord where
  fields : List (String × Option OutgoingValue)
  keyed : (fields.map Prod.fst).Nodup
  deriving DecidableEq

/-- Headers as an object, or as an array of alternating names and values. -/
inductive OutgoingHeaders
  | record (h : HeaderRecord)
  | raw (items : List String)
  deriving DecidableEq

/-- `RequestOptions`, as far as the SDK reads them. -/
structure RequestOptions where
  protocol : Field String := none
  hostname : Field String := none
  host : Field String := none
  port : Field Port := none
  method : Field String := none
  path : Field String := none
  headers : Field OutgoingHeaders := none
  deriving DecidableEq

/-- `{ ...options, ...next }`. -/
def RequestOptions.spread (options next : RequestOptions) : RequestOptions :=
  { protocol := next.protocol <|> options.protocol
    hostname := next.hostname <|> options.hostname
    host := next.host <|> options.host
    port := next.port <|> options.port
    method := next.method <|> options.method
    path := next.path <|> options.path
    headers := next.headers <|> options.headers }

inductive UrlArgument
  | string (s : String)
  | url (u : Url)
  deriving DecidableEq

/-- The arguments of `request` and `get` apart from the callback. -/
structure Arguments where
  url : Option UrlArgument := none
  options : Option RequestOptions := none
  deriving DecidableEq

def UrlArgument.parsed (parse : String → Option Url) : UrlArgument → Option Url
  | .string s => parse s
  | .url u => some u

def urlOptions (u : Url) : RequestOptions :=
  { protocol := some (some u.protocol)
    hostname := some (some u.hostname)
    port := some (if u.port = "" then none else some (.text u.port))
    path := some (some (u.pathname ++ u.search)) }

/-- `normalizeRequestArgs` of both files: the options and the protocol, unless the URL does not parse. -/
def normalizeRequestArgs (parse : String → Option Url) (args : Arguments) (defaultProtocol : String) :
    Option (RequestOptions × String) := do
  let (options,protocol) ← match args.url with
    | some a => (a.parsed parse).map fun u => (urlOptions u,u.protocol)
    | none => some ({},defaultProtocol)
  match args.options with
  | some next =>
    let options := options.spread next
    some (options,options.protocol.join.getD protocol)
  | none => some (options,protocol)

/-- `String(options.hostname ?? options.host ?? "localhost").toLowerCase()`. -/
def RequestOptions.hostText (o : RequestOptions) : String :=
  toLowerCase ((o.hostname.join <|> o.host.join).getD "localhost")

def RequestOptions.methodText (o : RequestOptions) : String := toUpperCase (o.method.join.getD "GET")

def RequestOptions.pathText (o : RequestOptions) : String := o.path.join.getD "/"

def Port.truthy : Port → Bool
  | .number n => n ≠ 0
  | .text s => s ≠ ""

def Port.print : Port → String
  | .number n => String.ofList (Nat.toDigits 10 n)
  | .text s => s

/-- ``a.options.port ? `:${a.options.port}` : ""``. -/
def RequestOptions.portText (o : RequestOptions) : String :=
  match o.port.join with
  | some p => if p.truthy then ":" ++ p.print else ""
  | none => ""

/-- The value behind the first of the names that is `name` in lower case. -/
def lookupRaw (name : String) : List String → Option String
  | k :: v :: rest => if toLowerCase k = name then some v else lookupRaw name rest
  | _ => none

def lookupRecord (name : String) (h : HeaderRecord) : Option (Option OutgoingValue) :=
  (h.fields.find? fun f => toLowerCase f.1 = name).map Prod.snd

def lookupOutgoingHeader (headers : Option OutgoingHeaders) (name : String) : Option OutgoingValue :=
  match headers with
  | none => none
  | some (.raw items) => (lookupRaw (toLowerCase name) items).map .text
  | some (.record h) =>
    match (h.fields.lookup name).join with
    | some v => some v
    | none => (lookupRecord (toLowerCase name) h).join

def stringHeader : Option OutgoingValue → Option String
  | some (.text s) => some s
  | some (.list vs) => vs.head?
  | some (.number t) => some t
  | none => none

def firstHeader (headers : Option OutgoingHeaders) (name : String) : Option String :=
  match headers with
  | none => none
  | some (.raw items) => lookupRaw (toLowerCase name) items
  | some (.record h) =>
    match (lookupRecord (toLowerCase name) h).join with
    | some (.list vs) => vs.head?
    | some (.number t) => some t
    | some (.text s) => some s
    | none => none

/-- What is passed to `write` and `end`; `other` is neither text nor bytes. -/
inductive Chunk
  | text (s : String)
  | buffer (b : SharedBuffer)
  | uint8Array (b : Bytes)
  | other
  deriving DecidableEq

/-- `toBuffer` of both files: text and a plain `Uint8Array` are copied, a `Buffer` is not. -/
def toBuffer : Chunk → SharedBuffer
  | .text s => .own (Hex.utf8 s)
  | .buffer b => b
  | .uint8Array b => .own b
  | .other => .own []

inductive Op
  | write (chunk : Option Chunk)
  | finish (chunk : Option Chunk)
  deriving DecidableEq

def Op.chunk : Op → Option Chunk
  | .write c | .finish c => c

def Op.buffers (op : Op) : List SharedBuffer := (op.chunk.map toBuffer).toList

def Op.recorded (op : Op) : List Bytes := op.buffers.map (·.recorded)

def Op.sent (op : Op) : List Bytes := op.buffers.map (·.sent)

/-- A call of `request` or `get` of one of the two modules, and what the caller does with the request. -/
structure Call where
  defaultProtocol : String
  get : Bool
  args : Arguments
  ops : List Op
  deriving DecidableEq

/-- `get` ends the request before it returns it. -/
def Call.steps (c : Call) : List Op := if c.get then .finish none :: c.ops else c.ops

/-- The event that the patched `request` records once the exchange is over, after `n` steps of the caller.  The
call passes through outside of an event scope and for a skipped host, and throws if its URL does not parse. -/
def patchedRequest (o : CaptureOptions) (parse : String → Option Url) (causedBy : Option String) (c : Call) (n : ℕ)
    (x : Exchange) : Option CapturedEvent := do
  let (options,protocol) ← normalizeRequestArgs parse c.args c.defaultProtocol
  let host := options.hostText
  let event := causedBy.getD ""
  if event = "" ∨ host ∈ o.skipHosts.map toLowerCase then none
  else
    let contentType := stringHeader (lookupOutgoingHeader options.headers.join "content-type")
    some (buildEvent o options.methodText host (targetFromHost host) protocol options.pathText event contentType
      ((c.steps.take n).flatMap Op.recorded) x)

/-- The request object of the shim.  The chunks are read when the request is signed. -/
structure HermeticRequest where
  reqChunks : List Bytes := []
  ended : Bool := false
  signature : Option (List Char) := none

def hermeticWrite (r : HermeticRequest) (chunk : Option Chunk) : HermeticRequest :=
  { r with reqChunks := r.reqChunks ++ (Op.write chunk).sent }

def replayedInput (options : RequestOptions) (body : Bytes) : SignatureInput :=
  ⟨options.methodText,options.hostText ++ options.portText,options.pathText,body,
    (firstHeader options.headers.join "content-type").getD ""⟩

variable (fits : Json JsonStrings.JsString Binary64 → Bool)

def hermeticEnd (options : RequestOptions) (r : HermeticRequest) (chunk : Option Chunk) : HermeticRequest :=
  if r.ended then r
  else
    let reqChunks := r.reqChunks ++ (Op.finish chunk).sent
    ⟨reqChunks,true,some (signatureOf fits (replayedInput options reqChunks.flatten))⟩

def hermeticStep (options : RequestOptions) (r : HermeticRequest) : Op → HermeticRequest
  | .write chunk => hermeticWrite r chunk
  | .finish chunk => hermeticEnd fits options r chunk

/-- The signature that the shim looks up, if it comes to that. -/
def hermeticRequest (parse : String → Option Url) (causedBy : Option String) (c : Call) : Option (List Char) := do
  let (options,_) ← normalizeRequestArgs parse c.args c.defaultProtocol
  if causedBy.getD "" = "" then none
  else (c.steps.foldl (hermeticStep fits options) {}).signature

/-- What is written up to the first `end`, as it is then. -/
def written : List Op → Option Bytes
  | [] => none
  | .write c :: ops => (written ops).map fun bs => (Op.write c).sent.flatten ++ bs
  | .finish c :: _ => some (Op.finish c).sent.flatten

theorem signature_ended (options : RequestOptions) {r : HermeticRequest} (h : r.ended = true) (ops : List Op) :
    (ops.foldl (hermeticStep fits options) r).signature = r.signature := by
  induction ops generalizing r with
  | nil => rfl
  | cons op ops ih =>
    rw [List.foldl_cons]
    cases op with
    | write c => exact ih (r := hermeticWrite r c) h
    | finish c =>
      have hsame : hermeticEnd fits options r c = r := by simp [hermeticEnd,h]
      rw [hermeticStep,hsame]
      exact ih h

/-- The shim signs what is written up to the first `end`, once. -/
theorem signature_foldl (options : RequestOptions) {r : HermeticRequest} (h : r.ended = false) (hs : r.signature = none)
    (ops : List Op) : (ops.foldl (hermeticStep fits options) r).signature =
      (written ops).map fun bs => signatureOf fits (replayedInput options (r.reqChunks.flatten ++ bs)) := by
  induction ops generalizing r with
  | nil => exact hs
  | cons op ops ih =>
    rw [List.foldl_cons]
    cases op with
    | write c =>
      have hflat : ∀ bs, (hermeticWrite r c).reqChunks.flatten ++ bs =
          r.reqChunks.flatten ++ ((Op.write c).sent.flatten ++ bs) := by
        intro bs
        simp [hermeticWrite]
      rw [hermeticStep,ih (r := hermeticWrite r c) h hs,written]
      cases written ops with
      | none => simp only [Option.map_none]
      | some bs => simp only [Option.map_some,hflat]
    | finish c =>
      have hended : (hermeticEnd fits options r c).ended = true := by
        rw [hermeticEnd,h]
        simp only [Bool.false_eq_true,if_false]
      rw [hermeticStep,signature_ended fits options hended,hermeticEnd,h,written]
      simp only [Bool.false_eq_true,if_false,List.flatten_append,Option.map_some]

/-- The host of the options, in lower case, with or without the port. -/
theorem host_eq_iff (options : RequestOptions) :
    UnicodeCase.goToLower options.hostText.toList =
      UnicodeCase.toLowerCase (options.hostText ++ options.portText).toList ↔ options.portText = "" := by
  have hplain : UnicodeCase.toLowerCase options.hostText.toList = UnicodeCase.goToLower options.hostText.toList := by
    rw [UnicodeCase.toLowerCase_eq_goToLower_iff]
    simp only [RequestOptions.hostText,toLowerCase,String.toList_ofList]
    exact UnicodeCase.plainLower_toLowerCase _
  constructor
  · intro h
    have hlen := congrArg List.length h
    have hlong := UnicodeCase.length_le_lowerFrom [] (options.hostText ++ options.portText).toList
    simp only [UnicodeCase.goToLower,UnicodeCase.toLowerCase,List.length_map,String.toList_append,
      List.length_append] at hlen hlong
    have hzero : options.portText.toList.length = 0 := by omega
    exact String.toList_eq_nil_iff.mp (List.length_eq_zero_iff.mp hzero)
  · intro h
    rw [h,String.append_empty,hplain]

theorem portText_eq_empty_iff (options : RequestOptions) :
    options.portText = "" ↔ ∀ p ∈ options.port.join, p.truthy = false := by
  unfold RequestOptions.portText
  cases options.port.join with
  | none => simp
  | some p =>
    cases hp : p.truthy with
    | false => simp [hp]
    | true =>
      simp only [if_true,Option.mem_def,Option.some.injEq,forall_eq',hp,reduceCtorEq,iff_false]
      intro h
      have := congrArg String.toList h
      simp at this

def recordedInput (o : CaptureOptions) (options : RequestOptions) (pushed : Bytes) : SignatureInput :=
  let contentType := stringHeader (lookupOutgoingHeader options.headers.join "content-type")
  ⟨options.methodText,options.hostText,options.pathText,kept o contentType pushed,contentType.getD ""⟩

theorem front_recorded_iff (o : CaptureOptions) (options : RequestOptions) (pushed body : Bytes) :
    front UnicodeCase.goToUpper UnicodeCase.goToLower (recordedInput o options pushed) =
      front UnicodeCase.toUpperCase UnicodeCase.toLowerCase (replayedInput options body) ↔
    ∀ p ∈ options.port.join, p.truthy = false := by
  have hmethod : UnicodeCase.goToUpper options.methodText.toList = UnicodeCase.toUpperCase options.methodText.toList :=
    goToUpper_toUpperCase _
  rw [← portText_eq_empty_iff,← host_eq_iff]
  simp only [front,recordedInput,replayedInput,hmethod,List.append_assoc,List.cons_append]
  rw [List.append_cancel_left_eq,List.cons.injEq]
  simp

/-- The bytes of what the capture has seen after `n` steps of the caller, as they are once the exchange is over. -/
def Call.pushed (c : Call) (n : ℕ) : Bytes := ((c.steps.take n).flatMap Op.recorded).flatten

variable {o : CaptureOptions} {parse : String → Option Url} {causedBy : Option String} {c : Call} {n : ℕ}
  {x : Exchange}

/-- A recorded call is one that the shim takes up, and the engine hashes its recorded input. -/
theorem patchedRequest_some {ev : CapturedEvent} {options : RequestOptions} {protocol : String}
    (hev : patchedRequest o parse causedBy c n x = some ev)
    (hargs : normalizeRequestArgs parse c.args c.defaultProtocol = some (options,protocol)) :
    causedBy.getD "" ≠ "" ∧ ∃ e, entryFromEvent ev = some e ∧
      e.signature.text.toList = goSignatureOf (recordedInput o options (c.pushed n)) := by
  simp only [patchedRequest,hargs,Option.bind_eq_bind,Option.bind_some] at hev
  split_ifs at hev with hskip
  rw [not_or] at hskip
  have htarget : options.hostText = "" → targetFromHost options.hostText = "" := by
    intro h
    rw [h]
    decide
  have hentry := entry_buildEvent o options.methodText htarget protocol options.pathText (causedBy.getD "")
    (stringHeader (lookupOutgoingHeader options.headers.join "content-type")) ((c.steps.take n).flatMap Op.recorded) x
  rw [Option.some.inj hev] at hentry
  exact ⟨hskip.1,hentry⟩

/-- Inside of an event scope the shim signs what is written up to the first `end`. -/
theorem hermeticRequest_eq {options : RequestOptions} {protocol : String} (hscope : causedBy.getD "" ≠ "")
    (hargs : normalizeRequestArgs parse c.args c.defaultProtocol = some (options,protocol)) :
    hermeticRequest fits parse causedBy c =
      (written c.steps).map fun bs => signatureOf fits (replayedInput options bs) := by
  simp only [hermeticRequest,hargs,Option.bind_eq_bind,Option.bind_some,if_neg hscope]
  exact signature_foldl fits options rfl rfl c.steps

/-- The port is absent, empty or zero, the request is ended, and what is kept of the pushed bytes says what is written
up to the `end`. -/
def RoundTrips (o : CaptureOptions) (options : RequestOptions) (pushed : Bytes) (steps : List Op) : Prop :=
  ∃ body, written steps = some body ∧
    ((∀ p ∈ options.port.join, p.truthy = false) ∧
      (let contentType := stringHeader (lookupOutgoingHeader options.headers.join "content-type")
       SameBody fits (kept o contentType pushed) (contentType.getD "") body
        ((firstHeader options.headers.join "content-type").getD "")) ∨
      Coincide fits (recordedInput o options pushed) (replayedInput options body))

def portOptions : RequestOptions :=
  { host := some (some "localhost")
    port := some (some (.number 8080))
    path := some (some "/v1/ping") }

/-- `http.request({ host: "localhost", port: 8080, path: "/v1/ping" }).end()`. -/
def portCall : Call := ⟨"http:",false,⟨none,some portOptions⟩,[.finish none]⟩

def jsonOptions : RequestOptions :=
  { hostname := some (some "api.example.com")
    method := some (some "post")
    path := some (some "/v1/items")
    headers := some (some (.record ⟨[("Content-Type",some (.text "application/json"))],by simp⟩)) }

/-- A POST of a JSON document in two chunks to the default port. -/
def jsonCall : Call :=
  ⟨"https:",false,⟨none,some jsonOptions⟩,[.write (some (.text "[1,")),.finish (some (.text "2]"))]⟩

end HttpRoundTrip
end Clearvoiance
