import Clearvoiance.Hex
import Clearvoiance.UnicodeCase

/-! What the Fetch standard makes of a call `fetch(input, init)`: how a request is put together from
the two arguments, which calls are rejected before anything is sent, and what a body object is sent
as.  Streams are objects of the caller that live in a heap; the other bodies are values. -/
namespace Clearvoiance
namespace Fetch

open Hex (utf8 utf8_eq_nil)

abbrev Bytes := Hex.Bytes

def toLowerCase (s : String) : String := String.ofList (UnicodeCase.toLowerCase s.toList)

def toUpperCase (s : String) : String := String.ofList (UnicodeCase.toUpperCase s.toList)

structure Url where
  protocol : String
  username : String
  password : String
  hostname : String
  port : String
  pathname : String
  search : String
  deriving DecidableEq

def Url.host (u : Url) : String := if u.port = "" then u.hostname else u.hostname ++ ":" ++ u.port

/-- The fields of a `Headers` object, in the order in which they were appended. -/
abbrev Headers := List (String × String)

def Headers.has (h : Headers) (name : String) : Bool := h.any fun f => toLowerCase f.1 == name

def Headers.get (h : Headers) (name : String) : Option String :=
  match h.filter fun f => toLowerCase f.1 == name with
  | [] => none
  | fs => some (", ".intercalate (fs.map Prod.snd))

def isTokenChar (c : Char) : Bool :=
  c.isAlphanum || c.toNat ∈ [0x21,0x23,0x24,0x25,0x26,0x27,0x2A,0x2B,0x2D,0x2E,0x5E,0x5F,0x60,0x7C,0x7E]

def isToken (s : String) : Bool := s.toList ≠ [] && s.toList.all isTokenChar

def isHttpSpace (c : Char) : Bool := c = ' ' || c = '\t' || c = '\n' || c = '\r'

def normalizeValue (s : String) : String :=
  String.ofList ((s.toList.dropWhile isHttpSpace).reverse.dropWhile isHttpSpace).reverse

def isHeaderValue (s : String) : Bool :=
  s.toList.all fun c => c.toNat ≤ 0xFF && c ≠ Char.ofNat 0 && c ≠ '\n' && c ≠ '\r'

/-- `Headers.prototype.append`, which throws for a bad name or value. -/
def Headers.append (h : Headers) (name value : String) : Option Headers :=
  if isToken name && isHeaderValue (normalizeValue value) then some (h ++ [(name,normalizeValue value)]) else none

/-- The forms of `init.headers`.  A value of a record may be `undefined`. -/
inductive HeadersInit
  | headers (h : Headers)
  | pairs (ps : List (List String))
  | record (fields : List (String × Option String))
  deriving DecidableEq

def HeadersInit.fill : HeadersInit → Option Headers
  | .headers h => some h
  | .pairs ps => ps.foldlM (fun (h : Headers) p => match p with | [k,v] => h.append k v | _ => none) []
  | .record fs => fs.foldlM (fun (h : Headers) f => h.append f.1 (f.2.getD "undefined")) []

inductive Ending (ε : Type)
  | closed
  | errored (e : ε)
  | never
  deriving DecidableEq

/-- A `ReadableStream` of byte chunks. -/
structure Stream (ε : Type) where
  locked : Bool
  disturbed : Bool
  chunks : List Bytes
  ending : Ending ε
  deriving DecidableEq

inductive FormValue
  | text (s : String)
  | file (name type : String) (bytes : Bytes)
  deriving DecidableEq

/-- The kinds of body a caller may pass.  `binary` stands for an `ArrayBuffer` or a view of one,
`stream` for a reference into the heap, `other` for an object that is none of the kinds. -/
inductive BodyInit
  | text (s : String)
  | binary (bytes : Bytes)
  | params (ps : List (String × String))
  | blob (bytes : Bytes) (type : String)
  | form (entries : List (String × FormValue))
  | stream (id : ℕ)
  | other (text : String)
  deriving DecidableEq

/-- The value of `init.body`: what the caller put there, or a `Buffer` that someone else has put in
its place. -/
inductive Held
  | given (b : BodyInit)
  | buffer (bytes : Bytes)
  deriving DecidableEq

structure Init (β : Type) where
  method : Option String
  headers : Option HeadersInit
  body : Option β
  duplex : Bool
  keepalive : Option Bool
  deriving DecidableEq

structure Request (ε : Type) where
  url : Url
  method : String
  headers : Headers
  body : Option (Stream ε)
  length : Option ℕ
  keepalive : Bool
  deriving DecidableEq

inductive Input (ε : Type)
  | string (s : String)
  | url (u : Url)
  | request (r : Request ε)
  deriving DecidableEq

/-- The errors a call may be rejected with, apart from those of the network. -/
inductive Rejection (ε : Type)
  | invalidUrl (input : String)
  | failedToParse (input : String)
  | credentials
  | invalidMethod (method : String)
  | invalidHeaders
  | bodyNotAllowed
  | keepalive
  | disturbedOrLocked
  | duplexRequired
  | alreadyUsed
  | streamLocked
  | unusable
  | streamError (e : ε)
  deriving DecidableEq

/-- The bytes of a body and how they end; `length` is known unless the body is a stream. -/
structure Payload (ε : Type) where
  bytes : Bytes
  ending : Ending ε
  length : Option ℕ
  deriving DecidableEq

structure Sent (ε : Type) where
  url : Url
  method : String
  headers : Headers
  body : Option (Payload ε)
  deriving DecidableEq

/-- What a call depends on besides its arguments: the URL parser, the streams of the caller and the
boundary drawn for a form. -/
structure Env (ε : Type) where
  parse : String → Option Url
  streams : ℕ → Stream ε
  boundary : String

def Env.setStream {ε : Type} (env : Env ε) (id : ℕ) (s : Stream ε) : Env ε :=
  { env with streams := Function.update env.streams id s }

def forbiddenMethod (m : String) : Bool := toUpperCase m ∈ ["CONNECT","TRACE","TRACK"]

def normalizeMethod (m : String) : String :=
  if toUpperCase m ∈ ["DELETE","GET","HEAD","OPTIONS","POST","PUT"] then toUpperCase m else m

def percentEncode (b : UInt8) : String :=
  "%" ++ String.ofList ((Hex.encodeToString [b]).map Char.toUpper)

/-- One component in `application/x-www-form-urlencoded`. -/
def urlencode (s : String) : String :=
  String.join ((utf8 s).map fun b =>
    let c := Char.ofNat b.toNat
    if c = ' ' then "+" else if c.isAlphanum || c ∈ ['*','-','.','_'] then c.toString else percentEncode b)

/-- `URLSearchParams.prototype.toString`. -/
def serializeParams (ps : List (String × String)) : String :=
  "&".intercalate (ps.map fun p => urlencode p.1 ++ "=" ++ urlencode p.2)

def normalizeLinefeeds : List Char → List Char
  | [] => []
  | '\r' :: '\n' :: s => '\r' :: '\n' :: normalizeLinefeeds s
  | '\r' :: s => '\r' :: '\n' :: normalizeLinefeeds s
  | '\n' :: s => '\r' :: '\n' :: normalizeLinefeeds s
  | c :: s => c :: normalizeLinefeeds s

def escapeName (s : List Char) : String :=
  String.join (s.map fun c => if c = '\n' then "%0A" else if c = '\r' then "%0D" else if c.toNat = 0x22 then "%22" else c.toString)

/-- `multipart/form-data` encoding of a form. -/
def serializeForm (boundary : String) (entries : List (String × FormValue)) : Bytes :=
  let start := "--" ++ boundary ++ "\r\nContent-Disposition: form-data; name=\""
  let part (e : String × FormValue) : Bytes :=
    let name := escapeName (normalizeLinefeeds e.1.toList)
    match e.2 with
    | .text s => utf8 (start ++ name ++ "\"\r\n\r\n" ++ String.ofList (normalizeLinefeeds s.toList) ++ "\r\n")
    | .file file type bytes =>
      let type := if type = "" then "application/octet-stream" else type
      utf8 (start ++ name ++ "\"; filename=\"" ++ escapeName file.toList ++ "\"\r\nContent-Type: " ++ type ++
        "\r\n\r\n") ++ bytes ++ utf8 "\r\n"
  entries.flatMap part ++ utf8 ("--" ++ boundary ++ "--\r\n")

variable {ε : Type}

def Payload.ofBytes (bytes : Bytes) : Payload ε := ⟨bytes,.closed,some bytes.length⟩

def Stream.payload (s : Stream ε) (length : Option ℕ) : Payload ε := ⟨s.chunks.flatten,s.ending,length⟩

/-- The payload of a body object and the content type its kind stands for. -/
def extractBody (env : Env ε) (keepalive : Bool) : Held → Except (Rejection ε) (Payload ε × Option String)
  | .buffer bytes => .ok (.ofBytes bytes,none)
  | .given (.text s) => .ok (.ofBytes (utf8 s),some "text/plain;charset=UTF-8")
  | .given (.binary bytes) => .ok (.ofBytes bytes,none)
  | .given (.params ps) =>
    .ok (.ofBytes (utf8 (serializeParams ps)),some "application/x-www-form-urlencoded;charset=UTF-8")
  | .given (.blob bytes type) => .ok (.ofBytes bytes,if type = "" then none else some type)
  | .given (.form entries) =>
    .ok (.ofBytes (serializeForm env.boundary entries),some ("multipart/form-data; boundary=" ++ env.boundary))
  | .given (.other text) => .ok (.ofBytes (utf8 text),some "text/plain;charset=UTF-8")
  | .given (.stream id) =>
    if keepalive then .error .keepalive
    else if (env.streams id).disturbed || (env.streams id).locked then .error .disturbedOrLocked
    else .ok ((env.streams id).payload none,none)

def Input.body : Input ε → Option (Stream ε)
  | .request r => r.body
  | _ => none

def Input.keepalive : Input ε → Bool
  | .request r => r.keepalive
  | _ => false

/-- The URL, method and headers of a request, all of which are settled before its body. -/
structure Head where
  url : Url
  method : String
  headers : Headers
  keepalive : Bool
  deriving DecidableEq

def checkCredentials (u : Url) : Except (Rejection ε) Url :=
  if u.username ≠ "" || u.password ≠ "" then .error .credentials else .ok u

def requestUrl (env : Env ε) : Input ε → Except (Rejection ε) Url
  | .string s =>
    match env.parse s with
    | none => .error (.failedToParse s)
    | some u => checkCredentials u
  | .url u => checkCredentials u
  | .request r => .ok r.url

def requestMethod (input : Input ε) : Option String → Except (Rejection ε) String
  | some m => if isToken m && !forbiddenMethod m then .ok (normalizeMethod m) else .error (.invalidMethod m)
  | none =>
    match input with
    | .request r => .ok r.method
    | _ => .ok "GET"

def requestHeaders (input : Input ε) : Option HeadersInit → Except (Rejection ε) Headers
  | some h =>
    match h.fill with
    | some h => .ok h
    | none => .error .invalidHeaders
  | none =>
    match input with
    | .request r => .ok r.headers
    | _ => .ok []

/-- The first steps of the `Request` constructor, up to the check that the method may have a body. -/
def head {β : Type} (env : Env ε) (input : Input ε) (init : Option (Init β)) : Except (Rejection ε) Head := do
  let url ← requestUrl env input
  let method ← requestMethod input (init.bind (·.method))
  let headers ← requestHeaders input (init.bind (·.headers))
  if (method = "GET" || method = "HEAD") && ((init.bind (·.body)).isSome || input.body.isSome) then
    throw .bodyNotAllowed
  return ⟨url,method,headers,((init.bind (·.keepalive)).getD input.keepalive)⟩

/-- The body of a request, and its headers with the content type that the body adds. -/
def attachBody (env : Env ε) (input : Input ε) (init : Option (Init Held)) (h : Head) :
    Except (Rejection ε) (Sent ε) := do
  match init.bind (·.body) with
  | some body =>
    let (payload,type) ← extractBody env h.keepalive body
    let headers := match type with
      | some t => if h.headers.has "content-type" then h.headers else h.headers ++ [("content-type",t)]
      | none => h.headers
    if payload.length.isNone && !(init.any (·.duplex)) then throw .duplexRequired
    return ⟨h.url,h.method,headers,some payload⟩
  | none =>
    match input with
    | .request r =>
      match r.body with
      | some s =>
        if s.disturbed || s.locked then throw .alreadyUsed
        return ⟨h.url,h.method,h.headers,some (s.payload r.length)⟩
      | none => return ⟨h.url,h.method,h.headers,none⟩
    | _ => return ⟨h.url,h.method,h.headers,none⟩

/-- `new Request(input, init)`, the request that `fetch` sends. -/
def newRequest (env : Env ε) (input : Input ε) (init : Option (Init Held)) : Except (Rejection ε) (Sent ε) := do
  let h ← head env input init
  attachBody env input init h

end Fetch
end Clearvoiance
