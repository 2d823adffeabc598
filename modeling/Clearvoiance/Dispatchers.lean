import Clearvoiance.CapturedEvents
import Clearvoiance.Fetch
import Clearvoiance.JsonStrings
import Clearvoiance.Replay

/-! The dispatchers of the replay engine: HTTP and webhook requests are sent to the target as they were
captured, cron and queue jobs are posted to its invoke endpoint, Socket.IO events drive a client per
captured socket and virtual user.  What the environment answers during one dispatch, from the blob
store to the target, is a `World`; a dispatcher returns its result and, if it fails, the message of the
error. -/
namespace Clearvoiance
namespace Dispatchers

open CapturedEvents
open Replay (DispatchResult)

abbrev Bytes := Hex.Bytes

abbrev Event := Replay.Event (Option Payload)

/-- The values of a header under its canonical name. -/
abbrev Header := List (String × List String)

structure Request where
  method : String
  url : String
  header : Header
  body : Bytes

structure Response where
  statusCode : ℕ
  read : ℕ

structure Target where
  baseURL : String
  replayID : String

/-- `blobs` is missing where no blob reader is configured, `client` says whether the dispatcher's map
has a client for the captured socket; the optional messages are those of errors. -/
structure World where
  blobs : Option (BlobRef → Except String Bytes)
  mutate : Bytes → String → ℕ → Except String Bytes
  newRequest : String → String → Option String
  applyAuth : Request → Except String Request
  exchange : Request → Except String Response
  elapsedNs : ℤ
  openClient : String → String → Option String
  client : Bool
  emitEvent : String → String → Bytes → ℕ × Option String

/-- What a dispatcher returns: its result, and the error if there is one. -/
abbrev Outcome := DispatchResult × Option String

def blank : DispatchResult := ⟨0,0,0,0,"","","","",""⟩

def uint16 (n : ℕ) : ℕ := n % 2^16

def uint32 (n : ℕ) : ℕ := n % 2^32

def canonicalFrom (upper : Bool) : List Char → List Char
  | [] => []
  | c :: cs => (if upper then c.toUpper else c.toLower) :: canonicalFrom (c = '-') cs

def canonicalMIMEHeaderKey (s : String) : String :=
  if s.toList.all Fetch.isTokenChar then String.ofList (canonicalFrom true s.toList) else s

namespace Header

def get (h : Header) (key : String) : List String := (h.lookup key).getD []

def put (h : Header) (key : String) (values : List String) : Header :=
  h.filter (·.1 ≠ key) ++ [(key,values)]

def add (h : Header) (name value : String) : Header :=
  h.put (canonicalMIMEHeaderKey name) (h.get (canonicalMIMEHeaderKey name) ++ [value])

def set (h : Header) (name value : String) : Header := h.put (canonicalMIMEHeaderKey name) [value]

theorem get_set (h : Header) (name value : String) : (h.set name value).get (canonicalMIMEHeaderKey name) = [value] := by
  have hnone : (h.filter (·.1 ≠ canonicalMIMEHeaderKey name)).lookup (canonicalMIMEHeaderKey name) = none := by
    rw [List.lookup_eq_none_iff]
    intro x hx
    have hne := of_decide_eq_true (List.mem_filter.mp hx).2
    simpa using hne.symm
  rw [get,set,put,List.lookup_append,hnone]
  simp

theorem get_set_of_ne (h : Header) {name key : String} (value : String) (hne : key ≠ canonicalMIMEHeaderKey name) :
    (h.set name value).get key = h.get key := by
  have hsame : (h.filter (·.1 ≠ canonicalMIMEHeaderKey name)).lookup key = h.lookup key := by
    induction h with
    | nil => rfl
    | cons x h ih =>
      by_cases hx : x.1 = canonicalMIMEHeaderKey name
      · have hkey : (key == x.1) = false := by simpa [hx] using hne
        rw [List.filter_cons_of_neg (by simpa using hx),ih,List.lookup_cons,hkey]
      · rw [List.filter_cons_of_pos (by simpa using hx),List.lookup_cons,List.lookup_cons,ih]
  have hkey : (key == canonicalMIMEHeaderKey name) = false := by simpa using hne
  rw [get,set,put,List.lookup_append,hsame,List.lookup_cons,hkey]
  simp [get]

end Header

/-- `strings.TrimRight(s, "/")`. -/
def trimSlashes (s : String) : String := String.ofList (s.toList.reverse.dropWhile (· = '/')).reverse

def fetchBody (w : World) : Option Body → Except String Bytes
  | none => .ok []
  | some body =>
    match body.data with
    | some (.inline bytes) => .ok bytes
    | some (.blob ref) =>
      match w.blobs with
      | none => .error ("body stored as blob " ++ ref.bucket ++ "/" ++ ref.key ++ " but no blob reader configured")
      | some get => get ref
    | none => .ok []

/-- The bytes of a dispatcher that ignores the error of `fetchBody`. -/
def fetchedBytes (w : World) (body : Option Body) : Bytes :=
  match fetchBody w body with
  | .ok bytes => bytes
  | .error _ => []

def firstValue (headers : List (String × List String)) (name : String) : Option String :=
  (headers.lookup name).bind List.head?

def contentTypeFrom (h : HttpEvent) : String :=
  match h.requestBody with
  | some body =>
    if body.contentType ≠ "" then body.contentType
    else ((firstValue h.headers "content-type").or (firstValue h.headers "Content-Type")).getD ""
  | none => ((firstValue h.headers "content-type").or (firstValue h.headers "Content-Type")).getD ""

def shouldSkipHeader (name : String) : Bool :=
  String.ofList (UnicodeCase.goToLower name.toList) ∈
    ["host","content-length","connection","keep-alive","proxy-authenticate","proxy-authorization","te","trailer",
      "transfer-encoding","upgrade","accept-encoding"]

def replayedHeader (headers : List (String × List String)) : Header :=
  headers.foldl (fun h field =>
    if shouldSkipHeader field.1 then h
    else field.2.foldl (fun h v => if v = "[REDACTED]" then h else h.add field.1 v) h) []

def userAgent : String := "clearvoiance-replayer/0.1"

namespace Http

def canHandle (ev : Event) : Bool :=
  match ev.payload with
  | some (.http _) | some (.webhook _) => true
  | _ => false

def extractHTTP (ev : Event) : Option HttpEvent :=
  match ev.payload with
  | some (.http h) => some h
  | some (.webhook h) => h
  | _ => none

def path (h : HttpEvent) : String :=
  if h.path = "" then "/" else if h.path.toList.head? = some '/' then h.path else "/" ++ h.path

def result (h : HttpEvent) : DispatchResult :=
  { blank with httpMethod := h.method, httpPath := path h, httpRoute := h.routeTemplate }

def request (target : Target) (ev : Event) (vu : ℕ) (h : HttpEvent) (body : Bytes) : Request :=
  let header := ((replayedHeader h.headers).set "User-Agent" userAgent).set "X-Clearvoiance-Event-Id" ev.id
  let header := if target.replayID ≠ "" then header.set "X-Clearvoiance-Replay-Id" target.replayID else header
  ⟨h.method,trimSlashes target.baseURL ++ path h,
    if 0 < vu then header.set "X-Clearvoiance-Vu" (toString vu) else header,body⟩

/-- The mutated body and the request that is sent, or the message of the error that the dispatcher
returns. -/
def prepare (w : World) (target : Target) (ev : Event) (vu : ℕ) (h : HttpEvent) (body : Bytes) :
    Except String (Bytes × Request) :=
  match w.mutate body (contentTypeFrom h) vu with
  | .error message => .error ("mutator: " ++ message)
  | .ok mutated =>
    match w.newRequest h.method (trimSlashes target.baseURL ++ path h) with
    | some message => .error ("build request: " ++ message)
    | none =>
      match w.applyAuth (request target ev vu h mutated) with
      | .error message => .error ("auth: " ++ message)
      | .ok req => .ok (mutated,req)

/-- `client.Do` and the reading of the response. -/
def fire (w : World) (h : HttpEvent) (body : Bytes) (req : Request) : DispatchResult :=
  match w.exchange req with
  | .error message =>
    { result h with responseDurationNs := w.elapsedNs, errorCode := "network", errorMessage := message
                    bytesSent := uint32 body.length }
  | .ok resp =>
    { result h with responseStatus := uint16 resp.statusCode, responseDurationNs := w.elapsedNs
                    bytesSent := uint32 body.length, bytesReceived := uint32 resp.read }

def dispatch (w : World) (target : Target) (ev : Event) (vu : ℕ) : Outcome :=
  match extractHTTP ev with
  | none => (blank,some "http dispatcher: event has no http payload")
  | some h =>
    match fetchBody w h.requestBody with
    | .error message => ({ result h with errorCode := "blob_fetch", errorMessage := message },none)
    | .ok body =>
      match prepare w target ev vu h body with
      | .error message => (result h,some message)
      | .ok (mutated,req) => (fire w h mutated req,none)

end Http

namespace Invoke

def invokePath : String := "/__clearvoiance/cron/invoke"

inductive Value
  | text (s : String)
  | int (n : ℤ)

/-- The escapes of `json.Marshal` within a string. -/
def quote (s : String) : List Char :=
  s.toList.flatMap fun c =>
    if c = '<' ∨ c = '>' ∨ c = '&' ∨ JsonStrings.isSeparator c then JsonStrings.unicodeEscape c.toNat
    else JsonStrings.escapeChar c

def Value.encode : Value → List Char
  | .text s => '"' :: quote s ++ ['"']
  | .int n => (toString n).toList

/-- `json.Marshal` of a map: the keys in ascending order. -/
def marshal (fields : List (String × Value)) : Bytes :=
  let sorted := fields.insertionSort fun a b => a.1 ≤ b.1
  let members := sorted.map fun f => '"' :: quote f.1 ++ ['"',':'] ++ f.2.encode
  Hex.utf8 (String.ofList ('\x7b' :: [','].intercalate members ++ ['\x7d']))

def base64Digit (n : ℕ) : Char :=
  if n < 26 then Char.ofNat (65+n) else if n < 52 then Char.ofNat (71+n) else if n < 62 then Char.ofNat (n-4)
  else if n = 62 then '+' else '/'

/-- `base64.StdEncoding.EncodeToString`. -/
def encodeToString : Bytes → List Char
  | a :: b :: c :: rest =>
    let n := a.toNat*65536+b.toNat*256+c.toNat
    base64Digit (n/262144) :: base64Digit (n/4096 % 64) :: base64Digit (n/64 % 64) :: base64Digit (n % 64) ::
      encodeToString rest
  | [a,b] =>
    let n := a.toNat*65536+b.toNat*256
    [base64Digit (n/262144),base64Digit (n/4096 % 64),base64Digit (n/64 % 64),'=']
  | [a] =>
    let n := a.toNat*65536
    [base64Digit (n/262144),base64Digit (n/4096 % 64),'=','=']
  | [] => []

def encodeBase64 (raw : Bytes) : String := String.ofList (encodeToString raw)

def request (target : Target) (ev : Event) (body : Bytes) : Request :=
  ⟨"POST",trimSlashes target.baseURL ++ invokePath,
    ((Header.set [] "Content-Type" "application/json").set "User-Agent" userAgent).set "X-Clearvoiance-Event-Id" ev.id,
    body⟩

def fire (w : World) (body : Bytes) (req : Request) : DispatchResult :=
  match w.exchange req with
  | .error message =>
    { blank with responseDurationNs := w.elapsedNs, errorCode := "network", errorMessage := message
                 bytesSent := uint32 body.length }
  | .ok resp =>
    { blank with responseStatus := uint16 resp.statusCode, responseDurationNs := w.elapsedNs
                 bytesSent := uint32 body.length, httpMethod := "POST", httpPath := invokePath, httpRoute := invokePath }

def post (w : World) (target : Target) (ev : Event) (kind : String) (fields : List (String × Value)) : Outcome :=
  let body := marshal fields
  match w.newRequest "POST" (trimSlashes target.baseURL ++ invokePath) with
  | some message => (blank,some ("build " ++ kind ++ " invoke request: " ++ message))
  | none =>
    match w.applyAuth (request target ev body) with
    | .error message => ({ blank with errorCode := "auth", errorMessage := message },none)
    | .ok req => (fire w body req,none)

end Invoke

namespace Cron

def canHandle (ev : Event) : Bool :=
  match ev.payload with
  | some (.cron _) => true
  | _ => false

def payload (w : World) (c : CronEvent) (vu : ℕ) : List (String × Invoke.Value) :=
  [("name",.text c.jobName),("scheduler",.text c.scheduler),("trigger_source",.text c.triggerSource),("vu",.int vu),
    ("args_base64",.text (Invoke.encodeBase64 (fetchedBytes w c.args)))]

def dispatch (w : World) (target : Target) (ev : Event) (vu : ℕ) : Outcome :=
  match ev.payload with
  | some (.cron c) => Invoke.post w target ev "cron" (payload w c vu)
  | _ => (blank,some "cron dispatcher: event has no cron payload")

end Cron

namespace Queue

def canHandle (ev : Event) : Bool :=
  match ev.payload with
  | some (.queue _) => true
  | _ => false

def jobName (q : QueueEvent) : String :=
  let name := (q.headers.lookup "job_name").getD ""
  if name = "" then q.queueName else name

def payload (w : World) (q : QueueEvent) (vu : ℕ) : List (String × Invoke.Value) :=
  [("name",.text (jobName q)),("queue",.text q.queueName),("broker",.text q.broker),("message_id",.text q.messageId),
    ("retry_count",.int q.retryCount),("vu",.int vu),
    ("args_base64",.text (Invoke.encodeBase64 (fetchedBytes w q.payload)))]

def dispatch (w : World) (target : Target) (ev : Event) (vu : ℕ) : Outcome :=
  match ev.payload with
  | some (.queue q) => Invoke.post w target ev "queue" (payload w q vu)
  | _ => (blank,some "queue dispatcher: event has no queue payload")

end Queue

namespace SocketIo

def canHandle (ev : Event) : Bool :=
  match ev.payload with
  | some (.socket _) => true
  | _ => false

/-- The key of the dispatcher's clients: one client per captured socket and virtual user. -/
def capID (s : SocketEvent) (vu : ℕ) : String := s.socketId ++ (":vu" ++ toString vu)

def connectResult (elapsedNs : ℤ) : Option String → DispatchResult
  | some message =>
    { blank with responseDurationNs := elapsedNs, errorCode := "socket_connect", errorMessage := message }
  | none => { blank with responseStatus := 101, responseDurationNs := elapsedNs }

def noClientResult (s : SocketEvent) (vu : ℕ) : DispatchResult :=
  { blank with errorCode := "socket_no_client"
               errorMessage := "RECV without prior CONNECT for socket " ++ capID s vu }

def emitResult (elapsedNs : ℤ) : ℕ × Option String → DispatchResult
  | (bytesSent,some message) =>
    { blank with responseDurationNs := elapsedNs, errorCode := "socket_emit", errorMessage := message
                 bytesSent := uint32 bytesSent }
  | (bytesSent,none) => { blank with responseDurationNs := elapsedNs, bytesSent := uint32 bytesSent }

def dispatch (w : World) (target : Target) (ev : Event) (vu : ℕ) : Outcome :=
  match ev.payload with
  | some (.socket s) =>
    match s.op with
    | .connect => (connectResult w.elapsedNs (w.openClient target.baseURL s.nsp),none)
    | .recvFromClient =>
      if w.client then (emitResult w.elapsedNs (w.emitEvent s.nsp s.eventName (fetchedBytes w s.data)),none)
      else (noClientResult s vu,none)
    | .emitToClient => ({ blank with errorCode := "socket_skipped_emit" },none)
    | .disconnect => ({ blank with responseStatus := 200 },none)
    | _ => ({ blank with errorCode := "socket_unknown_op" },none)
  | _ => (blank,some "socket dispatcher: event has no socket payload")

end SocketIo

/-- The dispatchers in the order in which the engine registers them. -/
def registered : List ((Event → Bool) × (World → Target → Event → ℕ → Outcome)) :=
  [(Http.canHandle,Http.dispatch),(Cron.canHandle,Cron.dispatch),(SocketIo.canHandle,SocketIo.dispatch),
    (Queue.canHandle,Queue.dispatch)]

/-- The first dispatcher that wants the event dispatches it. -/
def dispatch (w : World) (target : Target) (ev : Event) (vu : ℕ) : Option Outcome :=
  (registered.find? fun d => d.1 ev).map fun d => d.2 w target ev vu

end Dispatchers
end Clearvoiance
