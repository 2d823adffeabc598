import Clearvoiance.Hex

/-! The captured events that the engine stores and replays: an envelope and one of eight payloads, with
the fields that the event store and the dispatchers read. -/
namespace Clearvoiance
namespace CapturedEvents

structure BlobRef where
  bucket : String
  key : String
  deriving DecidableEq

inductive BodyData
  | inline (bytes : Hex.Bytes)
  | blob (ref : BlobRef)
  deriving DecidableEq

structure Body where
  data : Option BodyData
  contentType : String
  sizeBytes : ℤ
  deriving DecidableEq

structure HttpEvent where
  method : String
  path : String
  headers : List (String × List String)
  requestBody : Option Body
  status : ℤ
  responseBody : Option Body
  durationNs : ℤ
  sourceIp : String
  userId : String
  routeTemplate : String
  deriving DecidableEq

inductive SocketOp
  | unspecified | connect | disconnect | emitToClient | recvFromClient | joinRoom | leaveRoom | error
  deriving DecidableEq

def SocketOp.toString : SocketOp → String
  | .unspecified => "SOCKET_OP_UNSPECIFIED"
  | .connect => "SOCKET_OP_CONNECT"
  | .disconnect => "SOCKET_OP_DISCONNECT"
  | .emitToClient => "SOCKET_OP_EMIT_TO_CLIENT"
  | .recvFromClient => "SOCKET_OP_RECV_FROM_CLIENT"
  | .joinRoom => "SOCKET_OP_JOIN_ROOM"
  | .leaveRoom => "SOCKET_OP_LEAVE_ROOM"
  | .error => "SOCKET_OP_ERROR"

structure SocketEvent where
  socketId : String
  op : SocketOp
  nsp : String
  eventName : String
  data : Option Body
  userId : String
  durationNs : ℤ
  deriving DecidableEq

structure CronEvent where
  jobName : String
  scheduler : String
  args : Option Body
  durationNs : ℤ
  status : String
  triggerSource : String
  deriving DecidableEq

structure QueueEvent where
  queueName : String
  broker : String
  messageId : String
  payload : Option Body
  retryCount : ℤ
  durationNs : ℤ
  headers : List (String × String)
  deriving DecidableEq

inductive DbObservationType
  | unspecified | slowQuery | lockWait | deadlock | longTransaction
  deriving DecidableEq

structure DbObservationEvent where
  queryFingerprint : String
  queryText : String
  durationNs : ℤ
  applicationName : String
  causedByEventId : String
  observationType : DbObservationType
  deriving DecidableEq

structure RuntimeSampleEvent where
  memRss : ℤ
  memHeapUsed : ℤ
  memHeapTotal : ℤ
  memExternal : ℤ
  memArrayBuffers : ℤ
  cpuUserUs : ℤ
  cpuSystemUs : ℤ
  eventLoopP50Ns : ℤ
  eventLoopP99Ns : ℤ
  eventLoopMaxNs : ℤ
  gcCount : ℤ
  gcTotalPauseNs : ℤ
  activeHandles : ℤ
  activeRequests : ℤ
  dbPoolUsed : ℤ
  dbPoolFree : ℤ
  dbPoolPending : ℤ
  dbPoolMax : ℤ
  deriving DecidableEq

/-- A webhook and an outbound call carry the exchange they are about. -/
inductive Payload
  | http (h : HttpEvent)
  | socket (s : SocketEvent)
  | cron (c : CronEvent)
  | webhook (h : Option HttpEvent)
  | queue (q : QueueEvent)
  | outbound (h : Option HttpEvent)
  | db (d : DbObservationEvent)
  | runtime (r : RuntimeSampleEvent)
  deriving DecidableEq

structure Event where
  id : String
  timestampNs : ℤ
  offsetNs : ℤ
  adapter : String
  sdkVersion : String
  metadata : List (String × String)
  redactionsApplied : List String
  payload : Option Payload
  deriving DecidableEq

def Event.getDb (ev : Event) : Option DbObservationEvent :=
  match ev.payload with
  | some (.db d) => some d
  | _ => none

def Event.getRuntime (ev : Event) : Option RuntimeSampleEvent :=
  match ev.payload with
  | some (.runtime r) => some r
  | _ => none

end CapturedEvents
end Clearvoiance
