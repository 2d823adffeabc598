import Clearvoiance.Transition
import Clearvoiance.Hex
import Clearvoiance.SessionStore
import Clearvoiance.SessionManager
import Clearvoiance.StoppedSessions
import Clearvoiance.StopRollback
import Clearvoiance.StoreAgreement
import Clearvoiance.StreamIngest
import Clearvoiance.Sweeper
import Clearvoiance.CapturedEvents
import Clearvoiance.EventStore
import Clearvoiance.ControlPlane
import Clearvoiance.ControlAgreement
import Clearvoiance.MonitorSessions
import Clearvoiance.MonitorConsistency
import Clearvoiance.Wal
import Clearvoiance.Client
import Clearvoiance.BatchDurability
import Clearvoiance.RemoteCommands
import Clearvoiance.ClientInvariant
import Clearvoiance.StreamState
import Clearvoiance.SessionIsolation
import Clearvoiance.WalDrain
import Clearvoiance.WalListing
import Clearvoiance.MockStore
import Clearvoiance.UnicodeCase
import Clearvoiance.Fetch
import Clearvoiance.FetchTransparency
import Clearvoiance.Json
import Clearvoiance.JsonEquality
import Clearvoiance.Binary64
import Clearvoiance.DecimalText
import Clearvoiance.JsonStrings
import Clearvoiance.Sha256
import Clearvoiance.Signature
import Clearvoiance.Canonicalize
import Clearvoiance.SignatureEquality
import Clearvoiance.Replay
import Clearvoiance.ReplaySafety
import Clearvoiance.ReplayProgress
import Clearvoiance.ReplayConservation
import Clearvoiance.ReplayLedger
import Clearvoiance.TerminalStatus
import Clearvoiance.Dispatchers
import Clearvoiance.FailureAccounting
import Clearvoiance.SocketClients
import Clearvoiance.SocketOrder
import Clearvoiance.FinalCounters
import Clearvoiance.MockPack
import Clearvoiance.MockPackStream
import Clearvoiance.HermeticResponse
import Clearvoiance.HermeticCorrelation
import Clearvoiance.CaseStability
import Clearvoiance.OutboundCapture
import Clearvoiance.HttpRoundTrip
import Clearvoiance.FetchRoundTrip
import Clearvoiance.IgnoredFields
import Clearvoiance.Utf16
import Clearvoiance.AppNames
import Clearvoiance.AuthCallback
import Clearvoiance.Sha1
import Clearvoiance.Fingerprints
import Clearvoiance.ObserverPolls
import Clearvoiance.ObservationSink
import Clearvoiance.CronRouting
import Clearvoiance.FirstSetup
import Clearvoiance.PgWrap
import Clearvoiance.PgTransparency
import Clearvoiance.PgAttribution
import Clearvoiance.Hub
import Clearvoiance.DropNotices
import Clearvoiance.Subscriptions
import Clearvoiance.ReplayWindow
import Clearvoiance.Rehydration
import Clearvoiance.Middleware
import Clearvoiance.EntryPoints
import Clearvoiance.PasswordChange
import Clearvoiance.JsonRoundTrip
import Clearvoiance.NumberReading
import Clearvoiance.Utf8Text
import Clearvoiance.RuneFields
import Clearvoiance.LiteralStripping
import Clearvoiance.EscapedText
import Clearvoiance.MarshalText
import Clearvoiance.Binary64Sum
import Clearvoiance.JsonFrame
import Clearvoiance.Mutator
import Clearvoiance.Binary64Order
import Clearvoiance.LatencyPercentiles
import Clearvoiance.RawMessages
import Clearvoiance.SocketPackets
import Clearvoiance.ExactIntegers
import Clearvoiance.JsonPaths
import Clearvoiance.UniqueFields
import Clearvoiance.HttpBody
import Clearvoiance.BufferEncodings
import Clearvoiance.ResponseTap
import Clearvoiance.RequestTap
import Clearvoiance.WeightedMap
import Clearvoiance.WalAccounting
import Clearvoiance.InvokeEndpoint
import Clearvoiance.ChunkedText
import Clearvoiance.JobInvocation
import Clearvoiance.RegExps
import Clearvoiance.HeaderRedaction
import Clearvoiance.JsonMask
import Clearvoiance.AuditPayload
import Clearvoiance.ControlReconnect
import Clearvoiance.Slices
import Clearvoiance.StreamRegistry
import Clearvoiance.JsonMembers
import Clearvoiance.JwtResign
import Clearvoiance.LexicalPath
import Clearvoiance.BlobStore
import Clearvoiance.KeyLifecycle
import Clearvoiance.HermeticActivation
import Clearvoiance.FastifyCapture
import Clearvoiance.PasswordHash
import Clearvoiance.PasswordProvenance
import Clearvoiance.Patches
import Clearvoiance.PatchedGlobals
