import Clearvoiance.Middleware

/-! The entry points of the engine and what a caller without credentials gets from them.  Most methods
check a key before they do anything; what they do behind the check is a parameter.  The upload URLs of the
capture service, the control service and the replay service do not check one.  The metadata store is
Postgres: without it no key is ever kept.  Request counters and logs are not part of the state, and a
WebSocket client that is refused was never added to a topic. -/
namespace Clearvoiance
namespace EntryPoints

open FirstSetup (UserRow)
open Middleware

structure ReplayRow where
  id : String
  sourceSessionID : String
  targetURL : String
  speedup : ℚ
  label : String
  status : String
  startedAtNs : ℤ
  finishedAtNs : Option ℤ
  eventsDispatched : ℤ
  eventsFailed : ℤ
  eventsBackpressured : ℤ
  p50LatencyMs : Option ℚ
  p95LatencyMs : Option ℚ
  p99LatencyMs : Option ℚ
  maxLagMs : Option ℚ
  deriving DecidableEq

/-- The state of the engine; `running` holds for every run in progress whether it was cancelled, and
`rest` what only the handlers behind a check touch. -/
structure Engine (ω : Type*) where
  apiKeys : List APIKeyRow
  users : List UserRow
  userSessions : List UserSessionRow
  control : ControlPlane.Engine
  replays : List ReplayRow
  running : String → Option Bool
  rest : ω

structure GetBlobUploadURLRequest where
  sessionID : String
  sha256 : String
  sizeBytes : ℤ
  contentType : String
  deriving DecidableEq

structure UploadURL where
  uploadURL : String
  bucket : String
  key : String
  requiredHeaders : List (String × String)
  expiresAtNs : ℤ
  alreadyExists : Bool
  deriving DecidableEq

inductive PresignError
  | notConfigured
  | other (text : String)
  deriving DecidableEq

structure StartReplayRequest where
  sourceSessionID : String
  targetURL : String
  speedup : ℚ
  targetDurationMs : ℤ
  label : String
  deriving DecidableEq

/-- `GetReplayResponse`, with zeros for what is not yet known. -/
structure ReplayState where
  replayID : String
  sourceSessionID : String
  targetURL : String
  speedup : ℚ
  status : String
  startedAtNs : ℤ
  finishedAtNs : ℤ
  eventsDispatched : ℤ
  eventsFailed : ℤ
  eventsBackpressured : ℤ
  p50LatencyMs : ℚ
  p95LatencyMs : ℚ
  p99LatencyMs : ℚ
  maxLagMs : ℚ
  deriving DecidableEq

inductive Answer
  | uploadURL (url : UploadURL)
  | replayStarted (replayID : String) (startedAtNs : ℤ)
  | replay (state : ReplayState)
  | cancelStatus (status : String)
  deriving DecidableEq

inductive Refusal
  | rest (err : RestError)
  | close (reason : String)
  | grpc (status : Status)
  deriving DecidableEq

/-- One thing the engine sends to a caller; `data` is sent by a handler behind a check. -/
inductive Content (δ : Type*)
  | refused (why : Refusal)
  | data (d : δ)
  | command (cmd : ControlPlane.Cmd)
  | answer (a : Answer)

inductive FirstMessage
  | unread
  | other
  | auth (apiKey : String)
  deriving DecidableEq

inductive Opening
  | closed
  | other
  | handshake (apiKey : String)
  deriving DecidableEq

/-- A request, with its credentials; `req` is what the handler behind the check reads. -/
inductive Request (α : Type*)
  | rest (cookie : Option String) (authorization : String) (req : α)
  | ws (cookie : Option String) (first : FirstMessage) (req : α)
  | startSession (apiKey : String) (req : α)
  | stopSession (apiKey : String) (req : α)
  | heartbeat (apiKey : String) (req : α)
  | streamEvents (first : Opening) (req : α)
  | getMockPack (apiKey : String) (req : α)
  | getBlobUploadURL (req : GetBlobUploadURLRequest)
  | subscribe (req : ControlPlane.SubscribeRequest)
  | startReplay (req : StartReplayRequest)
  | getReplay (replayID : String)
  | cancelReplay (replayID : String)

inductive Method
  | rest | ws | startSession | stopSession | heartbeat | streamEvents | getMockPack
  deriving DecidableEq

/-- What the stores other than the key store, the clock and the random source do during a request. -/
structure Env where
  now : ℕ := 0
  sessionsFail : Bool := false
  usersFail : Bool := false
  manager : SessionManager.Env := {}
  storeText : String := ""
  presign : Except PresignError UploadURL := .error .notConfigured
  upsert : ControlPlane.Env := {}
  resume : ControlPlane.Env := {}
  delivered : ℕ := 0
  replayID : String := ""
  createFails : Bool := false
  getFails : Option String := none

variable {ω α δ ε σ κ ρ : Type*}

abbrev Handlers (ω α δ : Type*) := Method → Env → Engine ω → α → Engine ω × List (Content δ)

/-- The steps of one call, with no other call between them. -/
def alone (advance : ε → σ → κ → σ × (κ ⊕ ρ)) : List ε → σ → κ → σ × (κ ⊕ ρ)
  | [], s, k => (s,.inl k)
  | e :: es, s, k =>
    match advance e s k with
    | (s',.inl k') => alone advance es s' k'
    | (s',.inr r) => (s',.inr r)

def Engine.lookup (e : Env) (g : Engine ω) (tokenHash : String) : Option UserSessionRow :=
  if e.sessionsFail then none else Middleware.lookup g.userSessions e.now tokenHash

def Engine.getByID (e : Env) (g : Engine ω) (id : String) : Option UserRow :=
  if e.usersFail then none else g.users.find? fun u => u.id = id

/-- The WebSocket handler looks the cookie up as it is and reads no user. -/
def cookieAuthOK (e : Env) (g : Engine ω) (cookie : Option String) : Bool :=
  match cookie with
  | none => false
  | some value => value ≠ "" && (g.lookup e (hashSessionToken value)).isSome

def refuse (g : Engine ω) (code : Code) (message : String) : Engine ω × List (Content δ) :=
  (g,[.refused (.grpc ⟨code,message⟩)])

def translateSessionErr (e : Env) : SessionManager.Err → Code × String
  | .notFound => (.notFound,"session not found")
  | .alreadyStopped => (.failedPrecondition,"session already stopped")
  | .store _ => (.internal,"session error: " ++ e.storeText)

/-- The rest of a method runs when its check passes. -/
def guarded (check : Except Status Unit) (g : Engine ω) (body : Engine ω × List (Content δ)) :
    Engine ω × List (Content δ) :=
  match check with
  | .error status => (g,[.refused (.grpc status)])
  | .ok () => body

def getBlobUploadURL (e : Env) (g : Engine ω) (req : GetBlobUploadURLRequest) : Engine ω × List (Content δ) :=
  match alone SessionManager.advance [e.manager,e.manager,e.manager] g.control.mgr (.getLookup req.sessionID) with
  | (mgr,.inr ⟨_,.error err⟩) =>
    let (code,message) := translateSessionErr e err
    refuse { g with control := { g.control with mgr := mgr } } code message
  | (mgr,_) =>
    let g' := { g with control := { g.control with mgr := mgr } }
    if req.sha256 = "" then refuse g' .invalidArgument "sha256 is required"
    else if req.sizeBytes ≤ 0 then refuse g' .invalidArgument "size_bytes must be > 0"
    else match e.presign with
      | .error .notConfigured => refuse g' .failedPrecondition "blob storage is not configured on this engine"
      | .error (.other text) => refuse g' .internal ("presign put: " ++ text)
      | .ok url => (g',[.answer (.uploadURL url)])

/-- `Subscribe` up to its loop and some turns of the loop, which send what the stream's buffer holds. -/
def subscribe (e : Env) (g : Engine ω) (req : ControlPlane.SubscribeRequest) : Engine ω × List (Content δ) :=
  match alone ControlPlane.advance (e.upsert :: e.resume :: e.resume :: List.replicate e.delivered {}) g.control
    (.subscribe req) with
  | (control,.inr (.invalidArgument message)) => refuse { g with control := control } .invalidArgument message
  | (control,_) => ({ g with control := control },
      ((control.streams[g.control.streams.length]?).map fun cs => cs.delivered.map Content.command).getD [])

/-- `source_session_id` references `sessions(id)`. -/
def createReplay (e : Env) (g : Engine ω) (row : ReplayRow) : Option (Engine ω) :=
  if e.createFails || g.replays.any (fun r => r.id = row.id) || (g.control.mgr.store.find row.sourceSessionID).isNone
  then none else some { g with replays := g.replays ++ [row] }

/-- The start of `Engine.Run`, up to the registration of the run. -/
def startRun (e : Env) (g : Engine ω) (req : StartReplayRequest) : Engine ω :=
  let speedup := if req.speedup ≤ 0 then 1 else req.speedup
  match createReplay e g ⟨e.replayID,req.sourceSessionID,req.targetURL,speedup,req.label,"running",e.now,none,0,0,0,
    none,none,none,none⟩ with
  | none => g
  | some g' => { g' with running := Function.update g'.running e.replayID (some false) }

def startReplay (e : Env) (g : Engine ω) (req : StartReplayRequest) : Engine ω × List (Content δ) :=
  if req.sourceSessionID = "" then refuse g .invalidArgument "source_session_id is required"
  else if req.targetURL = "" then refuse g .invalidArgument "target_url is required"
  else if req.speedup ≤ 0 ∧ req.targetDurationMs ≤ 0 then
    refuse g .invalidArgument "either speedup or target_duration_ms must be > 0"
  else (startRun e g req,[.answer (.replayStarted e.replayID e.now)])

def ReplayRow.state (row : ReplayRow) : ReplayState :=
  ⟨row.id,row.sourceSessionID,row.targetURL,row.speedup,row.status,row.startedAtNs,row.finishedAtNs.getD 0,
    row.eventsDispatched,row.eventsFailed,row.eventsBackpressured,row.p50LatencyMs.getD 0,row.p95LatencyMs.getD 0,
    row.p99LatencyMs.getD 0,row.maxLagMs.getD 0⟩

def getReplay (e : Env) (g : Engine ω) (replayID : String) : Engine ω × List (Content δ) :=
  match e.getFails with
  | some text => refuse g .internal ("get replay: " ++ text)
  | none => match g.replays.find? fun r => r.id = replayID with
    | none => refuse g .notFound "replay not found"
    | some row => (g,[.answer (.replay row.state)])

def cancelReplay (g : Engine ω) (replayID : String) : Engine ω × List (Content δ) :=
  if replayID = "" then refuse g .invalidArgument "replay_id is required"
  else match g.running replayID with
    | none => (g,[.answer (.cancelStatus "not_running")])
    | some _ => ({ g with running := Function.update g.running replayID (some true) },
        [.answer (.cancelStatus "cancelling")])

/-- One request, with a key store whose calls succeed. -/
def serve (handlers : Handlers ω α δ) (e : Env) (g : Engine ω) : Request α → Engine ω × List (Content δ)
  | .rest cookie authorization req =>
    match authMiddleware (.over g.apiKeys) (sessionMiddleware (g.lookup e) (g.getByID e) cookie) authorization with
    | .error err => (g,[.refused (.rest err)])
    | .ok () => handlers .rest e g req
  | .ws cookie first req =>
    if cookieAuthOK e g cookie then handlers .ws e g req
    else match first with
      | .unread => (g,[.refused (.close "auth timeout")])
      | .other => (g,[.refused (.close "expected {type:auth}")])
      | .auth apiKey => match checkAPIKey (.over g.apiKeys) apiKey with
        | .error reason => (g,[.refused (.close reason)])
        | .ok () => handlers .ws e g req
  | .startSession apiKey req => guarded (authenticate (.over g.apiKeys) apiKey) g (handlers .startSession e g req)
  | .stopSession apiKey req => guarded (authenticate (.over g.apiKeys) apiKey) g (handlers .stopSession e g req)
  | .heartbeat apiKey req => guarded (authenticate (.over g.apiKeys) apiKey) g (handlers .heartbeat e g req)
  | .streamEvents first req =>
    match first with
    | .closed => refuse g .invalidArgument "stream closed before handshake"
    | .other => refuse g .invalidArgument "first message must be a Handshake"
    | .handshake apiKey => guarded (authenticate (.over g.apiKeys) apiKey) g (handlers .streamEvents e g req)
  | .getMockPack apiKey req => guarded (auth (.over g.apiKeys) apiKey) g (handlers .getMockPack e g req)
  | .getBlobUploadURL req => getBlobUploadURL e g req
  | .subscribe req => subscribe e g req
  | .startReplay req => startReplay e g req
  | .getReplay replayID => getReplay e g replayID
  | .cancelReplay replayID => cancelReplay g replayID

/-- The API keys a request carries, as its entry point reads them. -/
def Request.keys : Request α → List String
  | .rest _ authorization _ => [extractBearer authorization]
  | .ws _ (.auth apiKey) _ => [apiKey]
  | .ws _ _ _ => []
  | .startSession apiKey _ | .stopSession apiKey _ | .heartbeat apiKey _ | .getMockPack apiKey _ => [apiKey]
  | .streamEvents (.handshake apiKey) _ => [apiKey]
  | .streamEvents _ _ => []
  | .getBlobUploadURL _ | .subscribe _ | .startReplay _ | .getReplay _ | .cancelReplay _ => []

def Request.tokens : Request α → List String
  | .rest cookie _ _ => [extractSessionToken cookie]
  | .ws cookie _ _ => cookie.toList
  | _ => []

def CarriesKey (g : Engine ω) (r : Request α) : Prop := ∃ apiKey ∈ r.keys, (APIKeys.over g.apiKeys).Knows apiKey

def CarriesSession (e : Env) (g : Engine ω) (r : Request α) : Prop :=
  ∃ token ∈ r.tokens, Middleware.lookup g.userSessions e.now (hashSessionToken token) ≠ none

/-- Commands and what a handler behind a check sends are never for a stranger; `counts` says which of the
other answers are captured data. -/
def Discloses (counts : Answer → Prop) : Content δ → Prop
  | .refused _ => False
  | .data _ | .command _ => True
  | .answer a => counts a

structure Harmless (counts : Answer → Prop) (g : Engine ω) (r : Engine ω × List (Content δ)) : Prop where
  unchanged : r.1 = g
  silent : ∀ c ∈ r.2, ¬ Discloses counts c

def Engine.known (g : Engine ω) (id : String) : Option SessionManager.Session :=
  (g.control.mgr.sessions id).bind (g.control.mgr.heap[·]?)

/-- The session manager has to take the session from the store. -/
def Rehydrates (e : Env) (g : Engine ω) (id : String) : Prop :=
  g.known id = none ∧ ∃ row, g.control.mgr.fetch e.manager id = .ok row ∧ row.status = .active

def StartReplayRequest.Rejected (req : StartReplayRequest) : Prop :=
  req.sourceSessionID = "" ∨ req.targetURL = "" ∨ (req.speedup ≤ 0 ∧ req.targetDurationMs ≤ 0)

def RowRefused (e : Env) (g : Engine ω) (req : StartReplayRequest) : Prop :=
  e.createFails ∨ (∃ r ∈ g.replays, r.id = e.replayID) ∨ g.control.mgr.store.find req.sourceSessionID = none

def Request.Spared (counts : Answer → Prop) (e : Env) (g : Engine ω) : Request α → Prop
  | .getBlobUploadURL req => ¬ Rehydrates e g req.sessionID ∧
      (g.known req.sessionID ≠ none → req.sha256 ≠ "" → 0 < req.sizeBytes →
        ∀ url, e.presign = .ok url → ¬ counts (.uploadURL url))
  | .subscribe req => req.clientName = ""
  | .startReplay req => req.Rejected ∨ (RowRefused e g req ∧ ¬ counts (.replayStarted e.replayID e.now))
  | .getReplay replayID => ∀ row, e.getFails = none → g.replays.find? (fun r => r.id = replayID) = some row →
      ¬ counts (.replay row.state)
  | .cancelReplay replayID => replayID = "" ∨
      (g.running replayID = none ∧ ¬ counts (.cancelStatus "not_running")) ∨
      (g.running replayID = some true ∧ ¬ counts (.cancelStatus "cancelling"))
  | _ => True

/-- The count of the keys is known and positive. -/
def Enforced (keys : APIKeys) : Prop := ∃ count, keys.count = .ok count ∧ count ≠ 0

/-- The store knows the key that is left when the blanks around it are cut off. -/
def KnowsTrimmed (keys : APIKeys) (apiKey : String) : Prop :=
  ControlPlane.trimSpace apiKey ≠ "" ∧ keys.Knows (ControlPlane.trimSpace apiKey)

def TreatedAlike (keys : APIKeys) (apiKey : String) : Prop :=
  apiKey = "" ∨ (Enforced keys ∧ (keys.Knows apiKey ↔ KnowsTrimmed keys apiKey)) ∨
    (¬ Enforced keys ∧ KnowsTrimmed keys apiKey)

section

variable {counts : Answer → Prop} {handlers : Handlers ω α δ} {e : Env} {g : Engine ω}

theorem harmless_refused (why : Refusal) : Harmless counts g (g,([.refused why] : List (Content δ))) :=
  ⟨rfl,fun c hc => by simp_all [Discloses]⟩

theorem harmless_refuse_iff {g' : Engine ω} (code : Code) (message : String) :
    Harmless counts g (refuse g' code message : Engine ω × List (Content δ)) ↔ g' = g := by
  constructor
  · exact fun h => h.unchanged
  · rintro rfl
    exact harmless_refused _

theorem harmless_answer_iff {g' : Engine ω} (a : Answer) :
    Harmless counts g (g',([.answer a] : List (Content δ))) ↔ g' = g ∧ ¬ counts a := by
  constructor
  · exact fun h => ⟨h.unchanged,h.silent (.answer a) (by simp)⟩
  · rintro ⟨rfl,ha⟩
    exact ⟨rfl,fun c hc => by simp_all [Discloses]⟩

/-- Once a key was provisioned, an unknown key does not pass. -/
theorem checkKey_stranger {ε : Type*} {required invalid : ε} {other : String → ε} {rows : List APIKeyRow}
    {apiKey : String} (hrows : rows ≠ []) (hkey : ¬ (APIKeys.over rows).Knows apiKey) :
    ∃ err, checkKey required invalid other (.over rows) apiKey = .error err := by
  cases hc : checkKey required invalid other (.over rows) apiKey with
  | error err => exact ⟨err,rfl⟩
  | ok u =>
    obtain ⟨-,hcount | hknown⟩ := checkKey_eq_ok_iff.mp hc
    · exact absurd (List.length_eq_zero_iff.mp (hcount _ rfl)) hrows
    · exact absurd hknown hkey

theorem harmless_guarded {check : Except Status Unit} (h : ∃ err, check = .error err)
    (body : Engine ω × List (Content δ)) : Harmless counts g (guarded check g body) := by
  obtain ⟨status,rfl⟩ := h
  exact harmless_refused _

theorem lookup_eq_none {tokenHash : String} (h : Middleware.lookup g.userSessions e.now tokenHash = none) :
    g.lookup e tokenHash = none := by
  rw [Engine.lookup,h,ite_self]

theorem harmless_rest {cookie : Option String} {authorization : String} {req : α}
    (hkey : ¬ CarriesKey g (.rest cookie authorization req))
    (hsession : ¬ CarriesSession e g (.rest cookie authorization req)) :
    Harmless counts g (serve handlers e g (.rest cookie authorization req)) := by
  simp only [CarriesKey,Request.keys,List.mem_singleton,exists_eq_left] at hkey
  simp only [CarriesSession,Request.tokens,List.mem_singleton,exists_eq_left,not_not] at hsession
  rw [serve,sessionMiddleware_eq_none (lookup_eq_none hsession)]
  cases hc : authMiddleware (.over g.apiKeys) none authorization with
  | error err => exact harmless_refused _
  | ok u =>
    obtain hnone | ⟨-,hknown⟩ := authMiddleware_eq_ok_iff.mp hc
    · simp at hnone
    · exact absurd hknown hkey

theorem harmless_ws {cookie : Option String} {first : FirstMessage} {req : α} (hrows : g.apiKeys ≠ [])
    (hkey : ¬ CarriesKey g (.ws cookie first req)) (hsession : ¬ CarriesSession e g (.ws cookie first req)) :
    Harmless counts g (serve handlers e g (.ws cookie first req)) := by
  have hcookie : cookieAuthOK e g cookie = false := by
    cases cookie with
    | none => rfl
    | some value =>
      have hnone : Middleware.lookup g.userSessions e.now (hashSessionToken value) = none := by
        by_contra hsome
        exact hsession ⟨value,by simp [Request.tokens],hsome⟩
      simp [cookieAuthOK,lookup_eq_none hnone]
  cases first with
  | unread =>
    simp only [serve,hcookie,Bool.false_eq_true,if_false]
    exact harmless_refused _
  | other =>
    simp only [serve,hcookie,Bool.false_eq_true,if_false]
    exact harmless_refused _
  | auth apiKey =>
    obtain ⟨reason,hreason⟩ : ∃ reason, checkAPIKey (.over g.apiKeys) apiKey = .error reason :=
      checkKey_stranger hrows fun h => hkey ⟨apiKey,by simp [Request.keys],h⟩
    simp only [serve,hcookie,Bool.false_eq_true,if_false,hreason]
    exact harmless_refused _

theorem get_known {env : SessionManager.Env} {m : SessionManager.Manager} {id : String} {sess : SessionManager.Session}
    (h : (m.sessions id).bind (m.heap[·]?) = some sess) :
    alone SessionManager.advance [env,env,env] m (.getLookup id) = (m,.inr ⟨.get id,.session sess⟩) := by
  simp only [alone,SessionManager.advance,h,SessionManager.reply]

/-- `Manager.Get` for a session that is neither in memory nor active in the store. -/
theorem get_missing {env : SessionManager.Env} {m : SessionManager.Manager} {id : String}
    (h : (m.sessions id).bind (m.heap[·]?) = none) (hrow : ¬ ∃ row, m.fetch env id = .ok row ∧ row.status = .active) :
    ∃ err, alone SessionManager.advance [env,env,env] m (.getLookup id) = (m,.inr ⟨.get id,.error err⟩) := by
  simp only [alone,SessionManager.advance,h,SessionManager.goto]
  cases hf : m.fetch env id with
  | error err => cases err <;> exact ⟨_,rfl⟩
  | ok row =>
    have hstopped : row.status ≠ .active := fun hactive => hrow ⟨row,hf,hactive⟩
    simp only [if_neg hstopped]
    exact ⟨_,rfl⟩

theorem get_rehydrates {env : SessionManager.Env} {m : SessionManager.Manager} {id : String}
    {row : SessionStore.SessionRow} (h : (m.sessions id).bind (m.heap[·]?) = none) (hf : m.fetch env id = .ok row)
    (hactive : row.status = .active) :
    alone SessionManager.advance [env,env,env] m (.getLookup id) =
      (m.install (SessionManager.rehydrate row),.inr ⟨.get id,.session (SessionManager.rehydrate row)⟩) := by
  simp only [alone,SessionManager.advance,h,SessionManager.goto,hf,if_pos hactive,SessionManager.reply]

theorem install_ne (m : SessionManager.Manager) (sess : SessionManager.Session) : m.install sess ≠ m := by
  intro h
  have hlen := congrArg (fun m => m.heap.length) h
  simp [SessionManager.Manager.install] at hlen

theorem getBlobUploadURL_harmless_iff (req : GetBlobUploadURLRequest) :
    Harmless counts g (getBlobUploadURL e g req : Engine ω × List (Content δ)) ↔
      (.getBlobUploadURL req : Request α).Spared counts e g := by
  simp only [Request.Spared,Rehydrates]
  cases hk : g.known req.sessionID with
  | some sess =>
    rw [getBlobUploadURL,get_known hk]
    simp only [reduceCtorEq,false_and,not_false_eq_true,true_and,ne_eq,forall_const]
    by_cases hsha : req.sha256 = ""
    · simp [hsha,harmless_refuse_iff]
    · by_cases hsize : req.sizeBytes ≤ 0
      · simp [hsha,hsize,harmless_refuse_iff]
      · cases hp : e.presign with
        | error err => cases err <;> simp [hsha,hsize,harmless_refuse_iff]
        | ok url => simp [hsha,hsize,harmless_answer_iff,lt_of_not_ge hsize]
  | none =>
    by_cases hrow : ∃ row, g.control.mgr.fetch e.manager req.sessionID = .ok row ∧ row.status = .active
    · obtain ⟨row,hf,hactive⟩ := hrow
      have hchanged : (getBlobUploadURL e g req : Engine ω × List (Content δ)).1.control.mgr ≠ g.control.mgr := by
        rw [getBlobUploadURL,get_rehydrates hk hf hactive]
        dsimp only
        split_ifs
        · exact install_ne _ _
        · exact install_ne _ _
        · split <;> exact install_ne _ _
      refine iff_of_false (fun h => hchanged (by rw [h.unchanged])) fun h => ?_
      exact h.1 ⟨rfl,row,hf,hactive⟩
    · obtain ⟨err,herr⟩ := get_missing hk hrow
      rw [getBlobUploadURL,herr]
      simp [harmless_refuse_iff,hrow]

def Attached : ControlPlane.Pc → Bool
  | .resume .. | .resumePush .. | .serve .. => true
  | _ => false

theorem attached_step {env : ControlPlane.Env} {c : ControlPlane.Engine} {p : ControlPlane.Pc} (h : Attached p) :
    (ControlPlane.advance env c p).1.streams.length = c.streams.length ∧
      ∀ p', (ControlPlane.advance env c p).2 = .inl p' → Attached p' := by
  cases p with
  | resume name k =>
    simp only [ControlPlane.advance]
    split
    · simp [ControlPlane.goto,Attached]
    · split
      · split <;> simp [ControlPlane.goto,Attached]
      · simp [ControlPlane.goto,Attached]
  | resumePush name k row id => simp [ControlPlane.advance,ControlPlane.goto,ControlPlane.Engine.push,Attached]
  | serve name k =>
    simp only [ControlPlane.advance]
    split <;> simp [ControlPlane.goto,ControlPlane.reply,ControlPlane.Engine.removeStream,Attached]
  | _ => simp [Attached] at h

theorem attached_alone {envs : List ControlPlane.Env} {c : ControlPlane.Engine} {p : ControlPlane.Pc}
    (h : Attached p) : (alone ControlPlane.advance envs c p).1.streams.length = c.streams.length := by
  induction envs generalizing c p with
  | nil => rfl
  | cons env envs ih =>
    obtain ⟨hlen,hnext⟩ := @attached_step env c _ h
    simp only [alone]
    split
    · rename_i c' p' hadv
      rw [hadv] at hlen hnext
      rw [ih (hnext p' rfl),hlen]
    · rename_i c' r hadv
      rw [hadv] at hlen
      exact hlen

theorem upsert_streams (c : ControlPlane.Engine) (req : ControlPlane.SubscribeRequest) :
    (c.upsert req).streams = c.streams := by
  unfold ControlPlane.Engine.upsert
  split <;> rfl

theorem alone_subscribe {first second : ControlPlane.Env} {envs : List ControlPlane.Env} {c : ControlPlane.Engine}
    {req : ControlPlane.SubscribeRequest} (hname : req.clientName ≠ "") :
    alone ControlPlane.advance (first :: second :: envs) c (.subscribe req) =
      let c' := if first.fault = some false then c else c.upsert req
      alone ControlPlane.advance envs (c'.addStream req.clientName) (.resume req.clientName c'.streams.length) := by
  simp only [alone,ControlPlane.advance,if_neg hname,ControlPlane.goto]

theorem subscribe_control (req : ControlPlane.SubscribeRequest) :
    (subscribe e g req : Engine ω × List (Content δ)).1.control =
      (alone ControlPlane.advance (e.upsert :: e.resume :: e.resume :: List.replicate e.delivered {}) g.control
        (.subscribe req)).1 := by
  unfold subscribe
  split
  · rename_i heq
    rw [heq]
    rfl
  · rename_i heq
    rw [heq]

theorem subscribe_harmless_iff (req : ControlPlane.SubscribeRequest) :
    Harmless counts g (subscribe e g req : Engine ω × List (Content δ)) ↔
      (.subscribe req : Request α).Spared counts e g := by
  simp only [Request.Spared]
  by_cases hname : req.clientName = ""
  · simp [subscribe,alone,ControlPlane.advance,ControlPlane.reply,hname,harmless_refuse_iff]
  · refine iff_of_false (fun h => ?_) hname
    have hlen := congrArg (fun c => c.streams.length) (subscribe_control (e := e) (g := g) (δ := δ) req)
    rw [h.unchanged,alone_subscribe hname] at hlen
    dsimp only at hlen
    rw [attached_alone rfl] at hlen
    simp [ControlPlane.Engine.addStream,apply_ite ControlPlane.Engine.streams,upsert_streams] at hlen

theorem createReplay_eq_none_iff {row : ReplayRow} {req : StartReplayRequest} (hid : row.id = e.replayID)
    (hsource : row.sourceSessionID = req.sourceSessionID) : createReplay e g row = none ↔ RowRefused e g req := by
  simp only [createReplay,RowRefused,hid,hsource,ite_eq_left_iff,reduceCtorEq,imp_false,not_not,Bool.or_eq_true,
    List.any_eq_true,decide_eq_true_eq,Option.isNone_iff_eq_none,or_assoc]

theorem createReplay_replays {row : ReplayRow} {g' : Engine ω} (h : createReplay e g row = some g') :
    g'.replays = g.replays ++ [row] := by
  simp only [createReplay,Option.ite_none_left_eq_some,Option.some.injEq] at h
  rw [← h.2]

theorem startRun_eq_iff (req : StartReplayRequest) : startRun e g req = g ↔ RowRefused e g req := by
  unfold startRun
  dsimp only
  split
  · rename_i hnone
    exact iff_of_true rfl ((createReplay_eq_none_iff rfl rfl).mp hnone)
  · rename_i g' hsome
    refine iff_of_false (fun h => ?_) fun hrefused => ?_
    · have hrows := congrArg (fun g => g.replays.length) h
      simp [createReplay_replays hsome] at hrows
    · rw [(createReplay_eq_none_iff rfl rfl).mpr hrefused] at hsome
      cases hsome

theorem startReplay_harmless_iff (req : StartReplayRequest) :
    Harmless counts g (startReplay e g req : Engine ω × List (Content δ)) ↔
      (.startReplay req : Request α).Spared counts e g := by
  simp only [Request.Spared,StartReplayRequest.Rejected]
  unfold startReplay
  split_ifs with hsource htarget hspeed
  · simp [harmless_refuse_iff,hsource]
  · simp [harmless_refuse_iff,htarget]
  · simp [harmless_refuse_iff,hspeed]
  · rw [harmless_answer_iff,startRun_eq_iff,or_iff_right (by simp [hsource,htarget,hspeed])]

theorem getReplay_harmless_iff (replayID : String) :
    Harmless counts g (getReplay e g replayID : Engine ω × List (Content δ)) ↔
      (.getReplay replayID : Request α).Spared counts e g := by
  simp only [Request.Spared,getReplay]
  cases hfails : e.getFails with
  | some text => simp [harmless_refuse_iff]
  | none =>
    cases hrow : g.replays.find? fun r => r.id = replayID with
    | none => simp [harmless_refuse_iff]
    | some row => simp [harmless_answer_iff]

theorem cancelReplay_harmless_iff (replayID : String) :
    Harmless counts g (cancelReplay g replayID : Engine ω × List (Content δ)) ↔
      (.cancelReplay replayID : Request α).Spared counts e g := by
  simp only [Request.Spared,cancelReplay]
  by_cases hid : replayID = ""
  · simp [hid,harmless_refuse_iff]
  · cases hrunning : g.running replayID with
    | none => simp [hid,harmless_answer_iff]
    | some cancelled =>
      have hsame : ({ g with running := Function.update g.running replayID (some true) } : Engine ω) = g ↔
          cancelled = true := by
        constructor
        · intro h
          have hat := congrFun (congrArg Engine.running h) replayID
          simpa [hrunning,eq_comm] using hat
        · rintro rfl
          rw [← hrunning,Function.update_eq_self]
      simp [hid,harmless_answer_iff,hsame]

end

/-- A request without credentials does no harm exactly when its entry point checks it or spares it. -/
theorem serve_harmless_iff {counts : Answer → Prop} {handlers : Handlers ω α δ} {e : Env} {g : Engine ω}
    {r : Request α} (hrows : g.apiKeys ≠ []) (hkey : ¬ CarriesKey g r) (hsession : ¬ CarriesSession e g r) :
    Harmless counts g (serve handlers e g r) ↔ r.Spared counts e g := by
  have hstranger : ∀ apiKey ∈ r.keys, ¬ (APIKeys.over g.apiKeys).Knows apiKey :=
    fun apiKey hmem hknown => hkey ⟨apiKey,hmem,hknown⟩
  cases r with
  | rest cookie authorization req => exact iff_of_true (harmless_rest hkey hsession) trivial
  | ws cookie first req => exact iff_of_true (harmless_ws hrows hkey hsession) trivial
  | startSession apiKey req | stopSession apiKey req | heartbeat apiKey req | getMockPack apiKey req =>
    exact iff_of_true (harmless_guarded (checkKey_stranger hrows (hstranger apiKey (by simp [Request.keys]))) _) trivial
  | streamEvents first req =>
    refine iff_of_true ?_ trivial
    cases first with
    | closed | other => exact harmless_refused _
    | handshake apiKey =>
      exact harmless_guarded (checkKey_stranger hrows (hstranger apiKey (by simp [Request.keys]))) _
  | getBlobUploadURL req => exact getBlobUploadURL_harmless_iff req
  | subscribe req => exact subscribe_harmless_iff req
  | startReplay req => exact startReplay_harmless_iff req
  | getReplay replayID => exact getReplay_harmless_iff replayID
  | cancelReplay replayID => exact cancelReplay_harmless_iff replayID

/-- The WebSocket check and the REST middleware accept a key alike exactly when `TreatedAlike` says so. -/
theorem acceptance_agrees_iff {keys : APIKeys} {apiKey : String} :
    (checkAPIKey keys apiKey = .ok () ↔ authMiddleware keys none ("Bearer " ++ apiKey) = .ok ()) ↔
      TreatedAlike keys apiKey := by
  have hws : checkAPIKey keys apiKey = .ok () ↔ apiKey ≠ "" ∧ (¬ Enforced keys ∨ keys.Knows apiKey) := by
    rw [checkAPIKey,checkKey_eq_ok_iff]
    simp [Enforced]
  have hrest : authMiddleware keys none ("Bearer " ++ apiKey) = .ok () ↔ KnowsTrimmed keys apiKey := by
    rw [authMiddleware_eq_ok_iff,extractBearer_append]
    simp [KnowsTrimmed]
  have hempty : apiKey = "" → ¬ KnowsTrimmed keys apiKey := by
    rintro rfl ⟨hne,-⟩
    exact hne rfl
  rw [hws,hrest,TreatedAlike]
  by_cases hkey : apiKey = ""
  · simp [hkey]
    exact hkey ▸ hempty hkey
  · by_cases henforced : Enforced keys
    · simp [hkey,henforced]
    · simp [hkey,henforced]

/-- After an API key was provisioned: what a caller without credentials can do, and which keys the WebSocket
accepts beside REST. -/
theorem strangers_refused_iff (history : List KeyOp) (hprovisioned : ∃ id keyHash, KeyOp.create id keyHash ∈ history)
    (g : Engine ω) (hkeys : g.apiKeys = keyTable history) (handlers : Handlers ω α δ) (counts : Answer → Prop)
    (e : Env) (r : Request α) (hkey : ¬ CarriesKey g r) (hsession : ¬ CarriesSession e g r)
    (keys : APIKeys) (apiKey : String) :
    (Harmless counts g (serve handlers e g r) ↔ r.Spared counts e g) ∧
      ((checkAPIKey keys apiKey = .ok () ↔ authMiddleware keys none ("Bearer " ++ apiKey) = .ok ()) ↔
        TreatedAlike keys apiKey) := by
  have hrows : g.apiKeys ≠ [] := hkeys ▸ keyTable_ne_nil hprovisioned
  exact ⟨serve_harmless_iff hrows hkey hsession,acceptance_agrees_iff⟩

def retiredKey : List KeyOp := [.create "key_1" "0f3a",.revoke "key_1"]

def shopSession : SessionStore.SessionRow := ⟨"sess_1","checkout",[],.active,0,none,0,0,0⟩

/-- An engine that captures the monitor `shop`. -/
def capturing : Engine Unit where
  apiKeys := keyTable retiredKey
  users := []
  userSessions := []
  control := { ControlPlane.Engine.new .postgres with
    mgr := ⟨⟨.postgres,[shopSession],by simp⟩,[],fun _ => none⟩
    monitors := fun name => if name = "shop" then some ⟨"Shop",[],true,some "sess_1"⟩ else none }
  replays := []
  running _ := none
  rest := ()

def telling : Handlers Unit String String := fun _ _ g req => (g,[.data req])

def unreachable : APIKeys := ⟨.error "connection refused",fun _ => .error (.other "connection refused")⟩

theorem strangers_refused_retiredKey :
    (Harmless (fun _ => True) capturing (serve telling {} capturing (.startSession "clv_live_old" "checkout")) ↔
      (Request.startSession "clv_live_old" "checkout").Spared (fun _ => True) {} capturing) ∧
      ((checkAPIKey unreachable "guess" = .ok () ↔ authMiddleware unreachable none ("Bearer " ++ "guess") = .ok ()) ↔
        TreatedAlike unreachable "guess") :=
  strangers_refused_iff retiredKey ⟨"key_1","0f3a",by simp [retiredKey]⟩ capturing rfl telling (fun _ => True) {}
    (.startSession "clv_live_old" "checkout")
    (by simp [CarriesKey,APIKeys.Knows,APIKeys.over,capturing,keyTable,retiredKey,KeyOp.apply])
    (by simp [CarriesSession,Request.tokens]) unreachable "guess"

/-- A stranger subscribes as the monitor and is sent its start command; the WebSocket takes any key while
the key store is down, REST none. -/
theorem stranger_commanded :
    (∃ id keyHash, KeyOp.create id keyHash ∈ retiredKey) ∧ capturing.apiKeys = keyTable retiredKey ∧
      ¬ CarriesKey capturing (.subscribe ⟨"shop","",[]⟩ : Request String) ∧
      ¬ CarriesSession {} capturing (.subscribe ⟨"shop","",[]⟩ : Request String) ∧
      (serve telling { delivered := 2 } capturing (.subscribe ⟨"shop","",[]⟩)).2 =
        [.command (.start "sess_1" "" [])] ∧
      (serve telling { delivered := 2 } capturing (.subscribe ⟨"shop","",[]⟩)).1.control.registry "shop" = [0] ∧
      checkAPIKey unreachable "guess" = .ok () ∧
      authMiddleware unreachable none ("Bearer " ++ "guess") ≠ .ok () := by
  refine ⟨⟨"key_1","0f3a",by simp [retiredKey]⟩,rfl,by simp [CarriesKey,Request.keys],
    by simp [CarriesSession,Request.tokens],rfl,rfl,rfl,?_⟩
  rw [ne_eq,authMiddleware_eq_ok_iff]
  simp [APIKeys.Knows,unreachable]

end EntryPoints
end Clearvoiance
