import Clearvoiance.FirstSetup
import Clearvoiance.Sha256

/-! Who a request comes from.  The REST routes read a session cookie or a bearer token; the WebSocket
handler and the gRPC services read an API key of their own and let every key pass while the key table is
empty or cannot be counted. -/
namespace Clearvoiance
namespace Middleware

open FirstSetup (UserRow)

structure APIKeyRow where
  id : String
  keyHash : String
  revoked : Bool
  deriving DecidableEq

inductive KeyError
  | notFound
  | other (text : String)
  deriving DecidableEq

/-- What the key store answers while a request is served. -/
structure APIKeys where
  count : Except String ℕ
  validateHash : String → Except KeyError APIKeyRow

structure UserSessionRow where
  id : String
  tokenHash : String
  userID : String
  expiresAt : ℕ
  deriving DecidableEq

def hashSessionToken (plaintext : String) : String :=
  String.ofList (Hex.encodeToString (Sha256.sum256 (Hex.utf8 plaintext)))

def hashAPIKey (plaintext : String) : String :=
  String.ofList (Hex.encodeToString (Sha256.sum256 (Hex.utf8 plaintext)))

/-- `SELECT … WHERE token_hash = $1 AND expires_at > $2`. -/
def lookup (rows : List UserSessionRow) (now : ℕ) (tokenHash : String) : Option UserSessionRow :=
  rows.find? fun r => r.tokenHash = tokenHash && now < r.expiresAt

def extractSessionToken (cookie : Option String) : String :=
  match cookie with
  | none => ""
  | some value => if value = "" then "" else ControlPlane.trimSpace value

/-- The user a session cookie stands for; every error of a store leaves the request anonymous. -/
def sessionMiddleware (lookup : String → Option UserSessionRow) (getByID : String → Option UserRow)
    (cookie : Option String) : Option UserRow :=
  if extractSessionToken cookie = "" then none
  else match lookup (hashSessionToken (extractSessionToken cookie)) with
    | none => none
    | some sess => getByID sess.userID

structure RestError where
  status : ℕ
  code : String
  message : String
  deriving DecidableEq

def extractBearer (authorization : String) : String :=
  if "Bearer ".toList.isPrefixOf authorization.toList
  then ControlPlane.trimSpace (String.ofList (authorization.toList.drop 7)) else ""

/-- Whether a request reaches the handler behind `AuthMiddleware`. -/
def authMiddleware (keys : APIKeys) (user : Option UserRow) (authorization : String) : Except RestError Unit :=
  match user with
  | some _ => .ok ()
  | none =>
    if extractBearer authorization = "" then
      .error ⟨401,"UNAUTHENTICATED","session cookie or Authorization: Bearer <api_key> required"⟩
    else match keys.validateHash (hashAPIKey (extractBearer authorization)) with
      | .error .notFound => .error ⟨401,"UNAUTHENTICATED","invalid or revoked API key"⟩
      | .error (.other text) => .error ⟨500,"INTERNAL","validate api key: " ++ text⟩
      | .ok _ => .ok ()

/-- The check that the WebSocket handler and the gRPC services share, each with its own errors. -/
def checkKey {ε : Type*} (required invalid : ε) (other : String → ε) (keys : APIKeys) (apiKey : String) :
    Except ε Unit :=
  if apiKey = "" then .error required
  else match keys.count with
    | .error _ => .ok ()
    | .ok count =>
      if count = 0 then .ok ()
      else match keys.validateHash (hashAPIKey apiKey) with
        | .error .notFound => .error invalid
        | .error (.other text) => .error (other text)
        | .ok _ => .ok ()

def checkAPIKey : APIKeys → String → Except String Unit := checkKey "api_key required" "invalid api key" id

inductive Code
  | unauthenticated | internal | invalidArgument | notFound | failedPrecondition
  deriving DecidableEq

structure Status where
  code : Code
  message : String
  deriving DecidableEq

def authenticate : APIKeys → String → Except Status Unit :=
  checkKey ⟨.unauthenticated,"api_key is required"⟩ ⟨.unauthenticated,"invalid api key"⟩
    fun text => ⟨.internal,"validate api key: " ++ text⟩

def auth : APIKeys → String → Except Status Unit :=
  checkKey ⟨.unauthenticated,"api_key is required"⟩ ⟨.unauthenticated,"invalid api key"⟩
    fun text => ⟨.internal,"validate api key: " ++ text⟩

inductive KeyOp
  | create (id keyHash : String)
  | revoke (id : String)
  deriving DecidableEq

/-- `key_hash` is unique and rows are never deleted. -/
def KeyOp.apply (rows : List APIKeyRow) : KeyOp → List APIKeyRow
  | .create id keyHash =>
    if rows.any (fun r => r.id = id || r.keyHash = keyHash) then rows else rows ++ [⟨id,keyHash,false⟩]
  | .revoke id => rows.map fun r => if r.id = id then { r with revoked := true } else r

def keyTable (history : List KeyOp) : List APIKeyRow := history.foldl KeyOp.apply []

/-- The key store over a table when its calls succeed. -/
def APIKeys.over (rows : List APIKeyRow) : APIKeys where
  count := .ok rows.length
  validateHash keyHash := match rows.find? fun r => r.keyHash = keyHash && !r.revoked with
    | none => .error .notFound
    | some row => .ok row

/-- The store knows an unrevoked key of that text. -/
def APIKeys.Knows (keys : APIKeys) (apiKey : String) : Prop :=
  ∃ row, keys.validateHash (hashAPIKey apiKey) = .ok row

theorem checkKey_eq_ok_iff {ε : Type*} {required invalid : ε} {other : String → ε} {keys : APIKeys}
    {apiKey : String} : checkKey required invalid other keys apiKey = .ok () ↔
      apiKey ≠ "" ∧ ((∀ count, keys.count = .ok count → count = 0) ∨ keys.Knows apiKey) := by
  unfold checkKey APIKeys.Knows
  by_cases hkey : apiKey = ""
  · simp [hkey]
  · cases hcount : keys.count with
    | error text => simp [hkey]
    | ok count =>
      by_cases hzero : count = 0
      · simp [hkey,hzero]
      · cases hrow : keys.validateHash (hashAPIKey apiKey) with
        | error err => cases err <;> simp [hkey,hzero]
        | ok row => simp [hkey,hzero]

theorem authMiddleware_eq_ok_iff {keys : APIKeys} {user : Option UserRow} {authorization : String} :
    authMiddleware keys user authorization = .ok () ↔
      user.isSome ∨ (extractBearer authorization ≠ "" ∧ keys.Knows (extractBearer authorization)) := by
  unfold authMiddleware APIKeys.Knows
  cases user with
  | some user => simp
  | none =>
    by_cases htoken : extractBearer authorization = ""
    · simp [htoken]
    · cases hrow : keys.validateHash (hashAPIKey (extractBearer authorization)) with
      | error err => cases err <;> simp [htoken]
      | ok row => simp [htoken]

theorem sessionMiddleware_eq_none {lookup : String → Option UserSessionRow} {getByID : String → Option UserRow}
    {cookie : Option String} (h : lookup (hashSessionToken (extractSessionToken cookie)) = none) :
    sessionMiddleware lookup getByID cookie = none := by
  unfold sessionMiddleware
  split
  · rfl
  · rw [h]

theorem extractBearer_append (apiKey : String) :
    extractBearer ("Bearer " ++ apiKey) = ControlPlane.trimSpace apiKey := by
  unfold extractBearer
  rw [if_pos (by simp),String.toList_append]
  congr 1
  apply String.ext
  simp

theorem keyTable_ne_nil {history : List KeyOp} (h : ∃ id keyHash, KeyOp.create id keyHash ∈ history) :
    keyTable history ≠ [] := by
  have hgrow : ∀ (ops : List KeyOp) (rows : List APIKeyRow), rows ≠ [] → ops.foldl KeyOp.apply rows ≠ [] := by
    intro ops
    induction ops with
    | nil => exact fun rows hrows => hrows
    | cons op ops ih =>
      intro rows hrows
      apply ih
      cases op with
      | create id keyHash =>
        simp only [KeyOp.apply]
        split
        · exact hrows
        · simp
      | revoke id => simpa [KeyOp.apply] using hrows
  obtain ⟨id,keyHash,hmem⟩ := h
  obtain ⟨before,after,rfl⟩ := List.append_of_mem hmem
  rw [keyTable,List.foldl_append,List.foldl_cons]
  apply hgrow
  simp only [KeyOp.apply]
  split
  · rename_i hany
    obtain ⟨row,hrow,-⟩ := List.any_eq_true.mp hany
    exact List.ne_nil_of_mem hrow
  · simp

end Middleware
end Clearvoiance
