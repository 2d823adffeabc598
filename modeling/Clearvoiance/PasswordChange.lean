import Clearvoiance.Middleware

/-! Logins and changes of a password.  A login verifies the password of the user row it read and inserts
its session some steps later; a change of the password updates the row, deletes the sessions of the user,
carries on when that fails, and issues a new session.  Every call of a store is one step and may fail, with
its effect or without. -/
namespace Clearvoiance
namespace PasswordChange

open FirstSetup (UserRow)
open Middleware Transition

/-- A user's row; `version` counts the updates of its password and is read by no handler. -/
structure Account extends UserRow where
  version : ℕ
  deriving DecidableEq

/-- A session token that a login drew, with the version of the password it had verified. -/
structure Login where
  token : String
  userID : String
  version : ℕ
  deriving DecidableEq

/-- A change of a password that was answered with success: the version it installed and the token it issued. -/
structure Change where
  userID : String
  version : ℕ
  token : String
  deriving DecidableEq

/-- The tables, and what happened so far: the tokens that were drawn, the logins, the revocations that were
tried for a user and a version, and the changes. -/
structure Shared where
  users : List Account
  sessions : List UserSessionRow
  drawn : List String
  logins : List Login
  revoked : List (String × ℕ)
  changed : List Change
  deriving DecidableEq

structure LoginRequest where
  email : String
  password : String
  deriving DecidableEq

structure ChangePasswordRequest where
  currentPassword : String
  newPassword : String
  deriving DecidableEq

/-- What a request with a session cookie is for. -/
inductive Route
  | plain
  | change (body : Except String ChangePasswordRequest)

inductive Call
  | login (body : Except String LoginRequest)
  | request (cookie : Option String) (route : Route)
  | logout (cookie : Option String)

inductive Reply
  | error (status : ℕ) (code message : String)
  | loggedIn (user : UserRow) (token : String)
  | passed (user : Option UserRow)
  | changed (token : String)
  | loggedOut
  deriving DecidableEq

inductive Pc
  | loginRead (body : Except String LoginRequest)
  | loginGet (email password : String)
  | loginVerify (user : Account) (password : String)
  | loginTouch (user : Account)
  | loginIssue (user : Account)
  | cookieLookup (cookie : Option String) (route : Route)
  | cookieUser (sess : UserSessionRow) (route : Route)
  | changeRead (user : UserRow) (body : Except String ChangePasswordRequest)
  | changeVerify (user : UserRow) (req : ChangePasswordRequest)
  | changeHash (user : UserRow) (newPassword : String)
  | changeUpdate (user : UserRow) (newHash : String)
  | changeRevoke (user : UserRow) (version : ℕ)
  | changeIssue (user : UserRow) (version : ℕ)
  | logoutLookup (cookie : Option String)
  | logoutRevoke (id : String)

/-- What the environment chooses for one step: the clock, the error of the store or of the hash and whether
the call took effect all the same, the error and the bytes of the random source, a new row id and hash. -/
structure Env where
  now : ℕ := 0
  err : Option String := none
  lands : Bool := false
  randErr : Option String := none
  buf : Hex.Bytes := []
  id : String := ""
  hash : String := ""
  deriving DecidableEq

def Env.Effective (e : Env) : Prop := e.err = none ∨ e.lands = true

instance (e : Env) : Decidable e.Effective := inferInstanceAs (Decidable (_ ∨ _))

def urlDigit (n : ℕ) : Char :=
  if n < 26 then Char.ofNat (65+n) else if n < 52 then Char.ofNat (71+n) else if n < 62 then Char.ofNat (n-4)
  else if n = 62 then '-' else '_'

/-- `base64.RawURLEncoding.EncodeToString`. -/
def rawURL : Hex.Bytes → List Char
  | a :: b :: c :: rest =>
    let n := a.toNat*65536+b.toNat*256+c.toNat
    urlDigit (n/262144) :: urlDigit (n/4096 % 64) :: urlDigit (n/64 % 64) :: urlDigit (n % 64) :: rawURL rest
  | [a,b] =>
    let n := a.toNat*65536+b.toNat*256
    [urlDigit (n/262144),urlDigit (n/4096 % 64),urlDigit (n/64 % 64)]
  | [a] =>
    let n := a.toNat*65536
    [urlDigit (n/262144),urlDigit (n/4096 % 64)]
  | [] => []

def newSessionToken (buf : Hex.Bytes) : String := String.ofList (rawURL buf)

def Shared.getByEmail (g : Shared) (email : String) : Option Account :=
  g.users.find? fun u => u.email = FirstSetup.toLower email

def Shared.getByID (g : Shared) (id : String) : Option UserRow :=
  (g.users.find? fun u => u.id = id).map (·.toUserRow)

def Shared.updatePassword (g : Shared) (id hash : String) : Shared :=
  { g with users := g.users.map fun u =>
      if u.id = id then { u with passwordHash := hash, version := u.version+1 } else u }

def Shared.revokeAllForUser (g : Shared) (userID : String) : Shared :=
  { g with sessions := g.sessions.filter fun r => r.userID ≠ userID }

/-- `UserSessions.Create`; ids and token hashes are unique and a session's user exists. -/
def Shared.create (g : Shared) (row : UserSessionRow) : Option Shared :=
  if g.sessions.any (fun r => r.id = row.id || r.tokenHash = row.tokenHash) || (g.getByID row.userID).isNone then none
  else some { g with sessions := row :: g.sessions }

/-- `issueSession`: the token, or the text of the error. -/
def issueSession (ttl : ℕ) (e : Env) (g : Shared) (userID : String) : Shared × Except String String :=
  match e.randErr with
  | some text => (g,.error text)
  | none =>
    let token := newSessionToken e.buf
    let g' := { g with drawn := token :: g.drawn }
    match g'.create ⟨e.id,hashSessionToken token,userID,e.now+ttl⟩,e.err with
    | none,_ => (g',.error "violates constraint")
    | some g'',none => (g'',.ok token)
    | some g'',some text => (if e.lands then g'' else g',.error text)

def internal (what text : String) : Reply := .error 500 "INTERNAL" (what ++ ": " ++ text)

def unauthenticated (message : String) : Reply := .error 401 "UNAUTHENTICATED" message

variable (verify : String → String → Except String Bool) (ttl : ℕ)

/-- One step of a request; `verify` is `VerifyPassword`. -/
def advance (e : Env) (g : Shared) : Pc → Shared × (Pc ⊕ Reply)
  | .loginRead body =>
    match body with
    | .error text => (g,.inr (.error 400 "BAD_REQUEST" ("could not decode request body: " ++ text)))
    | .ok req =>
      if FirstSetup.normalize req.email = "" ∨ req.password = "" then
        (g,.inr (.error 400 "MISSING_FIELDS" "email and password are required"))
      else (g,.inl (.loginGet (FirstSetup.normalize req.email) req.password))
  | .loginGet email password =>
    match e.err,g.getByEmail email with
    | some text,_ => (g,.inr (internal "lookup user" text))
    | none,none => (g,.inr (unauthenticated "invalid email or password"))
    | none,some user => (g,.inl (.loginVerify user password))
  | .loginVerify user password =>
    match verify password user.passwordHash with
    | .error text => (g,.inr (internal "verify password" text))
    | .ok false => (g,.inr (unauthenticated "invalid email or password"))
    | .ok true => (g,.inl (.loginTouch user))
  | .loginTouch user => (g,.inl (.loginIssue user))
  | .loginIssue user =>
    let (g',result) := issueSession ttl e g user.id
    let g'' := if e.randErr = none then
      { g' with logins := ⟨newSessionToken e.buf,user.id,user.version⟩ :: g'.logins } else g'
    match result with
    | .error text => (g'',.inr (internal "issue session" text))
    | .ok token => (g'',.inr (.loggedIn user.toUserRow token))
  | .cookieLookup cookie route =>
    let found := if extractSessionToken cookie = "" ∨ e.err ≠ none then none
      else lookup g.sessions e.now (hashSessionToken (extractSessionToken cookie))
    match found,route with
    | some sess,_ => (g,.inl (.cookieUser sess route))
    | none,.plain => (g,.inr (.passed none))
    | none,.change _ => (g,.inr (unauthenticated "session cookie required"))
  | .cookieUser sess route =>
    match if e.err = none then g.getByID sess.userID else none,route with
    | user,.plain => (g,.inr (.passed user))
    | some user,.change body => (g,.inl (.changeRead user body))
    | none,.change _ => (g,.inr (unauthenticated "session cookie required"))
  | .changeRead user body =>
    match body with
    | .error text => (g,.inr (.error 400 "BAD_REQUEST" ("could not decode request body: " ++ text)))
    | .ok req => match FirstSetup.validatePasswordStrength req.newPassword with
      | some message => (g,.inr (.error 400 "WEAK_PASSWORD" message))
      | none => (g,.inl (.changeVerify user req))
  | .changeVerify user req =>
    match verify req.currentPassword user.passwordHash with
    | .ok true => (g,.inl (.changeHash user req.newPassword))
    | _ => (g,.inr (unauthenticated "current password is incorrect"))
  | .changeHash user _ =>
    match e.err with
    | some text => (g,.inr (internal "hash password" text))
    | none => (g,.inl (.changeUpdate user e.hash))
  | .changeUpdate user newHash =>
    let g' := if e.Effective then g.updatePassword user.id newHash else g
    match e.err,g'.users.find? fun u => u.id = user.id with
    | some text,_ => (g',.inr (internal "update password" text))
    | none,none => (g',.inr (internal "update password" "user not found"))
    | none,some row => (g',.inl (.changeRevoke user row.version))
  | .changeRevoke user version =>
    let g' := if e.Effective then g.revokeAllForUser user.id else g
    ({ g' with revoked := (user.id,version) :: g'.revoked },.inl (.changeIssue user version))
  | .changeIssue user version =>
    match issueSession ttl e g user.id with
    | (g',.error text) => (g',.inr (internal "reissue session" text))
    | (g',.ok token) => ({ g' with changed := ⟨user.id,version,token⟩ :: g'.changed },.inr (.changed token))
  | .logoutLookup cookie =>
    let found := if extractSessionToken cookie = "" ∨ e.err ≠ none then none
      else lookup g.sessions e.now (hashSessionToken (extractSessionToken cookie))
    match found with
    | none => (g,.inr .loggedOut)
    | some sess => (g,.inl (.logoutRevoke sess.id))
  | .logoutRevoke id =>
    (if e.Effective then { g with sessions := g.sessions.filter fun r => r.id ≠ id } else g,.inr .loggedOut)

def entry : Call → Pc
  | .login body => .loginRead body
  | .request cookie route => .cookieLookup cookie route
  | .logout cookie => .logoutLookup cookie

abbrev State := Pool Shared Pc Reply

abbrev Action := Act Call Env

def step : State → Action → Option State := Pool.step entry (advance verify ttl)

def init (users : List Account) : State := ⟨⟨users,[],[],[],[],[]⟩,[],[]⟩

def Accepted (g : Shared) (now : ℕ) (token : String) : Prop :=
  sessionMiddleware (lookup g.sessions now) g.getByID (some token) ≠ none

/-- After a change of a password no session of a login that verified an older one is accepted. -/
def OldRevoked (g : Shared) : Prop :=
  ∀ c ∈ g.changed, ∀ l ∈ g.logins, l.userID = c.userID → l.version < c.version → l.token ≠ c.token →
    ∀ now, ¬ Accepted g now l.token

def Shared.Live (g : Shared) (token : String) : Prop := ∃ r ∈ g.sessions, r.tokenHash = hashSessionToken token

/-- The hash of the token that is drawn now is not the hash of one drawn before. -/
def Fresh (g : Shared) (e : Env) : Prop :=
  e.randErr = none → ∀ token ∈ g.drawn, hashSessionToken token ≠ hashSessionToken (newSessionToken e.buf)

/-- A login inserts its session only while the password it verified was not revoked, and a revocation fails
only when there is nothing for it to delete. -/
def Pc.Orderly (g : Shared) (e : Env) : Pc → Prop
  | .loginIssue user => Fresh g e ∧
      (e.randErr = none → e.Effective → ∀ r ∈ g.revoked, r.1 = user.id → r.2 ≤ user.version)
  | .changeRevoke user version => ¬ e.Effective →
      ∀ l ∈ g.logins, l.userID = user.id → l.version < version → ¬ g.Live l.token
  | .changeIssue _ _ => Fresh g e
  | _ => True

instance (g : Shared) (e : Env) (p : Pc) : Decidable (p.Orderly g e) := by
  induction p using Pc.casesOn <;> unfold Pc.Orderly <;> unfold Fresh Shared.Live <;> infer_instance

def Orderly (s : State) : Action → Prop
  | .invoke _ => True
  | .advance i e => ∀ p ∈ s.threads[i]?, p.Orderly s.shared e

instance (s : State) (a : Action) : Decidable (Orderly s a) := by
  induction a using Act.casesOn <;> unfold Orderly <;> infer_instance

theorem urlDigit_not_space : ∀ n < 64, ControlPlane.isSpace (urlDigit n) = false := by
  decide

theorem rawURL_not_space (bs : Hex.Bytes) : ∀ c ∈ rawURL bs, ControlPlane.isSpace c = false := by
  have hdigit : ∀ n, ControlPlane.isSpace (urlDigit (n % 64)) = false :=
    fun n => urlDigit_not_space _ (Nat.mod_lt n (by norm_num))
  have hlead : ∀ a b c : UInt8,
      ControlPlane.isSpace (urlDigit ((a.toNat*65536+b.toNat*256+c.toNat)/262144)) = false := by
    intro a b c
    have ha := a.toNat_lt
    have hb := b.toNat_lt
    have hc := c.toNat_lt
    exact urlDigit_not_space _ (by omega)
  fun_induction rawURL bs with
  | case1 a b c rest n ih =>
    simp only [List.mem_cons]
    rintro x (rfl | rfl | rfl | rfl | hx)
    · exact hlead a b c
    · exact hdigit _
    · exact hdigit _
    · exact hdigit _
    · exact ih x hx
  | case2 a b n =>
    simp only [List.mem_cons,List.not_mem_nil,or_false]
    rintro x (rfl | rfl | rfl)
    · simpa using hlead a b 0
    · exact hdigit _
    · exact hdigit _
  | case3 a n =>
    simp only [List.mem_cons,List.not_mem_nil,or_false]
    rintro x (rfl | rfl)
    · simpa using hlead a 0 0
    · exact hdigit _
  | case4 => simp

theorem trimSpace_eq_self {s : String} (h : ∀ c ∈ s.toList, ControlPlane.isSpace c = false) :
    ControlPlane.trimSpace s = s := by
  have hdrop : ∀ t : List Char, (∀ c ∈ t, ControlPlane.isSpace c = false) → t.dropWhile ControlPlane.isSpace = t := by
    intro t ht
    cases t with
    | nil => rfl
    | cons c t => simp [ht c (by simp)]
  unfold ControlPlane.trimSpace
  rw [hdrop _ h,hdrop _ (by simpa using h),List.reverse_reverse,String.ofList_toList]

theorem extractSessionToken_newSessionToken (buf : Hex.Bytes) :
    extractSessionToken (some (newSessionToken buf)) = newSessionToken buf := by
  have htrim : ControlPlane.trimSpace (newSessionToken buf) = newSessionToken buf :=
    trimSpace_eq_self (by simpa [newSessionToken] using rawURL_not_space buf)
  simp only [extractSessionToken,htrim]
  split
  · rename_i hempty
    rw [hempty]
  · rfl

theorem not_accepted {g : Shared} {buf : Hex.Bytes} (h : ¬ g.Live (newSessionToken buf)) (now : ℕ) :
    ¬ Accepted g now (newSessionToken buf) := by
  rw [Accepted,not_not]
  apply sessionMiddleware_eq_none
  rw [extractSessionToken_newSessionToken]
  refine List.find?_eq_none.mpr fun r hr hlookup => h ⟨r,hr,?_⟩
  simp only [Bool.and_eq_true,decide_eq_true_eq] at hlookup
  exact hlookup.1

/-- Every session is that of a token drawn before and, if a login drew it, of the login's user; no session
of a login outlives a revocation for a later version. -/
structure Guarded (g : Shared) : Prop where
  drawn : ∀ r ∈ g.sessions, ∃ token ∈ g.drawn, r.tokenHash = hashSessionToken token
  known : ∀ l ∈ g.logins, l.token ∈ g.drawn ∧ ∃ buf, l.token = newSessionToken buf
  owned : ∀ r ∈ g.sessions, ∀ l ∈ g.logins, r.tokenHash = hashSessionToken l.token → r.userID = l.userID
  dead : ∀ c ∈ g.revoked, ∀ l ∈ g.logins, l.userID = c.1 → l.version < c.2 → ¬ g.Live l.token
  settled : ∀ c ∈ g.changed, (c.userID,c.version) ∈ g.revoked

def Pc.Settled (g : Shared) : Pc → Prop
  | .changeIssue user version => (user.id,version) ∈ g.revoked
  | _ => True

/-- What drawing a token does: it is drawn, and at most its session is new. -/
structure Issued (e : Env) (userID : String) (g g' : Shared) : Prop where
  drawn : g'.drawn = newSessionToken e.buf :: g.drawn
  logins : g'.logins = g.logins
  revoked : g'.revoked = g.revoked
  changed : g'.changed = g.changed
  sessions : ∀ r ∈ g'.sessions, r ∈ g.sessions ∨
    (r.tokenHash = hashSessionToken (newSessionToken e.buf) ∧ r.userID = userID ∧ e.Effective)

theorem create_eq {g g' : Shared} {row : UserSessionRow} (h : g.create row = some g') :
    g' = { g with sessions := row :: g.sessions } := by
  unfold Shared.create at h
  obtain ⟨-,hsome⟩ := Option.ite_none_left_eq_some.mp h
  exact (Option.some.inj hsome).symm

/-- The tables after a token was drawn whose session was or was not inserted. -/
theorem issued_of_sessions {e : Env} {g : Shared} {userID id : String} {expiresAt : ℕ} (b : Bool)
    (hb : b = true → e.Effective) : Issued e userID g (if b then
      { g with
        drawn := newSessionToken e.buf :: g.drawn
        sessions := ⟨id,hashSessionToken (newSessionToken e.buf),userID,expiresAt⟩ :: g.sessions }
      else { g with drawn := newSessionToken e.buf :: g.drawn }) := by
  cases b with
  | false => exact ⟨rfl,rfl,rfl,rfl,fun r hr => .inl hr⟩
  | true =>
    refine ⟨rfl,rfl,rfl,rfl,fun r hr => ?_⟩
    rcases List.mem_cons.mp hr with rfl | hr
    · exact .inr ⟨rfl,rfl,hb rfl⟩
    · exact .inl hr

theorem issued {e : Env} {g : Shared} {userID : String} (h : e.randErr = none) :
    Issued e userID g (issueSession ttl e g userID).1 := by
  simp only [issueSession,h]
  split
  · exact @issued_of_sessions _ _ _ "" 0 false nofun
  · rename_i g'' hcreate herr
    rw [create_eq hcreate]
    exact issued_of_sessions true fun _ => .inl herr
  · rename_i g'' text hcreate herr
    rw [create_eq hcreate]
    exact issued_of_sessions e.lands .inr

inductive Moved (e : Env) (g : Shared) : Pc → Shared → Pc ⊕ Reply → Prop
  | quiet (p : Pc) (g' : Shared) (o : Pc ⊕ Reply) : g'.sessions ⊆ g.sessions → g'.drawn = g.drawn →
      g'.logins = g.logins → g'.revoked = g.revoked → g'.changed = g.changed →
      (∀ user version, o ≠ .inl (.changeIssue user version)) → Moved e g p g' o
  | loggedIn (user : Account) (g' : Shared) (v : Reply) : e.randErr = none → Issued e user.id g g' →
      Moved e g (.loginIssue user)
        { g' with logins := ⟨newSessionToken e.buf,user.id,user.version⟩ :: g'.logins } (.inr v)
  | revoked (user : UserRow) (version : ℕ) : Moved e g (.changeRevoke user version)
      { (if e.Effective then g.revokeAllForUser user.id else g) with revoked := (user.id,version) :: g.revoked }
      (.inl (.changeIssue user version))
  | reissued (user : UserRow) (version : ℕ) (g' : Shared) (v : Reply) : e.randErr = none → Issued e user.id g g' →
      Moved e g (.changeIssue user version) g' (.inr v)
  | changed (user : UserRow) (version : ℕ) (g' : Shared) (token : String) (v : Reply) :
      e.randErr = none → Issued e user.id g g' → Moved e g (.changeIssue user version)
        { g' with changed := ⟨user.id,version,token⟩ :: g'.changed } (.inr v)

theorem Moved.same {e : Env} {g : Shared} {p : Pc} {o : Pc ⊕ Reply}
    (h : ∀ user version, o ≠ .inl (.changeIssue user version)) : Moved e g p g o :=
  .quiet p g o (List.Subset.refl _) rfl rfl rfl rfl h

variable {verify ttl}

theorem moved {e : Env} {g g' : Shared} {p : Pc} {o : Pc ⊕ Reply} (hadv : advance verify ttl e g p = (g',o)) :
    Moved e g p g' o := by
  cases p with
  | loginRead body =>
    simp only [advance] at hadv
    split at hadv
    · cases hadv
      exact .same nofun
    · split at hadv <;> cases hadv <;> exact .same nofun
  | loginGet email password =>
    simp only [advance] at hadv
    split at hadv <;> cases hadv <;> exact .same nofun
  | loginVerify user password =>
    simp only [advance] at hadv
    split at hadv <;> cases hadv <;> exact .same nofun
  | loginTouch user =>
    cases hadv
    exact .same nofun
  | loginIssue user =>
    cases hrand : e.randErr with
    | some text =>
      simp only [advance,issueSession,hrand,reduceCtorEq,if_false] at hadv
      cases hadv
      exact .same nofun
    | none =>
      simp only [advance,hrand,if_true] at hadv
      have hissued : Issued e user.id g _ := issued ttl hrand
      split at hadv <;> cases hadv <;> exact .loggedIn user _ _ hrand hissued
  | cookieLookup cookie route =>
    simp only [advance] at hadv
    split at hadv <;> cases hadv <;> exact .same nofun
  | cookieUser sess route =>
    simp only [advance] at hadv
    split at hadv <;> cases hadv <;> exact .same nofun
  | changeRead user body =>
    simp only [advance] at hadv
    split at hadv
    · cases hadv
      exact .same nofun
    · split at hadv <;> cases hadv <;> exact .same nofun
  | changeVerify user req =>
    simp only [advance] at hadv
    split at hadv <;> cases hadv <;> exact .same nofun
  | changeHash user newPassword =>
    simp only [advance] at hadv
    split at hadv <;> cases hadv <;> exact .same nofun
  | changeUpdate user newHash =>
    simp only [advance] at hadv
    have hquiet : ∀ o, (∀ user version, o ≠ Sum.inl (Pc.changeIssue user version)) →
        Moved e g (.changeUpdate user newHash) (if e.Effective then g.updatePassword user.id newHash else g) o := by
      intro o ho
      split
      · exact .quiet _ _ _ (List.Subset.refl _) rfl rfl rfl rfl ho
      · exact .same ho
    split at hadv <;> cases hadv <;> exact hquiet _ nofun
  | changeRevoke user version =>
    cases hadv
    have hrevoked : (if e.Effective then g.revokeAllForUser user.id else g).revoked = g.revoked := by
      split <;> rfl
    rw [hrevoked]
    exact .revoked user version
  | changeIssue user version =>
    cases hrand : e.randErr with
    | some text =>
      simp only [advance,issueSession,hrand] at hadv
      cases hadv
      exact .same nofun
    | none =>
      have hissued : Issued e user.id g _ := issued ttl hrand
      simp only [advance] at hadv
      split at hadv
      · rename_i heq
        rw [heq] at hissued
        cases hadv
        exact .reissued user version _ _ hrand hissued
      · rename_i heq
        rw [heq] at hissued
        cases hadv
        exact .changed user version _ _ _ hrand hissued
  | logoutLookup cookie =>
    simp only [advance] at hadv
    split at hadv <;> cases hadv <;> exact .same nofun
  | logoutRevoke id =>
    simp only [advance] at hadv
    cases hadv
    split
    · exact .quiet _ _ _ (List.filter_subset_self ..) rfl rfl rfl rfl nofun
    · exact .same nofun

theorem Moved.revoked_subset {e : Env} {g g' : Shared} {p : Pc} {o : Pc ⊕ Reply} (h : Moved e g p g' o) :
    g.revoked ⊆ g'.revoked := by
  cases h with
  | quiet _ _ _ _ _ _ hrevoked => rw [hrevoked]; exact List.Subset.refl _
  | loggedIn user g' v hrand hi => exact hi.revoked ▸ List.Subset.refl _
  | revoked user version => exact List.subset_cons_self _ _
  | reissued user version g' v hrand hi => exact hi.revoked ▸ List.Subset.refl _
  | changed user version g' token v hrand hi => exact hi.revoked ▸ List.Subset.refl _

/-- Of the sessions after a token was drawn, those with the hash of an earlier token are not new. -/
theorem Issued.old {e : Env} {userID : String} {g g' : Shared} (hi : Issued e userID g g') {token : String}
    (hne : hashSessionToken token ≠ hashSessionToken (newSessionToken e.buf)) {r : UserSessionRow}
    (hr : r ∈ g'.sessions) (hhash : r.tokenHash = hashSessionToken token) : r ∈ g.sessions := by
  rcases hi.sessions r hr with hold | ⟨hnew,-,-⟩
  · exact hold
  · exact absurd (hhash.symm.trans hnew) hne

/-- Of the sessions after a token was drawn, those with its hash are new. -/
theorem Issued.new {e : Env} {userID : String} {g g' : Shared} (hi : Issued e userID g g') (hg : Guarded g)
    (hfresh : ∀ token ∈ g.drawn, hashSessionToken token ≠ hashSessionToken (newSessionToken e.buf))
    {r : UserSessionRow} (hr : r ∈ g'.sessions) (hhash : r.tokenHash = hashSessionToken (newSessionToken e.buf)) :
    r.userID = userID ∧ e.Effective := by
  rcases hi.sessions r hr with hold | ⟨-,howner,heffective⟩
  · obtain ⟨token,htoken,hsame⟩ := hg.drawn r hold
    exact absurd (hsame.symm.trans hhash) (hfresh token htoken)
  · exact ⟨howner,heffective⟩

theorem Guarded.issue {e : Env} {userID : String} {g g' : Shared} (hg : Guarded g) (hi : Issued e userID g g')
    (hfresh : ∀ token ∈ g.drawn, hashSessionToken token ≠ hashSessionToken (newSessionToken e.buf)) : Guarded g' where
  drawn r hr := by
    rw [hi.drawn]
    rcases hi.sessions r hr with hold | ⟨hhash,-,-⟩
    · obtain ⟨token,htoken,hsame⟩ := hg.drawn r hold
      exact ⟨token,List.mem_cons_of_mem _ htoken,hsame⟩
    · exact ⟨_,List.mem_cons_self,hhash⟩
  known l hl := by
    rw [hi.drawn]
    rw [hi.logins] at hl
    exact ⟨List.mem_cons_of_mem _ (hg.known l hl).1,(hg.known l hl).2⟩
  owned r hr l hl hhash := by
    rw [hi.logins] at hl
    exact hg.owned r (hi.old (hfresh _ (hg.known l hl).1) hr hhash) l hl hhash
  dead c hc l hl hid hlt := by
    rw [hi.revoked] at hc
    rw [hi.logins] at hl
    rintro ⟨r,hr,hhash⟩
    exact hg.dead c hc l hl hid hlt ⟨r,hi.old (hfresh _ (hg.known l hl).1) hr hhash,hhash⟩
  settled c hc := by
    rw [hi.changed] at hc
    rw [hi.revoked]
    exact hg.settled c hc

theorem Guarded.login {e : Env} {user : Account} {g g' : Shared} (hg : Guarded g) (hi : Issued e user.id g g')
    (hfresh : ∀ token ∈ g.drawn, hashSessionToken token ≠ hashSessionToken (newSessionToken e.buf))
    (hcurrent : e.Effective → ∀ r ∈ g.revoked, r.1 = user.id → r.2 ≤ user.version) :
    Guarded { g' with logins := ⟨newSessionToken e.buf,user.id,user.version⟩ :: g'.logins } := by
  have hg' := hg.issue hi hfresh
  refine ⟨hg'.drawn,fun l hl => ?_,fun r hr l hl hhash => ?_,fun c hc l hl hid hlt => ?_,hg'.settled⟩
  · rcases List.mem_cons.mp hl with rfl | hl
    · exact ⟨by rw [hi.drawn]; exact List.mem_cons_self,e.buf,rfl⟩
    · exact hg'.known l hl
  · rcases List.mem_cons.mp hl with rfl | hl
    · exact (hi.new hg hfresh hr hhash).1
    · exact hg'.owned r hr l hl hhash
  · rcases List.mem_cons.mp hl with rfl | hl
    · rintro ⟨r,hr,hhash⟩
      have hc' : c ∈ g.revoked := by rwa [← hi.revoked]
      have hle := hcurrent (hi.new hg hfresh hr hhash).2 c hc' hid.symm
      exact absurd hlt (by simpa using hle)
    · exact hg'.dead c hc l hl hid hlt

theorem Guarded.revoke {e : Env} {user : UserRow} {version : ℕ} {g : Shared} (hg : Guarded g)
    (hnone : ¬ e.Effective → ∀ l ∈ g.logins, l.userID = user.id → l.version < version → ¬ g.Live l.token) :
    Guarded { (if e.Effective then g.revokeAllForUser user.id else g) with
      revoked := (user.id,version) :: g.revoked } := by
  by_cases heff : e.Effective
  · rw [if_pos heff]
    have hsub : (g.revokeAllForUser user.id).sessions ⊆ g.sessions := List.filter_subset_self ..
    refine ⟨fun r hr => hg.drawn r (hsub hr),hg.known,fun r hr => hg.owned r (hsub hr),?_,fun c hc =>
      List.mem_cons_of_mem _ (hg.settled c hc)⟩
    rintro c hc l hl hid hlt ⟨r,hr,hhash⟩
    rcases List.mem_cons.mp hc with rfl | hc
    · have hother : r.userID ≠ user.id := by
        have := List.of_mem_filter hr
        simpa using this
      exact hother ((hg.owned r (hsub hr) l hl hhash).trans hid)
    · exact hg.dead c hc l hl hid hlt ⟨r,hsub hr,hhash⟩
  · rw [if_neg heff]
    refine ⟨hg.drawn,hg.known,hg.owned,fun c hc l hl hid hlt => ?_,fun c hc => List.mem_cons_of_mem _ (hg.settled c hc)⟩
    rcases List.mem_cons.mp hc with rfl | hc
    · exact hnone heff l hl hid hlt
    · exact hg.dead c hc l hl hid hlt

/-- One step of an orderly request keeps the guard, and a request that is about to answer a change has its
revocation behind it. -/
theorem guarded_step {e : Env} {g g' : Shared} {p : Pc} {o : Pc ⊕ Reply} (hm : Moved e g p g' o) (hg : Guarded g)
    (hp : p.Settled g) (hok : p.Orderly g e) : Guarded g' ∧ ∀ p', o = .inl p' → p'.Settled g' := by
  cases hm with
  | quiet _ _ _ hsub hdrawn hlogins hrevoked hchanged ho =>
    refine ⟨⟨fun r hr => hdrawn ▸ hg.drawn r (hsub hr),fun l hl => hdrawn ▸ hg.known l (hlogins ▸ hl),
      fun r hr l hl => hg.owned r (hsub hr) l (hlogins ▸ hl),?_,fun c hc => hrevoked ▸ hg.settled c (hchanged ▸ hc)⟩,?_⟩
    · rintro c hc l hl hid hlt ⟨r,hr,hhash⟩
      exact hg.dead c (hrevoked ▸ hc) l (hlogins ▸ hl) hid hlt ⟨r,hsub hr,hhash⟩
    · rintro p' rfl
      cases p' with
      | changeIssue user version => exact absurd rfl (ho user version)
      | _ => trivial
  | loggedIn user g' v hrand hi => exact ⟨hg.login hi (hok.1 hrand) (hok.2 hrand),nofun⟩
  | revoked user version =>
    refine ⟨hg.revoke hok,fun p' hp' => ?_⟩
    cases hp'
    exact List.mem_cons_self
  | reissued user version g' v hrand hi => exact ⟨hg.issue hi (hok hrand),nofun⟩
  | changed user version g' token v hrand hi =>
    have hg' := hg.issue hi (hok hrand)
    refine ⟨⟨hg'.drawn,hg'.known,hg'.owned,hg'.dead,fun c hc => ?_⟩,nofun⟩
    rcases List.mem_cons.mp hc with rfl | hc
    · exact hi.revoked ▸ hp
    · exact hg'.settled c hc

theorem Pc.Settled.mono {g g' : Shared} {p : Pc} (hp : p.Settled g) (hsub : g.revoked ⊆ g'.revoked) : p.Settled g' := by
  cases p with
  | changeIssue user version => exact hsub hp
  | _ => trivial

theorem guarded_run {users : List Account} {as : List Action} {s : State}
    (hr : Run (step verify ttl) Orderly (init users) as s) :
    Guarded s.shared ∧ ∀ p ∈ s.threads, p.Settled s.shared := by
  refine hr.invariant (fun s => Guarded s.shared ∧ ∀ p ∈ s.threads, p.Settled s.shared) ?_
    ⟨⟨by simp [init],by simp [init],by simp [init],by simp [init],by simp [init]⟩,by simp [init]⟩
  rintro s a t ⟨hg,hthreads⟩ hok hst
  rcases Pool.step_cases hst with ⟨c,rfl,rfl⟩ | ⟨i,e,l,r,p,g',p',rfl,hl,hi,hadv,rfl⟩ |
    ⟨i,e,l,r,p,g',v,rfl,hl,hi,hadv,rfl⟩
  · refine ⟨hg,fun p hp => ?_⟩
    rcases List.mem_append.mp hp with hp | hp
    · exact hthreads p hp
    · rw [List.mem_singleton.mp hp]
      cases c <;> trivial
  · have hm := moved hadv
    have hp : p ∈ s.threads := by simp [hl]
    obtain ⟨hg',hnext⟩ := guarded_step hm hg (hthreads p hp) (hok p hi)
    refine ⟨hg',fun q hq => ?_⟩
    rcases List.mem_cons.mp (List.perm_middle.subset hq) with rfl | hq
    · exact hnext _ rfl
    · exact (hthreads q (by rw [hl]; exact List.perm_middle.symm.subset (List.mem_cons_of_mem _ hq))).mono
        hm.revoked_subset
  · have hm := moved hadv
    have hp : p ∈ s.threads := by simp [hl]
    obtain ⟨hg',-⟩ := guarded_step hm hg (hthreads p hp) (hok p hi)
    refine ⟨hg',fun q hq => ?_⟩
    exact (hthreads q (by rw [hl]; exact List.perm_middle.symm.subset (List.mem_cons_of_mem _ hq))).mono
      hm.revoked_subset

/-- In an orderly run no session of a login that verified an older password is accepted once the change
has been answered. -/
theorem old_sessions_refused (verify : String → String → Except String Bool) (ttl : ℕ) (users : List Account)
    (as : List Action) (s : State) (hr : Run (step verify ttl) Orderly (init users) as s) : OldRevoked s.shared := by
  obtain ⟨hg,-⟩ := guarded_run hr
  intro c hc l hl hid hlt _ now
  obtain ⟨-,buf,hbuf⟩ := hg.known l hl
  have hdead : ¬ s.shared.Live l.token := hg.dead _ (hg.settled c hc) l hl hid hlt
  rw [hbuf] at hdead ⊢
  exact not_accepted hdead now

/-- A password check that reads the password off the hash. -/
def plainVerify (password hash : String) : Except String Bool := .ok (decide (hash = "$argon2id$" ++ password))

def ada : Account := ⟨⟨"user_1","ada@example.com","$argon2id$correct horse","admin"⟩,0⟩

def loginCall : Call := .login (.ok ⟨"ada@example.com","correct horse"⟩)

/-- The call at position `i` up to its last step. -/
def untilLast (i n : ℕ) : List Action := List.replicate n (.advance i {})

def issue (i : ℕ) (buf : Hex.Bytes) (id : String) : Action := .advance i { buf := buf, id := id }

/-- A change of the password by the owner of the first token. -/
def changeCall : Call := .request (some (newSessionToken [1])) (.change (.ok ⟨"correct horse","battery staple"⟩))

/-- The steps of a change at position `i`; `revoke` is the environment of its revocation. -/
def change (i : ℕ) (revoke : Env) : List Action :=
  untilLast i 4 ++ [.advance i { hash := "$argon2id$battery staple" },.advance i {},.advance i revoke,
    issue i [2] "sess_2"]

def firstLogin : List Action := .invoke loginCall :: untilLast 0 4 ++ [issue 0 [1] "sess_1"]

def calmChange : List Action := firstLogin ++ .invoke changeCall :: change 0 {}

def failedRevocation : List Action := firstLogin ++ .invoke changeCall :: change 0 { err := some "connection reset" }

/-- A second login verifies the old password before the change and inserts its session after it. -/
def lateLogin : List Action :=
  firstLogin ++ .invoke loginCall :: untilLast 0 4 ++ .invoke changeCall :: change 1 {} ++ [issue 0 [3] "sess_3"]

/-- A session of a login that verified the old password is accepted after the change. -/
def survives (now : ℕ) (s : State) : Bool :=
  s.shared.changed.any fun c => s.shared.logins.any fun l =>
    decide (l.userID = c.userID ∧ l.version < c.version ∧ l.token ≠ c.token) &&
      (sessionMiddleware (lookup s.shared.sessions now) s.shared.getByID (some l.token)).isSome

theorem not_oldRevoked {now : ℕ} {s : State} (h : survives now s = true) : ¬ OldRevoked s.shared := by
  simp only [survives,List.any_eq_true,Bool.and_eq_true,decide_eq_true_eq] at h
  obtain ⟨c,hc,l,hl,⟨hid,hlt,hne⟩,haccepted⟩ := h
  exact fun hrevoked => hrevoked c hc l hl hid hlt hne now (Option.isSome_iff_ne_none.mp haccepted)

theorem old_sessions_refused_calmChange :
    ∃ s, Run (step plainVerify 100) Orderly (init [ada]) calmChange s ∧
      s.replies.head? = some (.changed (newSessionToken [2])) ∧
      OldRevoked s.shared := by
  have hrun : (exec (step plainVerify 100) (init [ada]) calmChange).any
      (fun s => s.replies.head? = some (.changed (newSessionToken [2]))) = true := by decide +kernel
  obtain ⟨s,hs,hreply⟩ := (Option.any_eq_true _ _).mp hrun
  have hr : Run (step plainVerify 100) Orderly (init [ada]) calmChange s := .of_exec (by decide +kernel) hs
  exact ⟨s,hr,by simpa using hreply,old_sessions_refused plainVerify 100 [ada] calmChange s hr⟩

theorem old_session_survives :
    (∃ s, exec (step plainVerify 100) (init [ada]) failedRevocation = some s ∧ ¬ OldRevoked s.shared) ∧
      ∃ s, exec (step plainVerify 100) (init [ada]) lateLogin = some s ∧ ¬ OldRevoked s.shared := by
  have hfailed : (exec (step plainVerify 100) (init [ada]) failedRevocation).any (survives 0) = true := by
    decide +kernel
  have hlate : (exec (step plainVerify 100) (init [ada]) lateLogin).any (survives 0) = true := by
    decide +kernel
  obtain ⟨s,hs,hsurvives⟩ := (Option.any_eq_true _ _).mp hfailed
  obtain ⟨t,ht,htsurvives⟩ := (Option.any_eq_true _ _).mp hlate
  exact ⟨⟨s,hs,not_oldRevoked hsurvives⟩,t,ht,not_oldRevoked htsurvives⟩

end PasswordChange
end Clearvoiance
