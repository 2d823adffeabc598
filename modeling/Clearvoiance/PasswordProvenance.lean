import Clearvoiance.PasswordChange
import Clearvoiance.PasswordHash

/-! Where the passwords of the accounts come from.  Every hash in the table of users is one that was written for a
password with which the account started or which a change installed after verifying the one before; so nobody logs
in with a password that does not agree with one of these, and the hash of an account is never found malformed. -/
namespace Clearvoiance
namespace PasswordProvenance

open PasswordHash (IDKey Argon2idParams hashPassword verifyPassword)
open FirstSetup (UserRow)
open PasswordChange Transition

section Passwords

variable (idKey : IDKey)

/-- The hash is one that `HashPassword` writes for the password. -/
def Written (plaintext hash : String) : Prop := ∃ salt p, hash = hashPassword idKey salt plaintext p

/-- The hash was written for the first password, and the second has the same key under its salt and parameters. -/
def Agrees (plaintext password hash : String) : Prop :=
  ∃ salt p, hash = hashPassword idKey salt plaintext p ∧
    idKey (Hex.utf8 plaintext) salt p.iterations p.memory p.parallelism p.keyLength =
      idKey (Hex.utf8 password) salt p.iterations p.memory p.parallelism p.keyLength

variable (ttl : ℕ) (users : List Account) (calls : List Action)

/-- The tables as some beginning of the calls leaves them. -/
def Reached (g : Shared) : Prop :=
  ∃ pre t, pre <+: calls ∧ exec (step (verifyPassword idKey) ttl) (init users) pre = some t ∧ t.shared = g

def Held (user : UserRow) : Prop := ∃ g, Reached idKey ttl users calls g ∧ ∃ u ∈ g.users, u.toUserRow = user

/-- The cookie stood for a session of the user. -/
def Presented (cookie : Option String) (userID : String) : Prop :=
  ∃ g, Reached idKey ttl users calls g ∧ ∃ row ∈ g.sessions, row.userID = userID ∧
    row.tokenHash = Middleware.hashSessionToken (Middleware.extractSessionToken cookie)

/-- A password of an account: one that its first hash was written for, or the new one of a change that was asked for
with a session of the account and a current password that agrees, under the hash in the row of the account, with a
password of the account. -/
inductive Authorized : String → String → Prop
  | initial {u plaintext} : u ∈ users → Written idKey plaintext u.passwordHash → Authorized u.id plaintext
  | changed {user : UserRow} {plaintext cookie req} : Authorized user.id plaintext →
      Act.invoke (.request cookie (.change (.ok req))) ∈ calls → Presented idKey ttl users calls cookie user.id →
      FirstSetup.validatePasswordStrength req.newPassword = none → Held idKey ttl users calls user →
      Agrees idKey plaintext req.currentPassword user.passwordHash → Authorized user.id req.newPassword

/-- The hash of the row was written for a password of the account. -/
def Known (id hash : String) : Prop :=
  ∃ plaintext, Authorized idKey ttl users calls id plaintext ∧ Written idKey plaintext hash

/-- A login was asked for with the address of the user, whose row stood in the table, and a password that agrees with
one of the account under the hash in that row. -/
def LoggedIn (user : UserRow) : Prop :=
  ∃ req plaintext, Act.invoke (.login (.ok req)) ∈ calls ∧ Held idKey ttl users calls user ∧
    user.email = FirstSetup.toLower (FirstSetup.normalize req.email) ∧
    Authorized idKey ttl users calls user.id plaintext ∧ Agrees idKey plaintext req.password user.passwordHash

def Genuine : Pc → Prop
  | .loginRead body => Act.invoke (.login body) ∈ calls
  | .loginGet email password => ∃ req, Act.invoke (.login (.ok req)) ∈ calls ∧
      email = FirstSetup.normalize req.email ∧ password = req.password
  | .loginVerify user password => (∃ req, Act.invoke (.login (.ok req)) ∈ calls ∧
      user.email = FirstSetup.toLower (FirstSetup.normalize req.email) ∧ password = req.password) ∧
      Held idKey ttl users calls user.toUserRow ∧ Known idKey ttl users calls user.id user.passwordHash
  | .loginTouch user | .loginIssue user => LoggedIn idKey ttl users calls user.toUserRow
  | .cookieLookup cookie route => Act.invoke (.request cookie route) ∈ calls
  | .cookieUser sess route => ∃ cookie, Act.invoke (.request cookie route) ∈ calls ∧
      Presented idKey ttl users calls cookie sess.userID
  | .changeRead user body => (∃ cookie, Act.invoke (.request cookie (.change body)) ∈ calls ∧
      Presented idKey ttl users calls cookie user.id) ∧ Held idKey ttl users calls user ∧
      Known idKey ttl users calls user.id user.passwordHash
  | .changeVerify user req => (∃ cookie, Act.invoke (.request cookie (.change (.ok req))) ∈ calls ∧
      Presented idKey ttl users calls cookie user.id) ∧
      FirstSetup.validatePasswordStrength req.newPassword = none ∧ Held idKey ttl users calls user ∧
      Known idKey ttl users calls user.id user.passwordHash
  | .changeHash user newPassword => Authorized idKey ttl users calls user.id newPassword
  | .changeUpdate user newHash => Known idKey ttl users calls user.id newHash
  | .changeRevoke _ _ | .changeIssue _ _ | .logoutLookup _ | .logoutRevoke _ => True

def Answered : Reply → Prop
  | .loggedIn user _ => LoggedIn idKey ttl users calls user
  | _ => True

/-- The rows of the users, and what comes of the step of a request. -/
def Kept (g : Shared) : Prop := ∀ u ∈ g.users, Known idKey ttl users calls u.id u.passwordHash

def Outcome : Pc ⊕ Reply → Prop
  | .inl p => Genuine idKey ttl users calls p
  | .inr v => Answered idKey ttl users calls v

variable (p : Argon2idParams)

/-- A change draws its salt and hashes the new password with it. -/
def Salted (e : Env) : Pc → Prop
  | .changeHash _ newPassword => e.err = none →
      e.buf.length = p.saltLength.toNat ∧ e.hash = hashPassword idKey e.buf newPassword p
  | _ => True

def Hashes (s : State) : Action → Prop
  | .invoke _ => True
  | .advance i e => ∀ pc ∈ s.threads[i]?, Salted idKey p e pc

instance (e : Env) (pc : Pc) : Decidable (Salted idKey p e pc) := by
  induction pc using Pc.casesOn <;> unfold Salted <;> infer_instance

instance (s : State) (a : Action) : Decidable (Hashes idKey p s a) := by
  induction a using Act.casesOn <;> unfold Hashes <;> infer_instance

end Passwords

variable {idKey : IDKey} {users : List Account} {calls : List Action} {p : Argon2idParams} {ttl : ℕ}

section Steps

theorem lookup_row {rows : List Middleware.UserSessionRow} {now : ℕ} {tokenHash : String}
    {row : Middleware.UserSessionRow} (h : Middleware.lookup rows now tokenHash = some row) :
    row ∈ rows ∧ row.tokenHash = tokenHash := by
  have hfound := List.find?_some h
  simp only [Bool.and_eq_true,decide_eq_true_eq] at hfound
  exact ⟨List.mem_of_find?_eq_some h,hfound.1⟩

theorem issueSession_users (ttl : ℕ) (e : Env) (g : Shared) (userID : String) :
    (issueSession ttl e g userID).1.users = g.users := by
  simp only [issueSession]
  split
  · rfl
  · split
    · rfl
    · rename_i hcreate _
      rw [create_eq hcreate]
    · rename_i hcreate _
      split
      · rw [create_eq hcreate]
      · rfl

/-- Only a change updates the rows of the users, and it updates one password. -/
theorem users_step {verify : String → String → Except String Bool} {e : Env} {g g' : Shared} {pc : Pc}
    {o : Pc ⊕ Reply} (hadv : advance verify ttl e g pc = (g',o)) :
    g'.users = g.users ∨ ∃ user newHash, pc = .changeUpdate user newHash ∧ g' = g.updatePassword user.id newHash := by
  cases pc with
  | changeUpdate user newHash =>
    have hcases : ∀ b : Prop, [Decidable b] → g' = (if b then g.updatePassword user.id newHash else g) →
        g'.users = g.users ∨ ∃ user' newHash', Pc.changeUpdate user newHash = .changeUpdate user' newHash' ∧
          g' = g.updatePassword user'.id newHash' := by
      intro b _ hg'
      split at hg'
      · exact .inr ⟨user,newHash,rfl,hg'⟩
      · exact .inl (by rw [hg'])
    simp only [advance] at hadv
    split at hadv <;> cases hadv <;> exact hcases _ rfl
  | loginIssue user =>
    refine .inl ?_
    simp only [advance] at hadv
    split at hadv <;> cases hadv <;> split <;> exact issueSession_users ttl e g user.id
  | changeRevoke user version =>
    cases hadv
    refine .inl ?_
    split <;> rfl
  | changeIssue user version =>
    refine .inl ?_
    have hissue := issueSession_users ttl e g user.id
    simp only [advance] at hadv
    split at hadv <;> rename_i heq <;> cases hadv <;> simpa only [heq] using hissue
  | logoutRevoke id =>
    cases hadv
    refine .inl ?_
    split <;> rfl
  | loginRead body =>
    simp only [advance] at hadv
    split at hadv
    · cases hadv
      exact .inl rfl
    · split at hadv <;> cases hadv <;> exact .inl rfl
  | changeRead user body =>
    simp only [advance] at hadv
    split at hadv
    · cases hadv
      exact .inl rfl
    · split at hadv <;> cases hadv <;> exact .inl rfl
  | loginTouch user =>
    cases hadv
    exact .inl rfl
  | loginGet email password | loginVerify user password | cookieLookup cookie route | cookieUser sess route
  | changeVerify user req | changeHash user newPassword | logoutLookup cookie =>
    simp only [advance] at hadv
    split at hadv <;> cases hadv <;> exact .inl rfl

theorem genuine_entry {c : Call} (h : Act.invoke c ∈ calls) : Genuine idKey ttl users calls (entry c) := by
  cases c with
  | login body => exact h
  | request cookie route => exact h
  | logout cookie => trivial

theorem kept_step {e : Env} {g g' : Shared} {pc : Pc} {o : Pc ⊕ Reply} (hg : Kept idKey ttl users calls g)
    (hpc : Genuine idKey ttl users calls pc) (hadv : advance (verifyPassword idKey) ttl e g pc = (g',o)) :
    Kept idKey ttl users calls g' := by
  rcases users_step hadv with hsame | ⟨user,newHash,rfl,rfl⟩
  · exact fun u hu => hg u (hsame ▸ hu)
  · intro u hu
    obtain ⟨v,hv,rfl⟩ := List.mem_map.mp hu
    by_cases hid : v.id = user.id
    · have hknown : Known idKey ttl users calls user.id newHash := hpc
      simpa [hid] using hknown
    · simpa [hid] using hg v hv

variable (hlength : ∀ password salt t m p n, (idKey password salt t m p n).length = UInt32.toNat n)
include hlength

theorem verify_written {plaintext hash : String} (h : Written idKey plaintext hash) :
    verifyPassword idKey plaintext hash = .ok true := by
  obtain ⟨salt,p,rfl⟩ := h
  simp [PasswordHash.verify_hashPassword idKey hlength]

theorem verify_ok {plaintext hash : String} (h : Written idKey plaintext hash) (password : String) :
    ∃ b, verifyPassword idKey password hash = .ok b := by
  obtain ⟨salt,p,rfl⟩ := h
  exact ⟨_,PasswordHash.verify_hashPassword idKey hlength salt plaintext password p⟩

theorem agrees_of_verify {plaintext password hash : String} (h : Written idKey plaintext hash)
    (hv : verifyPassword idKey password hash = .ok true) : Agrees idKey plaintext password hash := by
  obtain ⟨salt,p,rfl⟩ := h
  rw [PasswordHash.verify_hashPassword idKey hlength] at hv
  exact ⟨salt,p,rfl,by simpa using hv⟩

theorem genuine_step {e : Env} {g g' : Shared} {pc : Pc} {o : Pc ⊕ Reply} (hok : Salted idKey p e pc)
    (hreached : Reached idKey ttl users calls g) (hg : Kept idKey ttl users calls g) (hpc : Genuine idKey ttl users calls pc)
    (hadv : advance (verifyPassword idKey) ttl e g pc = (g',o)) : Outcome idKey ttl users calls o := by
  cases pc with
  | loginRead body =>
    simp only [advance] at hadv
    split at hadv
    · cases hadv
      trivial
    · rename_i req
      split at hadv <;> cases hadv
      · trivial
      · exact ⟨req,hpc,rfl,rfl⟩
  | loginGet email password =>
    obtain ⟨req,hcall,rfl,rfl⟩ := hpc
    simp only [advance] at hadv
    split at hadv <;> cases hadv
    · trivial
    · trivial
    · rename_i user _ hfind
      have hmail : user.email = FirstSetup.toLower (FirstSetup.normalize req.email) := by
        simpa using List.find?_some hfind
      have hmem : user ∈ g.users := List.mem_of_find?_eq_some hfind
      exact ⟨⟨req,hcall,hmail,rfl⟩,⟨g,hreached,user,hmem,rfl⟩,hg user hmem⟩
  | loginVerify user password =>
    obtain ⟨⟨req,hcall,hmail,rfl⟩,hheld,plaintext,hauth,hwritten⟩ := hpc
    simp only [advance] at hadv
    split at hadv <;> cases hadv
    · trivial
    · trivial
    · rename_i hverify
      exact ⟨req,plaintext,hcall,hheld,hmail,hauth,agrees_of_verify hlength hwritten hverify⟩
  | loginTouch user =>
    cases hadv
    exact hpc
  | loginIssue user =>
    simp only [advance] at hadv
    split at hadv <;> cases hadv
    · trivial
    · exact hpc
  | cookieLookup cookie route =>
    simp only [advance] at hadv
    split at hadv <;> cases hadv
    · rename_i sess hfound
      split at hfound
      · cases hfound
      · obtain ⟨hmem,hhash⟩ := lookup_row hfound
        exact ⟨cookie,hpc,g,hreached,sess,hmem,rfl,hhash⟩
    · trivial
    · trivial
  | cookieUser sess route =>
    simp only [advance] at hadv
    split at hadv <;> cases hadv
    · trivial
    · rename_i user body hfind
      split at hfind
      · obtain ⟨u,hu,rfl⟩ := Option.map_eq_some_iff.mp hfind
        have hmem : u ∈ g.users := List.mem_of_find?_eq_some hu
        have hid : u.id = sess.userID := by simpa using List.find?_some hu
        exact ⟨hid ▸ hpc,⟨g,hreached,u,hmem,rfl⟩,hg u hmem⟩
      · cases hfind
    · trivial
  | changeRead user body =>
    simp only [advance] at hadv
    split at hadv
    · cases hadv
      trivial
    · split at hadv <;> cases hadv
      · trivial
      · rename_i hstrong
        exact ⟨hpc.1,hstrong,hpc.2⟩
  | changeVerify user req =>
    obtain ⟨⟨cookie,hcall,hpresented⟩,hstrong,hheld,plaintext,hauth,hwritten⟩ := hpc
    simp only [advance] at hadv
    split at hadv <;> cases hadv
    · rename_i hverify
      exact Authorized.changed hauth hcall hpresented hstrong hheld (agrees_of_verify hlength hwritten hverify)
    · trivial
  | changeHash user newPassword =>
    simp only [advance] at hadv
    split at hadv <;> cases hadv
    · trivial
    · rename_i herr
      exact ⟨newPassword,hpc,e.buf,p,(hok herr).2⟩
  | changeUpdate user newHash =>
    simp only [advance] at hadv
    split at hadv <;> cases hadv <;> trivial
  | changeRevoke user version =>
    cases hadv
    trivial
  | changeIssue user version =>
    simp only [advance] at hadv
    split at hadv <;> cases hadv <;> trivial
  | logoutLookup cookie =>
    simp only [advance] at hadv
    split at hadv <;> cases hadv <;> trivial
  | logoutRevoke id =>
    cases hadv
    trivial

/-- In every run the hashes of the table were written for passwords of the accounts, and all that was answered is
so. -/
theorem kept_run {s : State} (husers : ∀ u ∈ users, ∃ plaintext, Written idKey plaintext u.passwordHash)
    (hr : Run (step (verifyPassword idKey) ttl) (Hashes idKey p) (init users) calls s) :
    Kept idKey ttl users calls s.shared ∧ ∀ v ∈ s.replies, Answered idKey ttl users calls v := by
  have hstart : Kept idKey ttl users calls (init users).shared := by
    intro u hu
    obtain ⟨plaintext,hwritten⟩ := husers u hu
    exact ⟨plaintext,.initial hu hwritten,hwritten⟩
  have hholds := Pool.run_holds (C := fun _ _ => True)
    (G := fun g replies _ => Kept idKey ttl users calls g ∧ ∀ v ∈ replies, Answered idKey ttl users calls v)
    (T := fun pc _ _ => Genuine idKey ttl users calls pc) (fun _ _ h => h) ?_ ?_ ?_ hr.labelled.reached
    ⟨⟨hstart,by simp [init]⟩,by simp [init],by simp [init]⟩
  · exact hholds.shared
  · rintro s c ⟨-,hcall,-⟩ hs
    exact ⟨hs.shared,genuine_entry hcall,fun _ _ => trivial⟩
  · rintro s i e pc o g' pc' ⟨⟨pre,hpre,hexec⟩,-,hok⟩ hi - hadv ⟨hg,hreplies⟩ hpc ho -
    have hnext : Outcome idKey ttl users calls (.inl pc') := genuine_step hlength (hok pc hi) ⟨pre,s,hpre,hexec,rfl⟩ hg hpc hadv
    exact ⟨⟨kept_step hg hpc hadv,hreplies⟩,hnext,ho,fun _ _ => trivial⟩
  · rintro s i e pc o g' v ⟨⟨pre,hpre,hexec⟩,-,hok⟩ hi - hadv ⟨hg,hreplies⟩ hpc ho -
    have hanswer : Outcome idKey ttl users calls (.inr v) := genuine_step hlength (hok pc hi) ⟨pre,s,hpre,hexec,rfl⟩ hg hpc hadv
    exact ⟨⟨kept_step hg hpc hadv,List.forall_mem_cons.mpr ⟨hanswer,hreplies⟩⟩,ho⟩

end Steps

def small : Argon2idParams := ⟨8,1,1,8,4⟩

def firstSalt : Hex.Bytes := [1,2,3,4,5,6,7,8]

def secondSalt : Hex.Bytes := [8,7,6,5,4,3,2,1]

/-- The keys of two passwords under two salts, as argon2id derives them from `small`. -/
def keys : List ((String × Hex.Bytes) × Hex.Bytes) :=
  [(("correct horse",firstSalt),[125,231,228,94]),(("battery staple",firstSalt),[125,53,79,135]),
    (("correct horse",secondSalt),[151,51,175,224]),(("battery staple",secondSalt),[250,152,189,96])]

def smallKey : IDKey := fun password salt t m p n =>
  match keys.find? fun k => Hex.utf8 k.1.1 = password && k.1.2 = salt with
  | some k => if t = small.iterations ∧ m = small.memory ∧ p = small.parallelism ∧ n = 4 then k.2
    else List.replicate n.toNat 0
  | none => List.replicate n.toNat 0

def owner : Account :=
  ⟨⟨"user_1","ada@example.com",hashPassword smallKey firstSalt "correct horse" small,"admin"⟩,0⟩

def rotation : List Action :=
  firstLogin ++ .invoke changeCall :: untilLast 0 4 ++
    [.advance 0 { buf := secondSalt, hash := hashPassword smallKey secondSalt "battery staple" small },.advance 0 {},
      .advance 0 {},issue 0 [2] "sess_2"]

def isLogin : Reply → Bool
  | .loggedIn _ _ => true
  | _ => false

end PasswordProvenance
end Clearvoiance
