import Clearvoiance.ControlPlane
import Clearvoiance.Hex
import Clearvoiance.UnicodeCase

/-! The first-run setup of the engine's dashboard.  A request counts the users, hashes its password and
inserts a user; the table refuses a second user with the same e-mail address but not one with another, so
two requests that both count before either inserts can both succeed. -/
namespace Clearvoiance
namespace FirstSetup

open Transition

structure UserRow where
  id : String
  email : String
  passwordHash : String
  role : String
  deriving DecidableEq

structure Store where
  users : List UserRow
  deriving DecidableEq

structure SetupRequest where
  email : String
  password : String
  deriving DecidableEq

/-- A request to the setup endpoint: its body, or the error of decoding it. -/
structure Call where
  body : Except String SetupRequest

inductive Reply
  | error (status : ℕ) (code message : String)
  | created (id email role : String)
  deriving DecidableEq

inductive Pc
  | start (body : Except String SetupRequest)
  | count (email password : String)
  | hash (email password : String)
  | create (user : UserRow)
  | session (user : UserRow)

/-- What the environment answers to one step: an error of the store, of the random source or of the hash,
the hash, and a new user id. -/
structure Env where
  err : Option String
  hash : String
  id : String

abbrev Next := Store × (Pc ⊕ Reply)

def toLower (s : String) : String := String.ofList (UnicodeCase.goToLower s.toList)

def normalize (email : String) : String := ControlPlane.trimSpace (toLower email)

/-- One `@` with text on both sides and no blanks. -/
def validEmail (s : String) : Bool :=
  let t := s.toList
  decide ('@' ∈ t) && decide (t.idxOf '@' ≠ 0) && decide (t.idxOf '@'+1 < t.length) &&
    !(t.any fun c => c = ' ' || c = '\t' || c = '\r' || c = '\n')

/-- The message for a password that is refused; the length is in bytes. -/
def validatePasswordStrength (p : String) : Option String :=
  if (Hex.utf8 p).length < 10 then some "password must be at least 10 characters"
  else if 1024 < (Hex.utf8 p).length then some "password is unreasonably long"
  else none

/-- The primary key or the e-mail address of the row is in the table. -/
def Store.taken (d : Store) (row : UserRow) : Bool := d.users.any fun u => u.id = row.id || u.email = toLower row.email

def stored (row : UserRow) : UserRow :=
  { row with email := toLower row.email, role := if row.role = "" then "admin" else row.role }

inductive CreateError
  | userAlreadyExists
  | other (message : String)

def Store.create (d : Store) (err : Option String) (row : UserRow) : Except CreateError Store :=
  match err with
  | some message => .error (.other message)
  | none => if d.taken row then .error .userAlreadyExists else .ok ⟨d.users ++ [stored row]⟩

def internal (what message : String) : Reply := .error 500 "INTERNAL" (what ++ ": " ++ message)

def alreadyInitialized : Reply := .error 409 "ALREADY_INITIALIZED" "setup already completed"

/-- `handleSetup`, step by step: the checks of the request, the count, the hash, the insert, the session. -/
def advance (e : Env) (d : Store) : Pc → Next
  | .start body =>
    match body with
    | .error message => (d,.inr (.error 400 "BAD_REQUEST" ("could not decode request body: " ++ message)))
    | .ok req =>
      let email := normalize req.email
      if !validEmail email then
        (d,.inr (.error 400 "INVALID_EMAIL" "email is required and must look like an address"))
      else
        match validatePasswordStrength req.password with
        | some message => (d,.inr (.error 400 "WEAK_PASSWORD" message))
        | none => (d,.inl (.count email req.password))
  | .count email password =>
    match e.err with
    | some message => (d,.inr (internal "count users" message))
    | none => if 0 < d.users.length then (d,.inr alreadyInitialized) else (d,.inl (.hash email password))
  | .hash email _ =>
    match e.err with
    | some message => (d,.inr (internal "hash password" message))
    | none => (d,.inl (.create ⟨e.id,email,e.hash,"admin"⟩))
  | .create user =>
    match d.create e.err user with
    | .error .userAlreadyExists => (d,.inr alreadyInitialized)
    | .error (.other message) => (d,.inr (internal "create user" message))
    | .ok d' => (d',.inl (.session user))
  | .session user =>
    match e.err with
    | some message => (d,.inr (internal "issue session" message))
    | none => (d,.inr (.created user.id user.email user.role))

abbrev State := Pool Store Pc Reply

abbrev Action := Act Call Env

def step : State → Action → Option State := Pool.step (fun c => .start c.body) advance

def init : State := ⟨⟨[]⟩,[],[]⟩

def Reply.success : Reply → Bool
  | .created .. => true
  | .error .. => false

/-- The reply of a request that was valid and met no failure. -/
def Reply.settled : Reply → Bool
  | .created .. => true
  | .error status _ _ => status = 409

/-- At most one request succeeds and at most one user is created, and exactly one as soon as a valid
request has been answered. -/
structure SingleSetup (s : State) : Prop where
  success : s.replies.countP Reply.success ≤ 1
  created : s.shared.users.length ≤ 1
  settled : ∀ r ∈ s.replies, r.settled = true → s.shared.users.length = 1

/-- A user is inserted only into the empty table, unless the insert fails. -/
def Pc.FirstInsert (d : Store) (e : Env) : Pc → Prop
  | .create user => d.users = [] ∨ e.err ≠ none ∨ d.taken user = true
  | _ => True

instance (d : Store) (e : Env) (p : Pc) : Decidable (p.FirstInsert d e) := by
  induction p using Pc.casesOn <;> unfold Pc.FirstInsert <;> infer_instance

def FirstInsert (s : State) : Action → Prop
  | .invoke _ => True
  | .advance i e => ∀ p ∈ s.threads[i]?, p.FirstInsert s.shared e

instance (s : State) (a : Action) : Decidable (FirstInsert s a) := by
  induction a using Act.casesOn <;> unfold FirstInsert <;> infer_instance

def Pc.inSession : Pc → Bool
  | .session _ => true
  | _ => false

inductive Moved (e : Env) (d : Store) : Pc → Store → Pc ⊕ Reply → Prop
  | refused (p : Pc) (v : Reply) : v.settled = false → v.success = false → Moved e d p d (.inr v)
  | late (p : Pc) (v : Reply) : d.users ≠ [] → v.success = false → Moved e d p d (.inr v)
  | passed (p p' : Pc) : p.inSession = false → p'.inSession = false → Moved e d p d (.inl p')
  | inserted (user : UserRow) : e.err = none → d.taken user = false →
      Moved e d (.create user) ⟨d.users ++ [stored user]⟩ (.inl (.session user))
  | succeeded (user : UserRow) (v : Reply) : Moved e d (.session user) d (.inr v)

theorem users_ne_nil_of_taken {d : Store} {row : UserRow} (h : d.taken row = true) : d.users ≠ [] := by
  intro hnil
  rw [Store.taken,hnil] at h
  cases h

theorem moved {e : Env} {d d' : Store} {p : Pc} {o : Pc ⊕ Reply} (hadv : advance e d p = (d',o)) : Moved e d p d' o := by
  cases p with
  | start body =>
    cases body with
    | error message =>
      cases hadv
      exact .refused _ _ rfl rfl
    | ok req =>
      simp only [advance] at hadv
      split_ifs at hadv
      · cases hadv
        exact .refused _ _ rfl rfl
      · split at hadv
        · cases hadv
          exact .refused _ _ rfl rfl
        · cases hadv
          exact .passed _ _ rfl rfl
  | count email password =>
    cases he : e.err with
    | some message =>
      simp only [advance,he] at hadv
      cases hadv
      exact .refused _ _ rfl rfl
    | none =>
      simp only [advance,he] at hadv
      split_ifs at hadv with hpos
      · cases hadv
        exact .late _ _ (List.ne_nil_of_length_pos hpos) rfl
      · cases hadv
        exact .passed _ _ rfl rfl
  | hash email password =>
    cases he : e.err with
    | some message =>
      simp only [advance,he] at hadv
      cases hadv
      exact .refused _ _ rfl rfl
    | none =>
      simp only [advance,he] at hadv
      cases hadv
      exact .passed _ _ rfl rfl
  | create user =>
    cases he : e.err with
    | some message =>
      simp only [advance,Store.create,he] at hadv
      cases hadv
      exact .refused _ _ rfl rfl
    | none =>
      cases htaken : d.taken user with
      | true =>
        simp only [advance,Store.create,he,htaken,if_true] at hadv
        cases hadv
        exact .late _ _ (users_ne_nil_of_taken htaken) rfl
      | false =>
        simp only [advance,Store.create,he,htaken,if_neg (Bool.false_ne_true)] at hadv
        cases hadv
        exact .inserted user he htaken
  | session user =>
    cases he : e.err with
    | some message =>
      simp only [advance,he] at hadv
      cases hadv
      exact .succeeded user _
    | none =>
      simp only [advance,he] at hadv
      cases hadv
      exact .succeeded user _

/-- The users pay for the requests that have succeeded or are about to, and whoever was told that the setup
is done was told so with a user in the table. -/
structure Accounted (s : State) : Prop where
  paid : s.replies.countP Reply.success+s.threads.countP Pc.inSession ≤ s.shared.users.length
  settled : ∀ r ∈ s.replies, r.settled = true → s.shared.users ≠ []

section Step

variable {s t : State} {a : Action}

theorem Moved.grows {e : Env} {d d' : Store} {p : Pc} {o : Pc ⊕ Reply} (hm : Moved e d p d' o) :
    d.users.length ≤ d'.users.length := by
  cases hm with
  | inserted user he htaken => simp
  | _ => exact le_rfl

theorem countP_split (l r : List Pc) (p : Pc) :
    (l ++ p :: r).countP Pc.inSession = (l ++ r).countP Pc.inSession+if p.inSession then 1 else 0 := by
  rw [List.countP_append,List.countP_cons,List.countP_append]
  omega

theorem ne_nil_of_length_le {d d' : Store} (h : d.users ≠ []) (hle : d.users.length ≤ d'.users.length) : d'.users ≠ [] := by
  have := List.length_pos_iff.mpr h
  exact List.ne_nil_of_length_pos (by omega)

theorem accounted_step (hs : Accounted s) (hst : step s a = some t) : Accounted t := by
  rcases Pool.step_cases hst with ⟨c,rfl,rfl⟩ | ⟨i,e,l,r,p,d',p',rfl,hl,-,hadv,rfl⟩ | ⟨i,e,l,r,p,d',v,rfl,hl,-,hadv,rfl⟩
  · refine ⟨?_,hs.settled⟩
    have hpaid := hs.paid
    simpa [Pc.inSession] using hpaid
  · have hm := moved hadv
    have hpaid := hs.paid
    rw [hl,countP_split] at hpaid
    refine ⟨?_,fun v hv hset => ne_nil_of_length_le (hs.settled v hv hset) hm.grows⟩
    simp only [countP_split]
    cases hm with
    | passed p p' hp hp' =>
      rw [hp] at hpaid
      rw [hp']
      exact hpaid
    | inserted user he htaken =>
      simp only [Pc.inSession,List.length_append,List.length_singleton,if_true] at hpaid ⊢
      omega
  · have hm := moved hadv
    have hpaid := hs.paid
    rw [hl,countP_split] at hpaid
    refine ⟨?_,fun v' hv' hset => ?_⟩
    · simp only [List.countP_cons]
      cases hm with
      | refused p v hset hv =>
        rw [hv,if_neg (Bool.false_ne_true)]
        omega
      | late p v hne hv =>
        rw [hv,if_neg (Bool.false_ne_true)]
        omega
      | succeeded user v =>
        simp only [Pc.inSession,if_true] at hpaid
        split_ifs <;> omega
    · rcases List.mem_cons.mp hv' with rfl | hv'
      · cases hm with
        | refused p v hset' hv =>
          rw [hset'] at hset
          cases hset
        | late p v hne hv => exact hne
        | succeeded user v =>
          have hsession : (if (Pc.session user).inSession = true then 1 else 0) = 1 := rfl
          rw [hsession] at hpaid
          have hpos : 0 < s.shared.users.length := by omega
          exact List.ne_nil_of_length_pos hpos
      · exact ne_nil_of_length_le (hs.settled v' hv' hset) hm.grows

/-- The setup is single as long as there is at most one user. -/
theorem single_iff (hs : Accounted s) : SingleSetup s ↔ s.shared.users.length ≤ 1 := by
  constructor
  · exact fun h => h.created
  · intro h
    have hpaid := hs.paid
    refine ⟨by omega,h,fun r hr hset => ?_⟩
    have := List.length_pos_iff.mpr (hs.settled r hr hset)
    omega

theorem users_advance {e : Env} {d d' : Store} {p : Pc} {o : Pc ⊕ Reply} (hd : d.users.length ≤ 1)
    (hadv : advance e d p = (d',o)) : d'.users.length ≤ 1 ↔ p.FirstInsert d e := by
  have hm := moved hadv
  cases p with
  | create user =>
    cases hm with
    | refused p v hset hv =>
      refine iff_of_true hd ?_
      cases he : e.err with
      | some message => exact .inr (.inl (by simp [he]))
      | none =>
        cases htaken : d.taken user with
        | true => exact .inr (.inr htaken)
        | false => simp [advance,Store.create,he,htaken] at hadv
    | late p v hne hv =>
      refine iff_of_true hd ?_
      cases he : e.err with
      | some message => exact .inr (.inl (by simp [he]))
      | none =>
        cases htaken : d.taken user with
        | true => exact .inr (.inr htaken)
        | false => simp [advance,Store.create,he,htaken] at hadv
    | passed p p' hp hp' =>
      simp only [advance] at hadv
      split at hadv
      · cases hadv
      · cases hadv
      · cases hadv
        cases hp'
    | inserted user he htaken => simp [Pc.FirstInsert,he,htaken]
  | _ =>
    refine iff_of_true ?_ trivial
    cases hm <;> exact hd

theorem users_step (hs : s.shared.users.length ≤ 1) (hst : step s a = some t) :
    t.shared.users.length ≤ 1 ↔ FirstInsert s a := by
  rcases Pool.step_cases hst with ⟨c,rfl,rfl⟩ | ⟨i,e,l,r,p,d',p',rfl,-,hp,hadv,rfl⟩ | ⟨i,e,l,r,p,d',v,rfl,-,hp,hadv,rfl⟩
  · exact iff_of_true hs trivial
  · simp only [FirstInsert,hp,Option.mem_some_iff,forall_eq']
    exact users_advance hs hadv
  · simp only [FirstInsert,hp,Option.mem_some_iff,forall_eq']
    exact users_advance hs hadv

end Step

/-- The setup is single, in every state of a run, exactly when every insert that succeeds is into the empty
table. -/
theorem single_setup_iff {as : List Action} {t : State} (he : exec step init as = some t) :
    (∀ pre post u, as = pre ++ post → exec step init pre = some u → SingleSetup u) ↔ Along step FirstInsert init as := by
  have haccounted : ∀ pre u, exec step init pre = some u → Accounted u := by
    intro pre u hu
    refine (Run.of_exec_true hu).invariant Accounted (fun _ _ _ hs _ hst => accounted_step hs hst) ⟨le_rfl,?_⟩
    intro v hv
    cases hv
  rw [← forall_reached_iff (fun s => s.shared.users.length ≤ 1) (fun s a t hs hst => users_step hs hst) he (Nat.zero_le 1)]
  exact forall₃_congr fun pre post u => forall₂_congr fun _ hu => single_iff (haccounted pre u hu)

def Pc.About (address : String) : Pc → Prop
  | .start body => ∀ req, body = .ok req → normalize req.email = address
  | .count email _ | .hash email _ => email = address
  | .create user | .session user => user.email = address

def About (address : String) : Action → Prop
  | .invoke c => (Pc.start c.body).About address
  | .advance _ _ => True

structure Shared (address : String) (s : State) : Prop where
  threads : ∀ p ∈ s.threads, p.About address
  users : ∀ u ∈ s.shared.users, u.email = toLower address

theorem about_advance {address : String} {e : Env} {d d' : Store} {p p' : Pc} (hp : p.About address)
    (hadv : advance e d p = (d',.inl p')) : p'.About address := by
  cases p with
  | start body =>
    cases body with
    | error message => cases hadv
    | ok req =>
      simp only [advance] at hadv
      split_ifs at hadv
      · cases hadv
      · split at hadv <;> cases hadv
        exact hp req rfl
  | count email password =>
    simp only [advance] at hadv
    split at hadv
    · cases hadv
    · split_ifs at hadv <;> cases hadv
      exact hp
  | hash email password =>
    simp only [advance] at hadv
    split at hadv <;> cases hadv
    exact hp
  | create user =>
    simp only [advance] at hadv
    split at hadv <;> cases hadv
    exact hp
  | session user =>
    simp only [advance] at hadv
    split at hadv <;> cases hadv

theorem users_about {address : String} {e : Env} {d d' : Store} {p : Pc} {o : Pc ⊕ Reply} (hp : p.About address)
    (hd : ∀ u ∈ d.users, u.email = toLower address) (hadv : advance e d p = (d',o)) :
    ∀ u ∈ d'.users, u.email = toLower address := by
  cases moved hadv with
  | inserted user he htaken =>
    intro u hu
    rcases List.mem_append.mp hu with hu | hu
    · exact hd u hu
    · obtain rfl := List.mem_singleton.mp hu
      exact congrArg toLower hp
  | _ => exact hd

theorem shared_step {address : String} {s t : State} {a : Action} (hs : Shared address s) (ha : About address a)
    (hst : step s a = some t) : Shared address t := by
  rcases Pool.step_cases hst with ⟨c,rfl,rfl⟩ | ⟨i,e,l,r,p,d',p',rfl,hl,-,hadv,rfl⟩ | ⟨i,e,l,r,p,d',v,rfl,hl,-,hadv,rfl⟩
  · refine ⟨fun q hq => ?_,hs.users⟩
    rcases List.mem_append.mp hq with hq | hq
    · exact hs.threads q hq
    · obtain rfl := List.mem_singleton.mp hq
      exact ha
  · have hp := hs.threads p (by simp [hl])
    refine ⟨fun q hq => ?_,users_about hp hs.users hadv⟩
    rcases List.mem_append.mp hq with hq | hq
    · exact hs.threads q (by simp [hl,hq])
    · rcases List.mem_cons.mp hq with rfl | hq
      · exact about_advance hp hadv
      · exact hs.threads q (by simp [hl,hq])
  · have hp := hs.threads p (by simp [hl])
    refine ⟨fun q hq => hs.threads q ?_,users_about hp hs.users hadv⟩
    rw [hl]
    rcases List.mem_append.mp hq with hq | hq <;> simp [hq]

theorem Shared.firstInsert {address : String} {s : State} (hs : Shared address s) (a : Action) : FirstInsert s a := by
  cases a with
  | invoke c => trivial
  | advance i e =>
    intro p hp
    have habout := hs.threads p (List.mem_of_getElem? hp)
    cases p with
    | create user =>
      by_cases hnil : s.shared.users = []
      · exact .inl hnil
      · obtain ⟨u,hu⟩ := List.exists_mem_of_ne_nil _ hnil
        refine .inr (.inr (List.any_eq_true.mpr ⟨u,hu,?_⟩))
        have hemail : user.email = address := habout
        simp [hs.users u hu,hemail]
    | _ => trivial

theorem Shared.along {address : String} {as : List Action} {s t : State} (hs : Shared address s)
    (he : exec step s as = some t) (ha : ∀ a ∈ as, About address a) : Along step FirstInsert s as := by
  induction as generalizing s with
  | nil => trivial
  | cons a as ih =>
    cases hst : step s a with
    | none => simp [exec,hst] at he
    | some u =>
      simp only [Along,hst]
      exact ⟨hs.firstInsert a,ih (shared_step hs (ha a (by simp)) hst) (by simpa [exec,hst] using he)
        fun b hb => ha b (by simp [hb])⟩

/-- Requests that agree on the address, once normalised, leave the setup single. -/
theorem same_address_single {address : String} {as : List Action} {t : State} (he : exec step init as = some t)
    (ha : ∀ a ∈ as, About address a) : SingleSetup t := by
  have hstart : Shared address init := ⟨by simp [init],by simp [init]⟩
  exact (single_setup_iff he).mpr (hstart.along he ha) as [] t (by simp) he

def setupCall (email : String) : Call := ⟨.ok ⟨email,"open sesame"⟩⟩

def answering (id : String) : Env := ⟨none,"$argon2id$",id⟩

/-- Two requests count the users before either inserts one. -/
def twoSetups (first second : String) : List Action :=
  [.invoke (setupCall first),.invoke (setupCall second),
    .advance 0 (answering "user_1"),.advance 0 (answering "user_1"),
    .advance 1 (answering "user_2"),.advance 1 (answering "user_2"),
    .advance 0 (answering "user_1"),.advance 0 (answering "user_1"),.advance 0 (answering "user_1"),
    .advance 0 (answering "user_2"),.advance 0 (answering "user_2"),.advance 0 (answering "user_2")]

/-- With different addresses both requests succeed and two administrators are created. -/
theorem two_setups_both_succeed : ∃ s ∈ exec step init (twoSetups "a@x.io" "e@x.io"), ¬ SingleSetup s ∧
    s.shared.users.map (fun u => (u.email,u.role)) = [("a@x.io","admin"),("e@x.io","admin")] ∧
    s.replies = [.created "user_2" "e@x.io" "admin",.created "user_1" "a@x.io" "admin"] := by
  have hend : ∃ s ∈ exec step init (twoSetups "a@x.io" "e@x.io"),
      s.shared.users.map (fun u => (u.email,u.role)) = [("a@x.io","admin"),("e@x.io","admin")] ∧
      s.replies = [.created "user_2" "e@x.io" "admin",.created "user_1" "a@x.io" "admin"] := by
    decide +kernel
  obtain ⟨s,hs,husers,hreplies⟩ := hend
  refine ⟨s,hs,fun h => ?_,husers,hreplies⟩
  have hone := h.success
  rw [hreplies] at hone
  revert hone
  decide

def sameSetups : List Action :=
  (twoSetups "a@x.io" " A@x.io").take 11

theorem single_setup_iff_sameSetups : ∃ s ∈ exec step init sameSetups, SingleSetup s ∧ s.threads.length = 0 ∧
    s.replies = [alreadyInitialized,.created "user_1" "a@x.io" "admin"] := by
  have hend : ∃ s ∈ exec step init sameSetups, s.threads.length = 0 ∧
      s.replies = [alreadyInitialized,.created "user_1" "a@x.io" "admin"] := by decide +kernel
  obtain ⟨s,hs,hthreads,hreplies⟩ := hend
  have he := Option.mem_def.mp hs
  exact ⟨s,hs,(single_setup_iff he).mpr (by decide +kernel) sameSetups [] s (by simp) he,hthreads,hreplies⟩

end FirstSetup
end Clearvoiance
