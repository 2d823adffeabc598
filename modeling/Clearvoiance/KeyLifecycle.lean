import Clearvoiance.Middleware
import Clearvoiance.Transition

/-! The life of an API key.  Keys are created and revoked, over REST and on the command line, while requests are
checked.  A check counts the keys and looks its own up in two calls of the store; every call is one step and may
fail, with its effect or without.  While the table is empty every key passes.  A table that has held a key is never
empty again, so a key that was revoked stays refused unless the keys cannot be counted. -/
namespace Clearvoiance
namespace KeyLifecycle

open Middleware Transition

abbrev Rows := List APIKeyRow

/-- What the environment chooses for one step: the error of the store and whether the call took effect all the same,
the error and the bytes of the random source, a new row id, and the text of a unique violation. -/
structure Env where
  err : Option String := none
  lands : Bool := false
  randErr : Option String := none
  buf : Hex.Bytes := []
  id : String := ""
  duplicate : String := ""
  deriving DecidableEq

def base32Digit (n : ℕ) : Char := if n < 26 then Char.ofNat (65+n) else Char.ofNat (24+n)

/-- The digits of up to five bytes, of which the last is filled up with zeros. -/
def base32Group (bs : Hex.Bytes) : List Char :=
  let n := bs.foldl (fun n b => 256*n+b.toNat) 0*256^(5-bs.length)
  (List.range ((8*bs.length+4)/5)).map fun i => base32Digit (n/32^(7-i) % 32)

/-- `base32.StdEncoding` without padding. -/
def base32 : Hex.Bytes → List Char
  | a :: b :: c :: d :: e :: rest => base32Group [a,b,c,d,e] ++ base32 rest
  | bs => base32Group bs

example : base32 (Hex.utf8 "foobar") = "MZXW6YTBOI".toList := by decide +kernel

inductive Origin
  | rest | cli
  deriving DecidableEq

/-- The handler draws 16 bytes and writes them in lower case, the command draws 32 and writes them in upper case. -/
def generateAPIKey (o : Origin) (buf : Hex.Bytes) : String :=
  "clv_live_" ++ String.ofList (match o with
    | .rest => (base32 (buf.take 16)).map Char.toLower
    | .cli => base32 (buf.take 32))

/-- Why a check lets a key pass: the keys could not be counted, there were none, or it is one of them. -/
inductive Why
  | uncounted | unprovisioned
  | known (id : String)
  deriving DecidableEq

inductive Denial
  | required | invalid
  | other (text : String)
  deriving DecidableEq

inductive Reply
  | error (err : RestError)
  | failed (message : String)
  | created (id key : String)
  | revoked (id : String)
  | passed (key : String) (why : Why)
  | denied (key : String) (err : Denial)
  deriving DecidableEq

/-- `check` is the check of the gRPC services and of the WebSocket handler, `bearer` that of the REST routes. -/
inductive Pc
  | create (body : Except String String)
  | cliCreate (name : String)
  | insert (o : Origin) (id key : String)
  | revoke (o : Origin) (id : String)
  | check (key : String)
  | count (key : String)
  | bearer (authorization : String)
  | validate (key : String)

/-- How a failed call of the store is reported. -/
def Origin.store : Origin → String → String → String → Reply
  | .rest, what, _, text => .error ⟨500,"INTERNAL",what ++ ": " ++ text⟩
  | .cli, _, pre, text => .failed (pre ++ text)

def Origin.notFound (id : String) : Origin → Reply
  | .rest => .error ⟨404,"API_KEY_NOT_FOUND","API key " ++ id ++ " not found or already revoked"⟩
  | .cli => .failed "api key not found"

/-- The columns `id` and `key_hash` are unique. -/
def taken (rows : Rows) (id keyHash : String) : Bool := rows.any fun r => r.id = id || r.keyHash = keyHash

def active (rows : Rows) (id : String) : Bool := rows.any fun r => r.id = id && !r.revoked

/-- A call of the store that writes: whether it takes effect, and its error. -/
def write (e : Env) (rows : Rows) (op : KeyOp) (refusal : Option Reply) (done : Reply) (failed : String → Reply) :
    Rows × (Pc ⊕ Reply) :=
  match e.err with
  | some text => (if e.lands then op.apply rows else rows,.inr (failed text))
  | none => match refusal with
    | some r => (rows,.inr r)
    | none => (op.apply rows,.inr done)

def advance (e : Env) (rows : Rows) : Pc → Rows × (Pc ⊕ Reply)
  | .create body =>
    match body with
    | .error text => (rows,.inr (.error ⟨400,"BAD_REQUEST","could not decode request body: " ++ text⟩))
    | .ok name =>
      if ControlPlane.trimSpace name = "" then (rows,.inr (.error ⟨400,"BAD_REQUEST","name is required"⟩))
      else match e.randErr with
        | some text => (rows,.inr (.error ⟨500,"INTERNAL","generate key: " ++ text⟩))
        | none => (rows,.inl (.insert .rest e.id (generateAPIKey .rest e.buf)))
  | .cliCreate name =>
    if name = "" then (rows,.inr (.failed "--name is required"))
    else match e.randErr with
      | some text => (rows,.inr (.failed text))
      | none => (rows,.inl (.insert .cli e.id (generateAPIKey .cli e.buf)))
  | .insert o id key =>
    let failed := o.store "create key" "create api key: "
    write e rows (.create id (hashAPIKey key))
      (if taken rows id (hashAPIKey key) then some (failed e.duplicate) else none)
      (.created id key) failed
  | .revoke o id =>
    write e rows (.revoke id) (if active rows id then none else some (o.notFound id)) (.revoked id)
      (o.store "revoke key" "")
  | .check key => if key = "" then (rows,.inr (.denied key .required)) else (rows,.inl (.count key))
  | .count key =>
    match e.err with
    | some _ => (rows,.inr (.passed key .uncounted))
    | none => if rows.length = 0 then (rows,.inr (.passed key .unprovisioned)) else (rows,.inl (.validate key))
  | .bearer authorization =>
    let key := extractBearer authorization
    if key = "" then (rows,.inr (.denied key .required)) else (rows,.inl (.validate key))
  | .validate key =>
    match e.err with
    | some text => (rows,.inr (.denied key (.other text)))
    | none => match rows.find? fun r => r.keyHash = hashAPIKey key && !r.revoked with
      | none => (rows,.inr (.denied key .invalid))
      | some row => (rows,.inr (.passed key (.known row.id)))

inductive Call
  | create (body : Except String String)
  | cliCreate (name : String)
  | revoke (o : Origin) (id : String)
  | check (key : String)
  | bearer (authorization : String)

def entry : Call → Pc
  | .create body => .create body
  | .cliCreate name => .cliCreate name
  | .revoke o id => .revoke o id
  | .check key => .check key
  | .bearer authorization => .bearer authorization

abbrev State := Pool Rows Pc Reply

abbrev Action := Act Call Env

def step : State → Action → Option State := Pool.step entry advance

def init : State := ⟨[],[],[]⟩

/-- Every row is still there, and what was revoked still is. -/
def Later (rows rows' : Rows) : Prop :=
  ∀ r ∈ rows, ∃ r' ∈ rows', r'.id = r.id ∧ r'.keyHash = r.keyHash ∧ (r.revoked = true → r'.revoked = true)

def Distinct (rows : Rows) : Prop := (rows.map (·.id)).Nodup ∧ (rows.map (·.keyHash)).Nodup

section Table

variable {rows rows' : Rows} {id keyHash : String}

theorem Later.refl (rows : Rows) : Later rows rows := fun r hr => ⟨r,hr,rfl,rfl,fun h => h⟩

theorem apply_create (h : taken rows id keyHash = false) :
    (KeyOp.create id keyHash).apply rows = rows ++ [⟨id,keyHash,false⟩] := by
  simp only [KeyOp.apply]
  exact if_neg (Bool.not_eq_true _ ▸ h)

theorem later_apply (rows : Rows) (op : KeyOp) : Later rows (op.apply rows) := by
  cases op with
  | create id keyHash =>
    simp only [KeyOp.apply]
    split_ifs
    · exact .refl rows
    · exact fun r hr => ⟨r,List.mem_append_left _ hr,rfl,rfl,fun h => h⟩
  | revoke id =>
    intro r hr
    refine ⟨_,List.mem_map_of_mem hr,?_⟩
    split_ifs
    · exact ⟨rfl,rfl,fun _ => rfl⟩
    · exact ⟨rfl,rfl,fun h => h⟩

theorem Distinct.apply (h : Distinct rows) (op : KeyOp) : Distinct (op.apply rows) := by
  cases op with
  | create id keyHash =>
    simp only [KeyOp.apply]
    split_ifs with hany
    · exact h
    · simp only [List.any_eq_true,Bool.or_eq_true,decide_eq_true_eq,not_exists,not_and,not_or] at hany
      simp only [Distinct,List.map_append,List.map_cons,List.map_nil]
      constructor
      · refine List.nodup_append_comm.mp (List.nodup_cons.mpr ⟨fun hmem => ?_,h.1⟩)
        obtain ⟨r,hr,hid⟩ := List.mem_map.mp hmem
        exact (hany r hr).1 hid
      · refine List.nodup_append_comm.mp (List.nodup_cons.mpr ⟨fun hmem => ?_,h.2⟩)
        obtain ⟨r,hr,hhash⟩ := List.mem_map.mp hmem
        exact (hany r hr).2 hhash
  | revoke id =>
    have hid : ∀ r : APIKeyRow, (if r.id = id then { r with revoked := true } else r).id = r.id := by
      intro r
      split_ifs <;> rfl
    have hhash : ∀ r : APIKeyRow, (if r.id = id then { r with revoked := true } else r).keyHash = r.keyHash := by
      intro r
      split_ifs <;> rfl
    simp only [Distinct,KeyOp.apply,List.map_map,Function.comp_def,hid,hhash]
    exact h

theorem Distinct.eq_of_id (h : Distinct rows) {r r' : APIKeyRow} (hr : r ∈ rows) (hr' : r' ∈ rows)
    (hid : r.id = r'.id) : r = r' := List.inj_on_of_nodup_map h.1 hr hr' hid

theorem Distinct.eq_of_keyHash (h : Distinct rows) {r r' : APIKeyRow} (hr : r ∈ rows) (hr' : r' ∈ rows)
    (hhash : r.keyHash = r'.keyHash) : r = r' := List.inj_on_of_nodup_map h.2 hr hr' hhash

end Table

section Steps

variable {e : Env} {rows rows' : Rows} {p : Pc}

inductive Writes : Pc → KeyOp → Prop
  | insert (o : Origin) (id key : String) : Writes (.insert o id key) (.create id (hashAPIKey key))
  | revoke (o : Origin) (id : String) : Writes (.revoke o id) (.revoke id)

def Reply.quiet : Reply → Bool
  | .error _ | .failed _ => true
  | _ => false

inductive Moved (e : Env) (rows : Rows) : Pc → Rows × (Pc ⊕ Reply) → Prop
  | drawn (p : Pc) (o : Origin) (id : String) (buf : Hex.Bytes) :
      Moved e rows p (rows,.inl (.insert o id (generateAPIKey o buf)))
  | keyed (p p' : Pc) : (∃ key, p' = .count key ∨ p' = .validate key) → Moved e rows p (rows,.inl p')
  | refused (p : Pc) (r : Reply) : r.quiet = true → Moved e rows p (rows,.inr r)
  | failed (p : Pc) (op : KeyOp) (r : Reply) : Writes p op → r.quiet = true → Moved e rows p (op.apply rows,.inr r)
  | created (o : Origin) (id key : String) : taken rows id (hashAPIKey key) = false →
      Moved e rows (.insert o id key) ((KeyOp.create id (hashAPIKey key)).apply rows,.inr (.created id key))
  | revoked (o : Origin) (id : String) : active rows id = true →
      Moved e rows (.revoke o id) ((KeyOp.revoke id).apply rows,.inr (.revoked id))
  | uncounted (key : String) : Moved e rows (.count key) (rows,.inr (.passed key .uncounted))
  | unprovisioned (key : String) : rows = [] → Moved e rows (.count key) (rows,.inr (.passed key .unprovisioned))
  | known (key : String) (r : APIKeyRow) : r ∈ rows → r.keyHash = hashAPIKey key → r.revoked = false →
      Moved e rows (.validate key) (rows,.inr (.passed key (.known r.id)))
  | keyless (p : Pc) : Moved e rows p (rows,.inr (.denied "" .required))
  | broken (key text : String) : Moved e rows (.validate key) (rows,.inr (.denied key (.other text)))
  | unknown (key : String) : (∀ r ∈ rows, r.keyHash = hashAPIKey key → r.revoked = true) →
      Moved e rows (.validate key) (rows,.inr (.denied key .invalid))

theorem moved_write {op : KeyOp} {refusal : Option Reply} {done : Reply} {failed : String → Reply}
    (hp : Writes p op) (hfailed : ∀ text, (failed text).quiet = true) (hrefusal : ∀ r ∈ refusal, r.quiet = true)
    (hdone : refusal = none → Moved e rows p (op.apply rows,.inr done)) :
    Moved e rows p (write e rows op refusal done failed) := by
  unfold write
  split
  · split_ifs
    · exact .failed p op _ hp (hfailed _)
    · exact .refused p _ (hfailed _)
  · cases refusal with
    | none => exact hdone rfl
    | some r => exact .refused p r (hrefusal r rfl)

theorem moved (e : Env) (rows : Rows) (p : Pc) : Moved e rows p (advance e rows p) := by
  cases p with
  | create body =>
    simp only [advance]
    split
    · exact .refused _ _ rfl
    · split_ifs
      · exact .refused _ _ rfl
      · split
        · exact .refused _ _ rfl
        · exact .drawn _ _ _ _
  | cliCreate name =>
    simp only [advance]
    split_ifs
    · exact .refused _ _ rfl
    · split
      · exact .refused _ _ rfl
      · exact .drawn _ _ _ _
  | insert o id key =>
    simp only [advance]
    refine moved_write (.insert o id key) (fun text => by cases o <;> rfl) ?_ ?_
    · intro r hr
      split_ifs at hr <;> cases hr
      cases o <;> rfl
    · intro hnone
      split_ifs at hnone with htaken
      exact .created o id key (Bool.not_eq_true _ ▸ htaken)
  | revoke o id =>
    simp only [advance]
    refine moved_write (.revoke o id) (fun text => by cases o <;> rfl) ?_ ?_
    · intro r hr
      split_ifs at hr <;> cases hr
      cases o <;> rfl
    · intro hnone
      split_ifs at hnone with hactive
      exact .revoked o id hactive
  | check key =>
    simp only [advance]
    split_ifs with hkey
    · exact hkey ▸ .keyless _
    · exact .keyed _ _ ⟨key,.inl rfl⟩
  | count key =>
    simp only [advance]
    split
    · exact .uncounted key
    · split_ifs with hlen
      · exact .unprovisioned key (List.length_eq_zero_iff.mp hlen)
      · exact .keyed _ _ ⟨key,.inr rfl⟩
  | bearer authorization =>
    simp only [advance]
    split_ifs with hkey
    · exact hkey ▸ .keyless _
    · exact .keyed _ _ ⟨_,.inr rfl⟩
  | validate key =>
    simp only [advance]
    split
    · exact .broken key _
    · split
      · rename_i hnone
        refine .unknown key fun r hr hhash => ?_
        have hfound := List.find?_eq_none.mp hnone r hr
        simpa [hhash] using hfound
      · rename_i r hr
        have hfound := List.find?_some hr
        simp only [Bool.and_eq_true,decide_eq_true_eq,Bool.not_eq_true'] at hfound
        exact .known key r (List.mem_of_find?_eq_some hr) hfound.1 hfound.2

theorem Moved.later {o : Pc ⊕ Reply} (h : Moved e rows p (rows',o)) : Later rows rows' := by
  cases h
  case failed op _ _ _ => exact later_apply rows op
  case created => exact later_apply rows _
  case revoked => exact later_apply rows _
  all_goals exact .refl rows

theorem Moved.distinct {o : Pc ⊕ Reply} (h : Moved e rows p (rows',o)) (hd : Distinct rows) : Distinct rows' := by
  cases h
  case failed op _ _ _ => exact hd.apply op
  case created => exact hd.apply _
  case revoked => exact hd.apply _
  all_goals exact hd

theorem unrevoked_apply {id : String} {op : KeyOp} (hop : op ≠ .revoke id)
    (h : ∀ r ∈ rows, r.id = id → r.revoked = false) : ∀ r ∈ op.apply rows, r.id = id → r.revoked = false := by
  intro r hr hid
  cases op with
  | create id' keyHash =>
    simp only [KeyOp.apply] at hr
    split_ifs at hr
    · exact h r hr hid
    · rcases List.mem_append.mp hr with hr | hr
      · exact h r hr hid
      · rw [List.mem_singleton.mp hr]
  | revoke id' =>
    obtain ⟨r',hr',rfl⟩ := List.mem_map.mp hr
    split_ifs at hid ⊢ with hid'
    · exact absurd (congrArg KeyOp.revoke (hid'.symm.trans hid)) hop
    · exact h r' hr' hid

theorem Moved.unrevoked {o : Pc ⊕ Reply} {id : String} (h : Moved e rows p (rows',o)) (hp : ∀ o, p ≠ .revoke o id)
    (hrows : ∀ r ∈ rows, r.id = id → r.revoked = false) : ∀ r ∈ rows', r.id = id → r.revoked = false := by
  cases h
  case failed op _ _ hw =>
    refine unrevoked_apply (fun hop => ?_) hrows
    cases hw
    · cases hop
    · cases hop
      exact hp _ rfl
  case created => exact unrevoked_apply (by simp) hrows
  case revoked o id' _ => exact unrevoked_apply (fun hop => hp o (by cases hop; rfl)) hrows
  all_goals exact hrows

theorem generateAPIKey_ne (o : Origin) (buf : Hex.Bytes) : generateAPIKey o buf ≠ "" := by
  intro h
  have hl := congrArg String.toList h
  simp [generateAPIKey] at hl

end Steps

section Runs

variable {s t : State} {as bs : List Action} {id key : String}

/-- What the replies say about the table: a key that was handed out has a row, and so has an id whose revocation was
answered. -/
structure Recorded (s : State) : Prop where
  distinct : Distinct s.shared
  created : ∀ id key, .created id key ∈ s.replies → key ≠ "" ∧ ∃ r ∈ s.shared, r.id = id ∧ r.keyHash = hashAPIKey key
  revoked : ∀ id, .revoked id ∈ s.replies → ∃ r ∈ s.shared, r.id = id ∧ r.revoked = true
  drawn : ∀ o id key, .insert o id key ∈ s.threads → key ≠ ""

theorem recorded_init : Recorded init where
  distinct := ⟨List.nodup_nil,List.nodup_nil⟩
  created := by simp [init]
  revoked := by simp [init]
  drawn := by simp [init]

/-- A table that is later keeps what is on record; the new replies are on record where they have their row. -/
theorem Recorded.carry (h : Recorded s) {rows : Rows} {threads : List Pc} (new : List Reply)
    (hlater : Later s.shared rows) (hd : Distinct rows)
    (hcreated : ∀ id key, .created id key ∈ new → key ≠ "" ∧ ∃ r ∈ rows, r.id = id ∧ r.keyHash = hashAPIKey key)
    (hrevoked : ∀ id, .revoked id ∈ new → ∃ r ∈ rows, r.id = id ∧ r.revoked = true)
    (hdrawn : ∀ o id key, .insert o id key ∈ threads → key ≠ "") : Recorded ⟨rows,threads,new ++ s.replies⟩ where
  distinct := hd
  created id key hmem := by
    rcases List.mem_append.mp hmem with hmem | hmem
    · exact hcreated id key hmem
    · obtain ⟨hkey,r,hr,hid,hhash⟩ := h.created id key hmem
      obtain ⟨r',hr',hid',hhash',-⟩ := hlater r hr
      exact ⟨hkey,r',hr',hid'.trans hid,hhash'.trans hhash⟩
  revoked id hmem := by
    rcases List.mem_append.mp hmem with hmem | hmem
    · exact hrevoked id hmem
    · obtain ⟨r,hr,hid,hrev⟩ := h.revoked id hmem
      obtain ⟨r',hr',hid',-,hrev'⟩ := hlater r hr
      exact ⟨r',hr',hid'.trans hid,hrev' hrev⟩
  drawn := hdrawn

theorem Recorded.step {a : Action} (h : Recorded s) (hstep : step s a = some t) : Recorded t := by
  rcases Pool.step_cases hstep with ⟨c,rfl,rfl⟩ | ⟨i,e,l,r,p,rows,p',rfl,hl,-,hadv,rfl⟩ |
    ⟨i,e,l,r,p,rows,v,rfl,hl,-,hadv,rfl⟩
  · refine h.carry [] (.refl _) h.distinct (by simp) (by simp) fun o id key hmem => ?_
    rcases List.mem_append.mp hmem with hmem | hmem
    · exact h.drawn o id key hmem
    · cases c <;> cases List.mem_singleton.mp hmem
  all_goals
    have hmoved := moved e s.shared p
    have hothers : ∀ q ∈ l ++ r, q ∈ s.threads :=
      fun q hq => hl ▸ ((List.sublist_cons_self p r).append_left l).subset hq
    rw [hadv] at hmoved
  · refine h.carry [] hmoved.later (hmoved.distinct h.distinct) (by simp) (by simp) fun o id key hmem => ?_
    rcases List.mem_cons.mp (List.perm_middle.subset hmem) with rfl | hmem
    · cases hmoved
      case drawn => exact generateAPIKey_ne _ _
      case keyed hp => simp at hp
    · exact h.drawn o id key (hothers _ hmem)
  · refine h.carry [v] hmoved.later (hmoved.distinct h.distinct) (fun id key hmem => ?_)
      (fun id hmem => ?_) fun o id key hmem => h.drawn o id key (hothers _ hmem)
    · obtain rfl := (List.mem_singleton.mp hmem).symm
      cases hmoved
      case refused hq => cases hq
      case failed hq => cases hq
      case created o hfresh =>
        refine ⟨h.drawn o id key (hl ▸ by simp),⟨id,hashAPIKey key,false⟩,?_,rfl,rfl⟩
        rw [apply_create hfresh]
        simp
    · obtain rfl := (List.mem_singleton.mp hmem).symm
      cases hmoved
      case refused hq => cases hq
      case failed hq => cases hq
      case revoked o hactive =>
        obtain ⟨r,hr,hid⟩ := List.any_eq_true.mp hactive
        simp only [Bool.and_eq_true,decide_eq_true_eq] at hid
        refine ⟨{ r with revoked := true },List.mem_map.mpr ⟨r,hr,if_pos hid.1⟩,hid.1,rfl⟩

theorem recorded (h : Run step (fun _ _ => True) init as s) : Recorded s :=
  h.invariant Recorded (fun _ _ _ hs _ hstep => hs.step hstep) recorded_init

structure Kept (id : String) (s : State) : Prop where
  unrevoked : ∀ r ∈ s.shared, r.id = id → r.revoked = false
  unasked : ∀ o, .revoke o id ∉ s.threads

theorem Kept.step {a : Action} (h : Kept id s) (hno : ∀ o, a ≠ .invoke (.revoke o id)) (hstep : step s a = some t) :
    Kept id t := by
  rcases Pool.step_cases hstep with ⟨c,rfl,rfl⟩ | ⟨i,e,l,r,p,rows,p',rfl,hl,-,hadv,rfl⟩ |
    ⟨i,e,l,r,p,rows,v,rfl,hl,-,hadv,rfl⟩
  · refine ⟨h.unrevoked,fun o hmem => ?_⟩
    rcases List.mem_append.mp hmem with hmem | hmem
    · exact h.unasked o hmem
    · cases c <;> cases List.mem_singleton.mp hmem
      exact hno o rfl
  all_goals
    have hmoved := moved e s.shared p
    have hp : ∀ o, p ≠ .revoke o id := fun o ho => h.unasked o (hl ▸ ho ▸ by simp)
    have hothers : ∀ q ∈ l ++ r, q ∈ s.threads :=
      fun q hq => hl ▸ ((List.sublist_cons_self p r).append_left l).subset hq
    rw [hadv] at hmoved
  · refine ⟨hmoved.unrevoked hp h.unrevoked,fun o hmem => ?_⟩
    rcases List.mem_cons.mp (List.perm_middle.subset hmem) with rfl | hmem
    · cases hmoved
      case keyed hp => simp at hp
    · exact h.unasked o (hothers _ hmem)
  · exact ⟨hmoved.unrevoked hp h.unrevoked,fun o hmem => h.unasked o (hothers _ hmem)⟩

theorem kept (h : Run step (fun _ _ => True) s as t) (hno : ∀ o, .invoke (.revoke o id) ∉ as) (hs : Kept id s) :
    Kept id t := by
  have hrun : Run step (fun _ a => ∀ o, a ≠ .invoke (.revoke o id)) s as t :=
    .of_exec (along_of_forall (fun a ha _ o => fun h => hno o (h ▸ ha)) h.exec_eq) h.exec_eq
  exact hrun.invariant (Kept id) (fun _ _ _ hs hok hstep => hs.step hok hstep) hs

theorem step_shared {a : Action} (hstep : step s a = some t) :
    t.shared = s.shared ∨ ∃ e p o, p ∈ s.threads ∧ Moved e s.shared p (t.shared,o) := by
  rcases Pool.step_cases hstep with ⟨c,rfl,rfl⟩ | ⟨i,e,l,r,p,rows,p',rfl,hl,-,hadv,rfl⟩ |
    ⟨i,e,l,r,p,rows,v,rfl,hl,-,hadv,rfl⟩
  · exact .inl rfl
  all_goals
    have hmoved := moved e s.shared p
    rw [hadv] at hmoved
    exact .inr ⟨e,p,_,hl ▸ by simp,hmoved⟩

/-- What the table keeps about a key that was handed out. -/
structure Held (id key : String) (revoked : Prop) (rows : Rows) : Prop where
  distinct : Distinct rows
  row : ∃ r ∈ rows, r.id = id ∧ r.keyHash = hashAPIKey key ∧ (revoked → r.revoked = true)

theorem Held.step {revoked : Prop} {a : Action} (h : Held id key revoked s.shared) (hstep : step s a = some t) :
    Held id key revoked t.shared := by
  rcases step_shared hstep with heq | ⟨e,p,o,-,hmoved⟩
  · exact heq ▸ h
  · obtain ⟨r,hr,hid,hhash,hrev⟩ := h.row
    obtain ⟨r',hr',hid',hhash',hrev'⟩ := hmoved.later r hr
    exact ⟨hmoved.distinct h.distinct,r',hr',hid'.trans hid,hhash'.trans hhash,fun h => hrev' (hrev h)⟩

theorem Recorded.held (h : Recorded s) (hkey : .created id key ∈ s.replies) :
    Held id key (.revoked id ∈ s.replies) s.shared := by
  obtain ⟨-,r,hr,hid,hhash⟩ := h.created id key hkey
  refine ⟨h.distinct,r,hr,hid,hhash,fun hrev => ?_⟩
  obtain ⟨r',hr',hid',hrev'⟩ := h.revoked id hrev
  rwa [h.distinct.eq_of_id hr hr' (hid.trans hid'.symm)]

/-- What a check answers about a key whose row is in the table. -/
def Answered (id key : String) (revoked asked : Prop) (v : Reply) : Prop :=
  (∀ why, v = .passed key why → why = .uncounted ∨ why = .known id ∧ ¬revoked) ∧
  ∀ err, v = .denied key err → (∃ text, err = .other text) ∨ err = .invalid ∧ asked

theorem answered_quiet {revoked asked : Prop} {v : Reply} (h : v.quiet = true) : Answered id key revoked asked v := by
  constructor
  · rintro why rfl
    cases h
  · rintro err rfl
    cases h

theorem Moved.answered {e : Env} {rows rows' : Rows} {p : Pc} {v : Reply} {revoked asked : Prop} (hkey : key ≠ "")
    (h : Moved e rows p (rows',.inr v)) (hheld : Held id key revoked rows)
    (hasked : ¬asked → ∀ r ∈ rows, r.id = id → r.revoked = false) : Answered id key revoked asked v := by
  obtain ⟨r,hr,hid,hhash,hrev⟩ := hheld.row
  cases h
  case refused => exact answered_quiet (by assumption)
  case failed => exact answered_quiet (by assumption)
  case created => exact ⟨by simp,by simp⟩
  case revoked => exact ⟨by simp,by simp⟩
  case uncounted => exact ⟨by simp,by simp⟩
  case unprovisioned hnil => exact absurd hr (by simp [hnil])
  case known key' r' hr' hhash' hactive =>
    refine ⟨?_,by simp⟩
    rintro why ⟨⟩
    obtain rfl := hheld.distinct.eq_of_keyHash hr hr' (hhash.trans hhash'.symm)
    exact .inr ⟨congrArg _ hid,fun hrevoked => Bool.false_ne_true (hactive.symm.trans (hrev hrevoked))⟩
  case keyless =>
    refine ⟨by simp,?_⟩
    rintro err ⟨⟩
    exact absurd rfl hkey
  case broken key' text =>
    refine ⟨by simp,?_⟩
    rintro err ⟨⟩
    exact .inl ⟨text,rfl⟩
  case unknown key' hrevoked =>
    refine ⟨by simp,?_⟩
    rintro err ⟨⟩
    refine .inr ⟨rfl,by_contra fun hno => ?_⟩
    exact Bool.false_ne_true ((hasked hno r hr hid).symm.trans (hrevoked r hr hhash))

/-- A key that was handed out.  Every later check that lets it pass found its row, with no revocation answered
before, or could not count the keys.  Every later check that refuses it failed in the store, or somebody has asked
to revoke the row. -/
theorem handed_out_key (hbs : Run step (fun _ _ => True) init bs s) (has : Run step (fun _ _ => True) s as t)
    (hkey : .created id key ∈ s.replies) :
    ∃ new, t.replies = new ++ s.replies ∧
      (∀ why, .passed key why ∈ new → why = .uncounted ∨ why = .known id ∧ .revoked id ∉ s.replies) ∧
      ∀ err, .denied key err ∈ new →
        (∃ text, err = .other text) ∨ err = .invalid ∧ ∃ o, .invoke (.revoke o id) ∈ bs ++ as := by
  have hrec := recorded hbs
  have hrun : Run step (fun _ a => a ∈ as) s as t := has.labelled.mono fun _ _ hlabel => hlabel.1
  have hkept : (¬∃ o, .invoke (.revoke o id) ∈ bs ++ as) → Kept id s := fun hno =>
    kept hbs (fun o hmem => hno ⟨o,List.mem_append_left _ hmem⟩) ⟨by simp [init],by simp [init]⟩
  obtain ⟨new,hnew,hanswered⟩ := Pool.run_replies
    (fun u => Held id key (.revoked id ∈ s.replies) u.shared ∧
      ((¬∃ o, .invoke (.revoke o id) ∈ bs ++ as) → Kept id u))
    (Answered id key (.revoked id ∈ s.replies) (∃ o, .invoke (.revoke o id) ∈ bs ++ as))
    (fun u a u' hu ha hstep => ⟨hu.1.step hstep,fun hno => (hu.2 hno).step
      (fun o hao => hno ⟨o,List.mem_append_right _ (hao ▸ ha)⟩) hstep⟩)
    (fun u i e p rows v hu _ _ hadv => by
      have hmoved := moved e u.shared p
      rw [hadv] at hmoved
      exact hmoved.answered (hrec.created id key hkey).1 hu.1 fun hno => (hu.2 hno).unrevoked)
    hrun ⟨hrec.held hkey,hkept⟩
  exact ⟨new,hnew,fun why hmem => (hanswered _ hmem).1 why rfl,fun err hmem => (hanswered _ hmem).2 err rfl⟩

end Runs

def drawnBytes : Hex.Bytes := List.replicate 16 95

def drawnKey : String := generateAPIKey .rest drawnBytes

/-- A key made over REST and revoked on the command line. -/
def rotation : List Action :=
  [.invoke (.create (.ok "ci")),.advance 0 { buf := drawnBytes, id := "key_1" },.advance 0 {},
    .invoke (.revoke .cli "key_1"),.advance 0 {}]

/-- Two checks; the store cannot count for the second. -/
def twoChecks (key : String) : List Action :=
  [.invoke (.check key),.invoke (.check key),.advance 0 {},.advance 0 {},.advance 0 {},
    .advance 0 {},.advance 0 { err := some "connection refused" }]

theorem handed_out_key_rotation : ∃ s t : State, Run step (fun _ _ => True) init rotation s ∧
    t.replies = ([.passed drawnKey .uncounted,.denied drawnKey .invalid] : List Reply) ++ s.replies ∧
    ∃ new, t.replies = new ++ s.replies ∧
      (∀ why, .passed drawnKey why ∈ new →
        why = .uncounted ∨ why = .known "key_1" ∧ .revoked "key_1" ∉ s.replies) ∧
      ∀ err, .denied drawnKey err ∈ new → (∃ text, err = .other text) ∨
        err = .invalid ∧ ∃ o, .invoke (.revoke o "key_1") ∈ rotation ++ twoChecks drawnKey := by
  have hreplies : ((exec step init rotation).bind fun s => (exec step s (twoChecks drawnKey)).map
      fun t => (s.replies,t.replies)) = some ([.revoked "key_1",.created "key_1" drawnKey],
        [.passed drawnKey .uncounted,.denied drawnKey .invalid,
          .revoked "key_1",.created "key_1" drawnKey]) := by decide +kernel
  obtain ⟨s,hs,ht⟩ := Option.bind_eq_some_iff.mp hreplies
  obtain ⟨t,ht,hst⟩ := Option.map_eq_some_iff.mp ht
  obtain ⟨hsr,htr⟩ := Prod.mk.inj hst
  refine ⟨s,t,.of_exec_true hs,by rw [htr,hsr]; rfl,?_⟩
  exact handed_out_key (.of_exec_true hs) (.of_exec_true ht) (hsr ▸ by simp)

section Checks

variable {ε ε' : Type*}

theorem checkKey_map (f : ε → ε') (required invalid : ε) (other : String → ε) (keys : APIKeys) (apiKey : String) :
    checkKey (f required) (f invalid) (fun text => f (other text)) keys apiKey =
      (checkKey required invalid other keys apiKey).mapError f := by
  unfold checkKey
  split_ifs
  · rfl
  · cases keys.count with
    | error text => rfl
    | ok count =>
      simp only
      split_ifs
      · rfl
      · cases keys.validateHash (hashAPIKey apiKey) with
        | error err => cases err <;> rfl
        | ok row => rfl

/-- The calls of a check, one after the other on a table that stays. -/
def settle (rows : Rows) : ℕ → Pc → Option Reply
  | 0, _ => none
  | n+1, p =>
    match (advance {} rows p).2 with
    | .inl p' => settle rows n p'
    | .inr r => some r

def Reply.verdict : Reply → Except Denial Unit
  | .denied _ err => .error err
  | _ => .ok ()

theorem settle_move {rows rows' : Rows} {p p' : Pc} {n : ℕ} (h : advance {} rows p = (rows',.inl p')) :
    settle rows (n+1) p = settle rows n p' := by rw [settle,h]

theorem settle_reply {rows rows' : Rows} {p : Pc} {r : Reply} {n : ℕ} (h : advance {} rows p = (rows',.inr r)) :
    settle rows (n+1) p = some r := by rw [settle,h]

theorem settle_validate (rows : Rows) (key : String) (n : ℕ) :
    settle rows (n+1) (.validate key) = some (match (APIKeys.over rows).validateHash (hashAPIKey key) with
      | .ok row => .passed key (.known row.id)
      | .error _ => .denied key .invalid) := by
  simp only [APIKeys.over]
  cases hfind : rows.find? fun r => r.keyHash = hashAPIKey key && !r.revoked with
  | none =>
    have hstep : advance {} rows (.validate key) = (rows,.inr (.denied key .invalid)) := by simp [advance,hfind]
    exact settle_reply hstep
  | some row =>
    have hstep : advance {} rows (.validate key) = (rows,.inr (.passed key (.known row.id))) := by
      simp [advance,hfind]
    exact settle_reply hstep

theorem over_ne_other (rows : Rows) (keyHash text : String) :
    (APIKeys.over rows).validateHash keyHash ≠ .error (.other text) := by
  simp only [APIKeys.over]
  cases rows.find? fun r => r.keyHash = keyHash && !r.revoked <;> simp

/-- A check that nothing disturbs is the check of the services. -/
theorem settle_check (rows : Rows) (key : String) :
    (settle rows 3 (.check key)).map Reply.verdict = some (checkKey .required .invalid .other (.over rows) key) := by
  unfold checkKey
  by_cases hkey : key = ""
  · have hstep : advance {} rows (.check key) = (rows,.inr (.denied key .required)) := if_pos hkey
    rw [if_pos hkey,settle_reply hstep]
    rfl
  · have hstep : advance {} rows (.check key) = (rows,.inl (.count key)) := if_neg hkey
    rw [if_neg hkey,settle_move hstep]
    by_cases hlen : rows.length = 0
    · have hcount : advance {} rows (.count key) = (rows,.inr (.passed key .unprovisioned)) := if_pos hlen
      rw [settle_reply hcount]
      simp [APIKeys.over,hlen,Reply.verdict]
    · have hcount : advance {} rows (.count key) = (rows,.inl (.validate key)) := if_neg hlen
      rw [settle_move hcount,settle_validate]
      have hother := over_ne_other rows (hashAPIKey key)
      cases hrow : (APIKeys.over rows).validateHash (hashAPIKey key) with
      | ok row => simp [APIKeys.over,hlen,Reply.verdict]
      | error err =>
        cases err with
        | notFound => simp [APIKeys.over,hlen,Reply.verdict]
        | other text => exact absurd hrow (hother text)

def Denial.status : Denial → Status
  | .required => ⟨.unauthenticated,"api_key is required"⟩
  | .invalid => ⟨.unauthenticated,"invalid api key"⟩
  | .other text => ⟨.internal,"validate api key: " ++ text⟩

theorem authenticate_eq (keys : APIKeys) (apiKey : String) :
    authenticate keys apiKey = (checkKey .required .invalid .other keys apiKey).mapError Denial.status :=
  checkKey_map Denial.status .required .invalid .other keys apiKey

def Denial.restError : Denial → RestError
  | .required => ⟨401,"UNAUTHENTICATED","session cookie or Authorization: Bearer <api_key> required"⟩
  | .invalid => ⟨401,"UNAUTHENTICATED","invalid or revoked API key"⟩
  | .other text => ⟨500,"INTERNAL","validate api key: " ++ text⟩

theorem settle_bearer (rows : Rows) (authorization : String) :
    (settle rows 2 (.bearer authorization)).map (fun r => r.verdict.mapError Denial.restError) =
      some (authMiddleware (.over rows) none authorization) := by
  unfold authMiddleware
  by_cases hkey : extractBearer authorization = ""
  · have hstep : advance {} rows (.bearer authorization) = (rows,.inr (.denied _ .required)) := if_pos hkey
    rw [if_pos hkey,settle_reply hstep]
    rfl
  · have hstep : advance {} rows (.bearer authorization) = (rows,.inl (.validate _)) := if_neg hkey
    rw [settle_move hstep,settle_validate]
    have hother := over_ne_other rows (hashAPIKey (extractBearer authorization))
    simp only [if_neg hkey]
    cases hrow : (APIKeys.over rows).validateHash (hashAPIKey (extractBearer authorization)) with
    | ok row => rfl
    | error err =>
      cases err with
      | notFound => rfl
      | other text => exact absurd hrow (hother text)

end Checks

end KeyLifecycle
end Clearvoiance
