import Clearvoiance.Fetch

/-! The `fetch` that `patchFetch` installs.  Inside an event scope it reads the body of the request,
puts the bytes it has read back into `init.body` and calls the original `fetch`; the same call
without the patch is the original `fetch` on the caller's own arguments. -/
namespace Clearvoiance
namespace Fetch

open Hex (utf8 utf8_eq_nil)

variable {ε ρ : Type}

inductive Reply (ε ρ : Type)
  | response (r : ρ)
  | failed (e : ε)
  | never
  deriving DecidableEq

inductive Result (ε ρ : Type)
  | response (r : ρ)
  | failed (e : ε)
  | rejected (why : Rejection ε)
  | pending
  deriving DecidableEq

def Reply.result : Reply ε ρ → Result ε ρ
  | .response r => .response r
  | .failed e => .failed e
  | .never => .pending

/-- What `patchedFetch` knows of a request once it is answered. -/
structure Recorded where
  method : String
  url : Url
  headers : List (String × String)
  body : Bytes
  deriving DecidableEq

/-- A call as the caller and the network see it, and what is recorded of it. -/
structure Run (ε ρ : Type) where
  sent : Option (Sent ε)
  init : Option (Init Held)
  result : Result ε ρ
  recorded : Option Recorded
  deriving DecidableEq

def originalFetch (env : Env ε) (network : Sent ε → Reply ε ρ) (input : Input ε) (init : Option (Init Held)) :
    Run ε ρ :=
  match newRequest env input init with
  | .error why => ⟨none,init,.rejected why,none⟩
  | .ok sent => ⟨some sent,init,(network sent).result,none⟩

def Init.held (i : Init BodyInit) : Init Held :=
  { method := i.method, headers := i.headers, body := i.body.map .given, duplex := i.duplex, keepalive := i.keepalive }

inductive Reading (ε : Type)
  | done (bytes : Bytes)
  | threw (why : Rejection ε)
  | never
  deriving DecidableEq

/-- All chunks of a stream, one after the other. -/
def Stream.read (s : Stream ε) : Reading ε :=
  if s.locked then .threw .streamLocked
  else match s.ending with
    | .closed => .done s.chunks.flatten
    | .errored e => .threw (.streamError e)
    | .never => .never

def readRequestBody (env : Env ε) : BodyInit → Reading ε
  | .text s => .done (utf8 s)
  | .binary bytes => .done bytes
  | .params ps => .done (utf8 (serializeParams ps))
  | .blob bytes _ => .done bytes
  | .form entries =>
    let parts := entries.map fun e => e.1 ++ "=" ++ (match e.2 with | .text s => s | .file .. => "[file]")
    .done (utf8 ("&".intercalate parts))
  | .stream id => (env.streams id).read
  | .other _ => .done []

/-- The heap after a body has been read to its end. -/
def Env.afterRead (env : Env ε) : BodyInit → Env ε
  | .stream id => env.setStream id { env.streams id with disturbed := true, chunks := [] }
  | _ => env

/-- `mergedRequestHeaders`: later fields replace earlier ones of the same lower-case name. -/
def mergedRequestHeaders (input : Input ε) (headers : Option HeadersInit) : List (String × String) :=
  let set (out : List (String × String)) (k v : String) := out.filter (·.1 ≠ toLowerCase k) ++ [(toLowerCase k,v)]
  let ofHeaders (out : List (String × String)) (h : Headers) :=
    h.foldl (fun out f => set out f.1 ((h.get (toLowerCase f.1)).getD "")) out
  let out := match input with
    | .request r => ofHeaders [] r.headers
    | _ => []
  match headers with
  | none => out
  | some (.headers h) => ofHeaders out h
  | some (.pairs ps) => ps.foldl (fun out p => match p with | [k,v] => set out k v | _ => out) out
  | some (.record fs) => fs.foldl (fun out f => match f.2 with | some v => set out f.1 v | none => out) out

def callUrl (env : Env ε) : Input ε → Except (Rejection ε) Url
  | .string s =>
    match env.parse s with
    | none => .error (.invalidUrl s)
    | some u => .ok u
  | .url u => .ok u
  | .request r => .ok r.url

def callMethod (input : Input ε) (method : Option String) : String :=
  let own := match input with
    | .request r => r.method
    | _ => "GET"
  toUpperCase (method.getD own)

def skipped (skipHosts : List String) (u : Url) : Bool := (skipHosts.map toLowerCase).contains (toLowerCase u.hostname)

/-- The body that is read before the original `fetch` is called: `init.body`, or a clone of the
body of a `Request`. -/
def captureBody (env : Env ε) (input : Input ε) (body : Option BodyInit) : Reading ε :=
  match body with
  | some b => readRequestBody env b
  | none =>
    match input.body with
    | some s => if s.disturbed || s.locked then .threw .unusable else s.read
    | none => .done []

/-- `init` after the assignment of the bytes that were read. -/
def replaceBody (init : Option (Init BodyInit)) (bytes : Bytes) : Option (Init Held) :=
  init.map fun i => if i.body.isSome && bytes ≠ [] then { i.held with body := some (.buffer bytes) } else i.held

def Run.record (run : Run ε ρ) (r : Recorded) : Run ε ρ :=
  match run.result with
  | .response _ => { run with recorded := some r }
  | _ => run

def patchedFetch (env : Env ε) (network : Sent ε → Reply ε ρ) (skipHosts : List String) (causedBy : Option String)
    (input : Input ε) (init : Option (Init BodyInit)) : Run ε ρ :=
  let held := init.map Init.held
  if causedBy.getD "" = "" then originalFetch env network input held
  else
    match callUrl env input with
    | .error why => ⟨none,held,.rejected why,none⟩
    | .ok url =>
      if skipped skipHosts url then originalFetch env network input held
      else
        let body := init.bind (·.body)
        match captureBody env input body with
        | .threw why => ⟨none,held,.rejected why,none⟩
        | .never => ⟨none,held,.pending,none⟩
        | .done bytes =>
          let run := originalFetch ((body.map env.afterRead).getD env) network input (replaceBody init bytes)
          run.record ⟨callMethod input (init.bind (·.method)),url,
            mergedRequestHeaders input (init.bind (·.headers)),bytes⟩

/-- The patched call sends what the same call without the patch sends, leaves `init` alone and
comes to the same result. -/
def Transparent (env : Env ε) (network : Sent ε → Reply ε ρ) (skipHosts : List String) (causedBy : Option String)
    (input : Input ε) (init : Option (Init BodyInit)) : Prop :=
  let direct := originalFetch env network input (init.map Init.held)
  let run := patchedFetch env network skipHosts causedBy input init
  run.sent = direct.sent ∧ run.init = init.map Init.held ∧ run.result = direct.result

def BodyInit.Empty (env : Env ε) : BodyInit → Prop
  | .text s => s = ""
  | .binary bytes => bytes = []
  | .params ps => ps = []
  | .blob bytes _ => bytes = []
  | .form entries => entries = []
  | .stream id => (env.streams id).locked = false ∧ (env.streams id).ending = .closed ∧
      (env.streams id).chunks.flatten = []
  | .other _ => True

/-- The call is rejected before its body is looked at. -/
def RejectedEarly (env : Env ε) (input : Input ε) (init : Option (Init BodyInit)) : Prop :=
  match head env input init with
  | .error _ => True
  | .ok h => h.keepalive = true

/-- Reading the body first does the call no harm. -/
def Harmless (env : Env ε) (input : Input ε) (init : Option (Init BodyInit)) : Prop :=
  match init.bind (·.body) with
  | some b => b.Empty env ∧ ∀ id, b = .stream id → (env.streams id).disturbed = true ∨ RejectedEarly env input init
  | none => ∀ s, input.body = some s → s.disturbed = false ∧ s.locked = false ∧ s.ending = .closed

@[simp] theorem held_method (init : Option (Init BodyInit)) :
    (init.map Init.held).bind (·.method) = init.bind (·.method) := by
  cases init <;> rfl

@[simp] theorem held_headers (init : Option (Init BodyInit)) :
    (init.map Init.held).bind (·.headers) = init.bind (·.headers) := by
  cases init <;> rfl

@[simp] theorem held_keepalive (init : Option (Init BodyInit)) :
    (init.map Init.held).bind (·.keepalive) = init.bind (·.keepalive) := by
  cases init <;> rfl

@[simp] theorem held_body (init : Option (Init BodyInit)) :
    (init.map Init.held).bind (·.body) = (init.bind (·.body)).map .given := by
  cases init <;> rfl

theorem head_held (env : Env ε) (input : Input ε) (init : Option (Init BodyInit)) :
    head env input (init.map Init.held) = head env input init := by
  cases init with
  | none => rfl
  | some i => simp [head,Init.held]

theorem head_afterRead (env : Env ε) (b : BodyInit) (input : Input ε) (init : Option (Init Held)) :
    head (env.afterRead b) input init = head env input init := by
  have hparse : (env.afterRead b).parse = env.parse := by cases b <;> rfl
  have hurl : requestUrl (env.afterRead b) input = requestUrl env input := by
    cases input <;> simp [requestUrl,hparse]
  simp [head,hurl]

theorem record_sent (run : Run ε ρ) (r : Recorded) : (run.record r).sent = run.sent := by
  unfold Run.record
  split <;> rfl

theorem record_init (run : Run ε ρ) (r : Recorded) : (run.record r).init = run.init := by
  unfold Run.record
  split <;> rfl

theorem record_result (run : Run ε ρ) (r : Recorded) : (run.record r).result = run.result := by
  unfold Run.record
  split <;> rfl

theorem originalFetch_init (env : Env ε) (network : Sent ε → Reply ε ρ) (input : Input ε)
    (init : Option (Init Held)) : (originalFetch env network input init).init = init := by
  unfold originalFetch
  split <;> rfl

theorem intercalate_eq_empty {α : Type} (sep : String) (f : α → String) (hf : ∀ a, f a ≠ "") (l : List α) :
    sep.intercalate (l.map f) = "" ↔ l = [] := by
  cases l with
  | nil => simp
  | cons a l =>
    cases l with
    | nil => simp [hf a]
    | cons b l => simp [String.intercalate_cons_cons,hf a]

theorem readRequestBody_eq_nil (env : Env ε) (b : BodyInit) : readRequestBody env b = .done [] ↔ b.Empty env := by
  cases b with
  | text s => simp [readRequestBody,BodyInit.Empty]
  | binary bytes => simp [readRequestBody,BodyInit.Empty]
  | blob bytes type => simp [readRequestBody,BodyInit.Empty]
  | other text => simp [readRequestBody,BodyInit.Empty]
  | params ps =>
    simp only [readRequestBody,BodyInit.Empty,Reading.done.injEq,utf8_eq_nil,serializeParams]
    apply intercalate_eq_empty
    simp
  | form entries =>
    simp only [readRequestBody,BodyInit.Empty,Reading.done.injEq,utf8_eq_nil]
    apply intercalate_eq_empty
    simp
  | stream id =>
    simp only [readRequestBody,BodyInit.Empty,Stream.read]
    cases (env.streams id).locked <;> cases (env.streams id).ending <;> simp

def Rejection.ofWrapper : Rejection ε → Bool
  | .invalidUrl _ | .streamLocked | .unusable | .streamError _ => true
  | _ => false

theorem bind_eq_error {α β γ : Type} {x : Except γ α} {f : α → Except γ β} {e : γ} (h : x >>= f = .error e) :
    x = .error e ∨ ∃ a, x = .ok a ∧ f a = .error e := by
  cases x with
  | error e' =>
    left
    simpa [bind,Except.bind] using h
  | ok a => exact .inr ⟨a,rfl,h⟩

theorem requestUrl_error {env : Env ε} {input : Input ε} {why : Rejection ε} (h : requestUrl env input = .error why) :
    why.ofWrapper = false := by
  cases input with
  | request r => simp [requestUrl] at h
  | url u =>
    simp only [requestUrl,checkCredentials] at h
    split at h
    · cases h
      rfl
    · cases h
  | string s =>
    simp only [requestUrl,checkCredentials] at h
    split at h
    · cases h
      rfl
    · split at h
      · cases h
        rfl
      · cases h

theorem requestMethod_error {input : Input ε} {m : Option String} {why : Rejection ε}
    (h : requestMethod input m = .error why) : why.ofWrapper = false := by
  unfold requestMethod at h
  repeat' split at h
  all_goals cases h
  rfl

theorem requestHeaders_error {input : Input ε} {m : Option HeadersInit} {why : Rejection ε}
    (h : requestHeaders input m = .error why) : why.ofWrapper = false := by
  unfold requestHeaders at h
  repeat' split at h
  all_goals cases h
  rfl

theorem head_error {β : Type} {env : Env ε} {input : Input ε} {init : Option (Init β)} {why : Rejection ε}
    (h : head env input init = .error why) : why.ofWrapper = false := by
  unfold head at h
  obtain h | ⟨url,-,h⟩ := bind_eq_error h
  · exact requestUrl_error h
  obtain h | ⟨method,-,h⟩ := bind_eq_error h
  · exact requestMethod_error h
  obtain h | ⟨headers,-,h⟩ := bind_eq_error h
  · exact requestHeaders_error h
  split at h
  · cases h
    rfl
  · cases h

theorem extractBody_error {env : Env ε} {keepalive : Bool} {body : Held} {why : Rejection ε}
    (h : extractBody env keepalive body = .error why) : why.ofWrapper = false := by
  unfold extractBody at h
  repeat' split at h
  all_goals cases h
  all_goals rfl

theorem attachBody_error {env : Env ε} {input : Input ε} {init : Option (Init Held)} {hd : Head} {why : Rejection ε}
    (h : attachBody env input init hd = .error why) : why.ofWrapper = false := by
  unfold attachBody at h
  split at h
  · obtain h | ⟨⟨payload,type⟩,-,h⟩ := bind_eq_error h
    · exact extractBody_error h
    · simp only at h
      split at h
      · cases h
        rfl
      · cases h
  · repeat' split at h
    all_goals cases h
    rfl

theorem newRequest_error {env : Env ε} {input : Input ε} {init : Option (Init Held)} {why : Rejection ε}
    (h : newRequest env input init = .error why) : why.ofWrapper = false := by
  obtain h | ⟨hd,-,h⟩ := bind_eq_error h
  · exact head_error h
  · exact attachBody_error h

theorem originalFetch_result_ne {env : Env ε} {network : Sent ε → Reply ε ρ} {input : Input ε}
    {init : Option (Init Held)} {why : Rejection ε} (hwhy : why.ofWrapper = true) :
    (originalFetch env network input init).result ≠ .rejected why := by
  unfold originalFetch
  split
  · rename_i why' h
    intro he
    have := newRequest_error h
    rw [(Result.rejected.inj he : why' = why),hwhy] at this
    cases this
  · rename_i sent h
    cases hn : network sent <;> simp [Reply.result]

theorem originalFetch_not_idle {env : Env ε} {network : Sent ε → Reply ε ρ} {input : Input ε}
    {init : Option (Init Held)} (hsent : (originalFetch env network input init).sent = none) :
    (originalFetch env network input init).result ≠ .pending := by
  unfold originalFetch at hsent ⊢
  split
  · simp
  · rename_i sent h
    simp [h] at hsent

/-- A stream is looked at only after the rest of the call has passed. -/
theorem newRequest_stream (env : Env ε) (input : Input ε) (i : Init BodyInit) {id : ℕ} (hb : i.body = some (.stream id)) :
    newRequest env input (some i.held) = (do
      let h ← head env input (some i)
      if h.keepalive then throw .keepalive
      if (env.streams id).disturbed || (env.streams id).locked then throw .disturbedOrLocked
      if !i.duplex then throw .duplexRequired
      return ⟨h.url,h.method,h.headers,some ((env.streams id).payload none)⟩) := by
  have hhead := head_held env input (some i)
  rw [Option.map_some] at hhead
  rw [newRequest,hhead]
  cases head env input (some i) with
  | error e => rfl
  | ok h =>
    cases hk : h.keepalive <;> cases hd : (env.streams id).disturbed <;> cases hl : (env.streams id).locked <;>
      cases hx : i.duplex <;>
      simp [attachBody,Init.held,hb,extractBody,hk,hd,hl,hx,bind,Except.bind,Stream.payload,throw,throwThe,
        MonadExceptOf.throw,pure,Except.pure]

theorem afterRead_stream (env : Env ε) (id : ℕ) :
    (env.afterRead (.stream id)).streams id = { env.streams id with disturbed := true, chunks := [] } := by
  simp [Env.afterRead,Env.setStream]

/-- Reading an empty stream to its end goes unnoticed if the stream had been read from before, or
if the call never gets to its body. -/
theorem stream_unnoticed_iff (env : Env ε) (network : Sent ε → Reply ε ρ) (input : Input ε) (i : Init BodyInit)
    {id : ℕ} (hb : i.body = some (.stream id)) (hempty : BodyInit.Empty env (.stream id)) :
    (originalFetch (env.afterRead (.stream id)) network input (some i.held)).sent =
        (originalFetch env network input (some i.held)).sent ∧
      (originalFetch (env.afterRead (.stream id)) network input (some i.held)).result =
        (originalFetch env network input (some i.held)).result ↔
    (env.streams id).disturbed = true ∨ RejectedEarly env input (some i) := by
  have hhead : head (env.afterRead (.stream id)) input (some i) = head env input (some i) := by
    rw [← head_held,← head_held,head_afterRead]
  rw [originalFetch,originalFetch,newRequest_stream _ _ _ hb,newRequest_stream _ _ _ hb,hhead,RejectedEarly]
  cases hh : head env input (some i) with
  | error e => simp [bind,Except.bind]
  | ok h =>
    have hl : (env.streams id).locked = false := hempty.1
    cases hk : h.keepalive <;> cases hd : (env.streams id).disturbed <;> cases hx : i.duplex <;>
      simp [afterRead_stream,hk,hl,bind,Except.bind,throw,throwThe,MonadExceptOf.throw,pure,Except.pure]

theorem unnoticed_iff (env : Env ε) (network : Sent ε → Reply ε ρ) (input : Input ε) (i : Init BodyInit)
    {b : BodyInit} (hb : i.body = some b) (hempty : b.Empty env) :
    (originalFetch (env.afterRead b) network input (some i.held)).sent =
        (originalFetch env network input (some i.held)).sent ∧
      (originalFetch (env.afterRead b) network input (some i.held)).result =
        (originalFetch env network input (some i.held)).result ↔
    ∀ id, b = .stream id → (env.streams id).disturbed = true ∨ RejectedEarly env input (some i) := by
  cases b with
  | stream id =>
    rw [stream_unnoticed_iff env network input i hb hempty]
    constructor
    · intro h id' hid
      cases hid
      exact h
    · intro h
      exact h id rfl
  | _ => simp [Env.afterRead]

theorem read_eq_done {s : Stream ε} (hl : s.locked = false) {bytes : Bytes} (h : s.read = .done bytes) :
    s.ending = .closed := by
  rw [Stream.read,hl] at h
  cases he : s.ending with
  | closed => rfl
  | errored e => simp [he] at h
  | never => simp [he] at h

theorem read_threw {s : Stream ε} {why : Rejection ε} (h : s.read = .threw why) : why.ofWrapper = true := by
  unfold Stream.read at h
  split at h
  · cases h
    rfl
  · split at h
    · cases h
    · cases h
      rfl
    · cases h

theorem captureBody_threw {env : Env ε} {input : Input ε} {body : Option BodyInit} {why : Rejection ε}
    (h : captureBody env input body = .threw why) : why.ofWrapper = true := by
  unfold captureBody at h
  split at h
  · rename_i b
    cases b <;> simp only [readRequestBody,reduceCtorEq] at h
    exact read_threw h
  · split at h
    · split at h
      · cases h
        rfl
      · exact read_threw h
    · cases h

theorem harmless_done {env : Env ε} {input : Input ε} {init : Option (Init BodyInit)} (h : Harmless env input init) :
    ∃ bytes, captureBody env input (init.bind (·.body)) = .done bytes := by
  cases hb : init.bind (·.body) with
  | some b =>
    simp only [Harmless,hb] at h
    exact ⟨[],(readRequestBody_eq_nil env b).mpr h.1⟩
  | none =>
    simp only [Harmless,hb] at h
    cases hs : input.body with
    | none => exact ⟨[],by simp [captureBody,hs]⟩
    | some s =>
      obtain ⟨hd,hl,he⟩ := h s hs
      exact ⟨s.chunks.flatten,by simp [captureBody,hs,hd,hl,Stream.read,he]⟩

/-- Once the body has been read without an error, the call is transparent exactly when that did no
harm. -/
theorem done_transparent_iff (env : Env ε) (network : Sent ε → Reply ε ρ) (input : Input ε)
    (init : Option (Init BodyInit)) {bytes : Bytes}
    (hdone : captureBody env input (init.bind (·.body)) = .done bytes) :
    (originalFetch (((init.bind (·.body)).map env.afterRead).getD env) network input (replaceBody init bytes)).sent =
        (originalFetch env network input (init.map Init.held)).sent ∧
      replaceBody init bytes = init.map Init.held ∧
      (originalFetch (((init.bind (·.body)).map env.afterRead).getD env) network input (replaceBody init bytes)).result =
        (originalFetch env network input (init.map Init.held)).result ↔
    Harmless env input init := by
  cases hb : init.bind (·.body) with
  | none =>
    have hsame : replaceBody init bytes = init.map Init.held := by
      cases init with
      | none => rfl
      | some i =>
        have hi : i.body = none := hb
        simp [replaceBody,hi]
    simp only [hsame,Option.map_none,Option.getD_none,true_and,Harmless,hb]
    refine iff_of_true trivial ?_
    intro s hs
    rw [hb] at hdone
    simp only [captureBody,hs] at hdone
    split at hdone
    · cases hdone
    · rename_i hu
      simp only [Bool.or_eq_true,not_or,Bool.not_eq_true] at hu
      exact ⟨hu.1,hu.2,read_eq_done hu.2 hdone⟩
  | some b =>
    obtain ⟨i,rfl,hi⟩ := Option.bind_eq_some_iff.mp hb
    rw [hb] at hdone
    simp only [captureBody] at hdone
    by_cases hbytes : bytes = []
    · subst hbytes
      have hempty := (readRequestBody_eq_nil env b).mp hdone
      have hsame : replaceBody (some i) [] = some i.held := by simp [replaceBody]
      have h := unnoticed_iff env network input i hi hempty
      simp only [hsame,Option.map_some,Option.getD_some,true_and,Harmless,hb,hempty]
      exact h
    · refine iff_of_false ?_ ?_
      · rintro ⟨-,h,-⟩
        simp [replaceBody,hi,hbytes,Init.held] at h
      · intro h
        simp only [Harmless,hb] at h
        have := (readRequestBody_eq_nil env b).mpr h.1
        rw [hdone] at this
        exact hbytes (Reading.done.inj this)

/-- Inside an event scope a call goes through the patch unchanged exactly when its URL parses and
its host is skipped or reading its body first does no harm. -/
theorem transparent_iff (env : Env ε) (network : Sent ε → Reply ε ρ) (skipHosts : List String) (causedBy : String)
    (hscope : causedBy ≠ "") (input : Input ε) (init : Option (Init BodyInit)) :
    Transparent env network skipHosts (some causedBy) input init ↔
      ∃ url, callUrl env input = .ok url ∧ (skipped skipHosts url = true ∨ Harmless env input init) := by
  simp only [Transparent,patchedFetch,Option.getD_some,if_neg hscope]
  cases hu : callUrl env input with
  | error why =>
    have hwhy : why.ofWrapper = true := by
      cases input <;> simp only [callUrl] at hu
      · split at hu <;> cases hu
        rfl
      · cases hu
      · cases hu
    refine iff_of_false ?_ (by simp)
    rintro ⟨-,-,h⟩
    exact originalFetch_result_ne hwhy h.symm
  | ok url =>
    simp only [Except.ok.injEq,exists_eq_left']
    by_cases hs : skipped skipHosts url = true
    · simp [hs,originalFetch_init]
    · simp only [hs,false_or,if_false,Bool.false_eq_true]
      cases hc : captureBody env input (init.bind (·.body)) with
      | done bytes =>
        simp only [record_sent,record_init,record_result,originalFetch_init]
        exact done_transparent_iff env network input init hc
      | threw why =>
        refine iff_of_false ?_ ?_
        · rintro ⟨-,-,h⟩
          exact originalFetch_result_ne (captureBody_threw hc) h.symm
        · intro h
          obtain ⟨bytes,hdone⟩ := harmless_done h
          rw [hc] at hdone
          cases hdone
      | never =>
        refine iff_of_false ?_ ?_
        · rintro ⟨hsent,-,h⟩
          exact originalFetch_not_idle hsent.symm h.symm
        · intro h
          obtain ⟨bytes,hdone⟩ := harmless_done h
          rw [hc] at hdone
          cases hdone

def pingUrl : Url :=
  { protocol := "https:", username := "", password := "", hostname := "api.example.com", port := "",
    pathname := "/v1/ping", search := "" }

/-- One stream that has been closed without a chunk, and one address. -/
def pingEnv : Env String :=
  { parse := fun s => if s = "https://api.example.com/v1/ping" then some pingUrl else none
    streams := fun _ => ⟨false,false,[],.closed⟩
    boundary := "----formdata-undici-012345678901" }

def accepts : Sent String → Reply String ℕ := fun _ => .response 200

def pingInput : Input String := .string "https://api.example.com/v1/ping"

/-- `{ method: "POST", body: "x" }` -/
def postText : Init BodyInit := ⟨some "POST",none,some (.text "x"),false,none⟩

/-- A text body loses its content type, and the caller's `init` now holds a `Buffer`. -/
theorem text_not_transparent :
    (originalFetch pingEnv accepts pingInput (some postText.held)).sent =
      some ⟨pingUrl,"POST",[("content-type","text/plain;charset=UTF-8")],some (.ofBytes [0x78])⟩ ∧
    (patchedFetch pingEnv accepts [] (some "ev_1") pingInput (some postText)).sent =
      some ⟨pingUrl,"POST",[],some (.ofBytes [0x78])⟩ ∧
    (patchedFetch pingEnv accepts [] (some "ev_1") pingInput (some postText)).init =
      some { postText.held with body := some (.buffer [0x78]) } ∧
    ¬ Transparent pingEnv accepts [] (some "ev_1") pingInput (some postText) := by
  have hsent : (originalFetch pingEnv accepts pingInput (some postText.held)).sent =
      some ⟨pingUrl,"POST",[("content-type","text/plain;charset=UTF-8")],some (.ofBytes [0x78])⟩ := by
    decide +kernel
  have hpatched : (patchedFetch pingEnv accepts [] (some "ev_1") pingInput (some postText)).sent =
      some ⟨pingUrl,"POST",[],some (.ofBytes [0x78])⟩ := by
    decide +kernel
  refine ⟨hsent,hpatched,by decide +kernel,?_⟩
  rintro ⟨h,-⟩
  rw [hpatched,Option.map_some,hsent] at h
  simp at h

theorem transparent_ping : Transparent pingEnv accepts [] (some "ev_1") pingInput none ∧
    ¬ Transparent pingEnv accepts [] (some "ev_1") (.string "ping") none := by
  have hping := transparent_iff pingEnv accepts [] "ev_1" (by decide) pingInput none
  have hbad := transparent_iff pingEnv accepts [] "ev_1" (by decide) (.string "ping") none
  refine ⟨hping.mpr ⟨pingUrl,rfl,.inr ?_⟩,?_⟩
  · intro s hs
    cases hs
  · rw [hbad]
    rintro ⟨url,hurl,-⟩
    cases hurl

end Fetch
end Clearvoiance
