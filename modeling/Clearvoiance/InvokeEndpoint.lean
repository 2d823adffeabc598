import Clearvoiance.BufferEncodings
import Clearvoiance.SignatureEquality

/-! The endpoint through which the engine runs a registered job: a server of its own, and a middleware for the server
of the host.  Both read the same body; they differ in the path, and in what stands inside their `try` blocks. -/
namespace Clearvoiance
namespace InvokeEndpoint

open Json JsonStrings
open BufferEncodings (fromBase64)
open Signature (Bytes codes)
open SignatureEquality (Double)

abbrev Value := Json JsString Double

def js (s : String) : JsString := utf16 s.toList

def numberText : Double → List Char
  | .finite x => jsNumber x.val
  | .infinite neg => (if neg then ['-'] else []) ++ "Infinity".toList

mutual

/-- `String(v)`.  An object whose own `toString` is no function cannot be converted. -/
def stringOf : Value → Option JsString
  | .null => some (js "null")
  | .bool b => some (js (if b then "true" else "false"))
  | .num x => some (utf16 (numberText x))
  | .str s => some s
  | .arr vs => (joinedList vs).map fun texts => (js ",").intercalate texts
  | .obj ms => if js "toString" ∈ ms.map Prod.fst then none else some (js "[object Object]")
termination_by structural v => v

/-- What `join` makes of the elements: `null` is left out. -/
def joinedList : List Value → Option (List JsString)
  | [] => some []
  | v :: vs => do
    let text ← stringOf v
    let texts ← joinedList vs
    pure ((match v with | .null => [] | _ => text) :: texts)
termination_by structural vs => vs

end

/-- `JSON.parse` of a text, given by its code points. -/
def jsonParse (text : List ℕ) : Option Value := do
  let raw ← parse (text.flatMap units)
  raw.convert jsString fun l => some (.num (Double.ofLiteral l))

/-- `raw += c.toString()` over the chunks of the body. -/
def rawText (chunks : List Bytes) : List ℕ := chunks.flatMap fun c => bufferToString (codes c)

/-- `raw ? JSON.parse(raw) : {}`. -/
def parsedText (raw : List ℕ) : Option Value := if raw = [] then some (.obj []) else jsonParse raw

/-- A property of a value that is not null, or undefined. -/
def property (key : String) : Value → Option Value
  | .obj ms => lookup (js key) ms
  | _ => none

/-- `String(body.name ?? "")`, or nothing where that throws; `fits` tells whether the stack suffices for the text
of an array. -/
def nameOf (fits : List Value → Bool) (body : Value) : Option JsString :=
  match body with
  | .null => none
  | body =>
    match property "name" body with
    | none | some .null => some []
    | some (.arr vs) => if fits vs then stringOf (.arr vs) else none
    | some v => stringOf v

/-- The argument of the handler; nothing stands for undefined. -/
def decodeArgs (body : Value) : Option Value :=
  match property "args_base64" body with
  | some (.str b64) =>
    if b64 = [] then property "args" body
    else
      let raw := bufferToString (codes (fromBase64 b64))
      match jsonParse raw with
      | some v => some v
      | none => some (.str ((raw.flatMap units).map UInt16.ofNat))
  | _ => property "args" body

/-- What a handler does: it returns, it never settles, or it throws, which is reported under a message unless the
report throws as well. -/
inductive Behaviour
  | returned
  | pending
  | threw (message : Option JsString)

/-- The handlers by name, each as a function of its argument. -/
abbrev Registry := JsString → Option (Option Value → Behaviour)

structure Request where
  method : String
  url : Option String
  authorization : Option String
  chunks : List Bytes

structure Response where
  statusCode : ℕ
  contentType : Option String
  error : Option JsString

/-- What becomes of a request: the calls of `next`, whether the body is read, the answer, the handler that runs with
its argument, and whether something is thrown out of the callbacks. -/
structure Handled where
  nexts : ℕ := 0
  reads : Bool := false
  response : Option Response := none
  ran : Option (JsString × Option Value) := none
  threw : Bool := false

def invokePath : String := "/__clearvoiance/cron/invoke"

def applicationJson : String := "application/json"

/-- An empty token is no token. -/
def refused (token : Option String) (req : Request) : Bool :=
  match token with
  | none => false
  | some token => token ≠ "" && req.authorization ≠ some ("Bearer " ++ token)

def unauthorized : Handled := { response := some ⟨401,some applicationJson,some (js "unauthorized")⟩ }

def isInvokePath (url : Option String) : Bool :=
  match url with
  | none => false
  | some url => url ≠ "" && url.toList.takeWhile (· ≠ '?') = invokePath.toList

def addressed (req : Request) : Bool := req.method = "POST" && isInvokePath req.url

def nameRequired : Handled := { reads := true, response := some ⟨400,none,some (js "name is required")⟩ }

def unknownHandler (name : JsString) : Handled :=
  { reads := true, response := some ⟨404,none,some (js "unknown handler: " ++ name)⟩ }

/-- The answer after the handler has run, or nothing where the report of an error throws. -/
def finished : Behaviour → Option (Option Response)
  | .returned => some (some ⟨200,some applicationJson,none⟩)
  | .pending => some none
  | .threw (some message) => some (some ⟨500,some applicationJson,some message⟩)
  | .threw none => none

section

variable (fits : List Value → Bool) (token : Option String) (registry : Registry)

/-- The `end` callback of the server: whatever throws is answered as a malformed body. -/
def serverEnd (raw : List ℕ) : Handled :=
  let malformed : Response := ⟨400,some applicationJson,some (js "malformed body")⟩
  match parsedText raw with
  | none => { reads := true, response := some malformed }
  | some body =>
    match nameOf fits body with
    | none => { reads := true, response := some malformed }
    | some [] => nameRequired
    | some (x :: name) =>
      match registry (x :: name) with
      | none => unknownHandler (x :: name)
      | some handler =>
        { reads := true
          response := (finished (handler (decodeArgs body))).getD (some malformed)
          ran := some (x :: name,decodeArgs body) }

/-- The `end` callback of the middleware: only the parsing and the handler stand in `try` blocks. -/
def middlewareEnd (raw : List ℕ) : Handled :=
  match parsedText raw with
  | none => { reads := true, response := some ⟨400,none,some (js "malformed body")⟩ }
  | some body =>
    match nameOf fits body with
    | none => { reads := true, threw := true }
    | some [] => nameRequired
    | some (x :: name) =>
      match registry (x :: name) with
      | none => unknownHandler (x :: name)
      | some handler =>
        { reads := true
          response := (finished (handler (decodeArgs body))).getD none
          ran := some (x :: name,decodeArgs body)
          threw := (finished (handler (decodeArgs body))).isNone }

/-- The callback of `startInvokeServer`. -/
def server (req : Request) : Handled :=
  if refused token req then unauthorized
  else if req.method ≠ "POST" || req.url ≠ some invokePath then { response := some ⟨404,none,none⟩ }
  else serverEnd fits registry (rawText req.chunks)

/-- `clearvoianceInvokeMiddleware`. -/
def middleware (req : Request) : Handled :=
  if req.method ≠ "POST" || !isInvokePath req.url then { nexts := 1 }
  else if refused token req then unauthorized
  else middlewareEnd fits registry (rawText req.chunks)

/-- One status code, one handler with one argument, and nothing is thrown. -/
structure Agree (a b : Handled) : Prop where
  status : a.response.map (·.statusCode) = b.response.map (·.statusCode)
  ran : a.ran = b.ran
  quiet : a.threw = false ∧ b.threw = false

/-- The body names its handler without a throw, and what the handler throws can be reported. -/
def Orderly (raw : List ℕ) : Prop :=
  ∀ body ∈ parsedText raw, ∃ name, nameOf fits body = some name ∧
    (name ≠ [] → ∀ handler ∈ registry name, handler (decodeArgs body) ≠ .threw none)

/-- The body names a handler that is not registered. -/
def Unknown (raw : List ℕ) : Prop :=
  ∃ body ∈ parsedText raw, ∃ name, nameOf fits body = some name ∧ name ≠ [] ∧ registry name = none

theorem agree_refl {a : Handled} (h : a.threw = false) : Agree a a := ⟨rfl,rfl,h,h⟩

/-- With one handler run, the answers are the same when the report of what it throws does not throw itself. -/
theorem agree_finished_iff (b : Behaviour) (malformed : Response) (ran : Option (JsString × Option Value)) :
    Agree { reads := true, response := (finished b).getD (some malformed), ran := ran }
        { reads := true, response := (finished b).getD none, ran := ran, threw := (finished b).isNone } ↔
      b ≠ .threw none := by
  constructor
  · rintro h rfl
    cases h.quiet.2
  · intro h
    have hsome : ∃ answer, finished b = some answer := by
      rcases b with _ | _ | _ | message
      · exact ⟨_,rfl⟩
      · exact ⟨_,rfl⟩
      · exact absurd rfl h
      · exact ⟨_,rfl⟩
    obtain ⟨answer,hanswer⟩ := hsome
    rw [hanswer]
    exact ⟨rfl,rfl,rfl,rfl⟩

theorem agree_end_iff (raw : List ℕ) :
    Agree (serverEnd fits registry raw) (middlewareEnd fits registry raw) ↔ Orderly fits registry raw := by
  unfold serverEnd middlewareEnd Orderly
  cases parsedText raw with
  | none => exact iff_of_true ⟨rfl,rfl,rfl,rfl⟩ nofun
  | some body =>
    simp only [Option.mem_some_iff,forall_eq']
    cases nameOf fits body with
    | none => exact iff_of_false (fun h => nomatch h.quiet.2) (by simp)
    | some name =>
      cases name with
      | nil => exact iff_of_true (agree_refl rfl) ⟨[],rfl,fun h => absurd rfl h⟩
      | cons x name =>
        simp only [Option.some.injEq,exists_eq_left']
        cases registry (x :: name) with
        | none => exact iff_of_true (agree_refl rfl) (by simp)
        | some handler => simpa using agree_finished_iff _ _ _

/-- The callback of the middleware answers like a server that knows no such path when the handler is unknown. -/
theorem agree_not_found_iff (raw : List ℕ) :
    Agree { response := some ⟨404,none,none⟩ } (middlewareEnd fits registry raw) ↔ Unknown fits registry raw := by
  unfold middlewareEnd Unknown
  cases parsedText raw with
  | none => exact iff_of_false (fun h => nomatch h.status) (by simp)
  | some body =>
    simp only [Option.mem_some_iff,exists_eq_left']
    cases nameOf fits body with
    | none => exact iff_of_false (fun h => nomatch h.status) (by simp)
    | some name =>
      cases name with
      | nil => exact iff_of_false (fun h => nomatch h.status) (by simp)
      | cons x name =>
        simp only [Option.some.injEq,exists_eq_left']
        cases registry (x :: name) with
        | none => exact iff_of_true ⟨rfl,rfl,rfl,rfl⟩ (by simp)
        | some handler => exact iff_of_false (fun h => nomatch h.ran) (by simp)

theorem isInvokePath_invokePath : isInvokePath (some invokePath) = true := by decide

/-- A request that is addressed to the path is handled alike exactly when it is refused, or names the path itself and
nothing throws but what can be reported, or carries a query and names a handler that is not registered.  What is not
addressed to the path the middleware passes on, and does nothing else with it. -/
theorem invoke_endpoints_iff (req : Request) :
    (addressed req = true →
        (Agree (server fits token registry req) (middleware fits token registry req) ↔
          refused token req = true ∨
            (req.url = some invokePath ∧ Orderly fits registry (rawText req.chunks)) ∨
            (req.url ≠ some invokePath ∧ Unknown fits registry (rawText req.chunks)))) ∧
      (addressed req = false → middleware fits token registry req = { nexts := 1 }) := by
  unfold addressed server middleware
  rw [Bool.and_eq_true,Bool.and_eq_false_iff,decide_eq_true_eq,decide_eq_false_iff_not]
  refine ⟨?_,?_⟩
  · rintro ⟨hmethod,hpath⟩
    simp only [hmethod,hpath,ne_eq,not_true_eq_false,decide_false,Bool.not_true,Bool.or_self,Bool.false_or,
      Bool.false_eq_true,if_false]
    cases hauth : refused token req with
    | true => exact iff_of_true (by simpa using agree_refl rfl) (.inl rfl)
    | false =>
      by_cases hurl : req.url = some invokePath
      · simpa [hurl] using agree_end_iff fits registry (rawText req.chunks)
      · simpa [hurl] using agree_not_found_iff fits registry (rawText req.chunks)
  · rintro (hmethod | hpath)
    · simp [hmethod]
    · simp [hpath]

end

def oneJob : Registry := fun name => if name = js "job" then some fun _ => .returned else none

def post (url body : String) : Request := ⟨"POST",some url,none,[Hex.utf8 body]⟩

theorem invoke_endpoints_job :
    Agree (server (fun _ => true) none oneJob (post invokePath "\x7b\"name\":\"job\"\x7d"))
        (middleware (fun _ => true) none oneJob (post invokePath "\x7b\"name\":\"job\"\x7d")) ∧
      middleware (fun _ => true) none oneJob (post "/jobs" "null") = { nexts := 1 } := by
  have hbody : parsedText (rawText (post invokePath "\x7b\"name\":\"job\"\x7d").chunks) =
      some (.obj [(js "name",.str (js "job"))]) := rfl
  have horderly : Orderly (fun _ => true) oneJob
      (rawText (post invokePath "\x7b\"name\":\"job\"\x7d").chunks) := by
    intro body hmem
    rw [hbody,Option.mem_some_iff] at hmem
    rw [← hmem]
    refine ⟨js "job",rfl,fun _ handler hhandler => ?_⟩
    obtain rfl : (fun _ => Behaviour.returned) = handler := Option.some.inj hhandler
    exact nofun
  exact ⟨((invoke_endpoints_iff _ none oneJob _).1 rfl).mpr (.inr (.inl ⟨rfl,horderly⟩)),
    (invoke_endpoints_iff _ none oneJob _).2 rfl⟩

/-- The value `null` is answered by the server and thrown on by the middleware, and a query is found by the middleware
only. -/
theorem null_body_throws :
    (addressed (post invokePath "null") = true ∧
        (server (fun _ => true) none oneJob (post invokePath "null")).response.map (·.statusCode) = some 400 ∧
        (middleware (fun _ => true) none oneJob (post invokePath "null")).threw = true) ∧
      addressed (post (invokePath ++ "?run=1") "\x7b\"name\":\"job\"\x7d") = true ∧
        (server (fun _ => true) none oneJob (post (invokePath ++ "?run=1") "\x7b\"name\":\"job\"\x7d")).ran = none ∧
        (middleware (fun _ => true) none oneJob (post (invokePath ++ "?run=1") "\x7b\"name\":\"job\"\x7d")).ran =
          some (js "job",none) :=
  ⟨⟨rfl,rfl,rfl⟩,rfl,rfl,rfl⟩

end InvokeEndpoint
end Clearvoiance
