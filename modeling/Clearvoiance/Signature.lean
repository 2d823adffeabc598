import Clearvoiance.JsonStrings
import Clearvoiance.Sha256
import Clearvoiance.UnicodeCase

/-! The signature of an outbound request, as the engine computes it in Go and as the SDK computes it
in JavaScript.  Both hash method, host, path and a hash of the body, and both parse a JSON body and
hash it again with its keys in order. -/
namespace Clearvoiance
namespace Signature

open Json JsonStrings UnicodeCase

abbrev Bytes := Hex.Bytes

structure SignatureInput where
  method : String
  host : String
  path : String
  body : Bytes
  contentType : String
  deriving DecidableEq

def sha256Hex (bs : Bytes) : List Char := Hex.encodeToString (Sha256.sum256 bs)

def bytesOf (t : List Char) : Bytes := Hex.utf8 (String.ofList t)

def codes (bs : Bytes) : List ℕ := bs.map UInt8.toNat

/-- Lexicographic order of byte strings and of strings of units. -/
def lexLess : List ℕ → List ℕ → Bool
  | [],[] => false
  | [],_ :: _ => true
  | _ :: _,[] => false
  | a :: as,b :: bs => decide (a < b) || (a = b && lexLess as bs)

def goLess (s t : GoString) : Bool := lexLess (codes (bytesOf s)) (codes (bytesOf t))

/-- The order of `Array.prototype.sort`. -/
def jsLess (s t : JsString) : Bool := lexLess (s.map UInt16.toNat) (t.map UInt16.toNat)

/-- `json.Unmarshal` into an `any`: it fails on a text that is not JSON, on more than 10000 levels and
on a number that is too large. -/
def unmarshal (body : Bytes) : Option (Json GoString Binary64) := do
  let raw ← parse (codes body)
  if 10000 < raw.depth then none
  raw.convert goString fun l => (Binary64.ofLiteral l).map .num

/-- `JSON.parse` of the decoded body.  A number that is too large is infinite, which is written as
`null`. -/
def jsonParse (body : Bytes) : Option (Json JsString Binary64) := do
  let raw ← parse ((bufferToString (codes body)).flatMap units)
  raw.convert jsString fun l => some (((Binary64.ofLiteral l).map .num).getD .null)

def goDocument (body : Bytes) : Option (Json GoString Binary64) := (unmarshal body).map (arrange goLess)

/-- The document that `stableStringify` writes; it gives up on values that do not fit on the stack. -/
def jsDocument (fits : Json JsString Binary64 → Bool) (body : Bytes) : Option (Json JsString Binary64) :=
  ((jsonParse body).filter fits).map (arrange jsLess)

def isJson (lower : List Char → List Char) (contentType : String) : Bool :=
  contains (lower contentType.toList) ['j','s','o','n']

/-- The bytes that `bodyHash` hashes. -/
def goHashed (body : Bytes) (contentType : String) : Bytes :=
  if isJson goToLower contentType then
    match goDocument body with
    | some v => bytesOf (print goPrinter v)
    | none => body
  else body

/-- The bytes that `canonicalBody` hashes. -/
def jsHashed (fits : Json JsString Binary64 → Bool) (body : Bytes) (contentType : String) : Bytes :=
  if isJson toLowerCase contentType then
    match jsDocument fits body with
    | some v => bytesOf (print jsPrinter v)
    | none => body
  else body

def bodyHash (body : Bytes) (contentType : String) : List Char :=
  if body = [] then [] else sha256Hex (goHashed body contentType)

def canonicalBody (fits : Json JsString Binary64 → Bool) (body : Bytes) (contentType : String) : List Char :=
  if body = [] then [] else sha256Hex (jsHashed fits body contentType)

/-- The four parts behind one another, with bars between them. -/
def joined (method host path hash : List Char) : List Char := (method ++ '|' :: host ++ '|' :: path) ++ '|' :: hash

/-- The bytes that the engine's `SignatureOf` hashes. -/
def goSigned (i : SignatureInput) : Bytes :=
  bytesOf (joined (goToUpper i.method.toList) (goToLower i.host.toList) i.path.toList (bodyHash i.body i.contentType))

/-- The bytes that the SDK's `signatureOf` hashes, with an empty configuration. -/
def jsSigned (fits : Json JsString Binary64 → Bool) (i : SignatureInput) : Bytes :=
  bytesOf (joined (toUpperCase i.method.toList) (toLowerCase i.host.toList) i.path.toList
    (canonicalBody fits i.body i.contentType))

def goSignatureOf (i : SignatureInput) : List Char := sha256Hex (goSigned i)

def signatureOf (fits : Json JsString Binary64 → Bool) (i : SignatureInput) : List Char := sha256Hex (jsSigned fits i)

def Collision (x y : Bytes) : Prop := x ≠ y ∧ Sha256.sum256 x = Sha256.sum256 y

theorem bytesOf_inj {s t : List Char} : bytesOf s = bytesOf t ↔ s = t := by
  constructor
  · intro h
    exact String.ofList_injective (Hex.utf8_injective h)
  · intro h
    rw [h]

theorem sha256Hex_eq_iff (x y : Bytes) : sha256Hex x = sha256Hex y ↔ x = y ∨ Collision x y := by
  unfold sha256Hex Collision
  rw [Hex.encodeToString_injective.eq_iff]
  constructor
  · intro h
    by_cases hxy : x = y
    · exact .inl hxy
    · exact .inr ⟨hxy,h⟩
  · rintro (rfl | h)
    · rfl
    · exact h.2

theorem sha256Hex_ne_nil (x : Bytes) : sha256Hex x ≠ [] := by
  intro h
  have hlen := congrArg List.length h
  simp [sha256Hex] at hlen

theorem bar_not_mem_sha256Hex (x : Bytes) : '|' ∉ sha256Hex x :=
  fun h => Hex.ne_of_mem_encodeToString h rfl

theorem bar_not_mem_bodyHash (body : Bytes) (contentType : String) : '|' ∉ bodyHash body contentType := by
  unfold bodyHash
  split_ifs
  · simp
  · exact bar_not_mem_sha256Hex _

theorem bar_not_mem_canonicalBody (fits : Json JsString Binary64 → Bool) (body : Bytes) (contentType : String) :
    '|' ∉ canonicalBody fits body contentType := by
  unfold canonicalBody
  split_ifs
  · simp
  · exact bar_not_mem_sha256Hex _

/-- Two signed texts agree if what stands before the body hash agrees and the body hashes do. -/
theorem signed_eq_iff (fits : Json JsString Binary64 → Bool) (i j : SignatureInput) :
    goSigned i = jsSigned fits j ↔
      goToUpper i.method.toList ++ '|' :: goToLower i.host.toList ++ '|' :: i.path.toList =
        toUpperCase j.method.toList ++ '|' :: toLowerCase j.host.toList ++ '|' :: j.path.toList ∧
      bodyHash i.body i.contentType = canonicalBody fits j.body j.contentType := by
  rw [goSigned,jsSigned,bytesOf_inj]
  constructor
  · intro h
    exact Hex.append_separator_inj (bar_not_mem_bodyHash _ _) (bar_not_mem_canonicalBody _ _ _) h
  · rintro ⟨hfront,hhash⟩
    rw [joined,joined,hfront,hhash]

/-- For one method and host the two fronts agree exactly when the two case mappings and the paths do. -/
theorem front_eq_iff (method host path path' : List Char) :
    goToUpper method ++ '|' :: goToLower host ++ '|' :: path =
      toUpperCase method ++ '|' :: toLowerCase host ++ '|' :: path' ↔
    ((∀ c ∈ method, ¬ SpecialUpper c) ∧ PlainLower [] host) ∧ path = path' := by
  simp only [List.append_assoc,List.cons_append]
  constructor
  · intro h
    have hmethod := plainUpper_of_append h
    rw [(toUpperCase_eq_goToUpper_iff method).mpr hmethod,List.append_cancel_left_eq,List.cons.injEq] at h
    have hhost := plainLower_of_append h.2
    have hrest := h.2
    rw [(toLowerCase_eq_goToLower_iff host).mpr hhost,List.append_cancel_left_eq,List.cons.injEq] at hrest
    exact ⟨⟨hmethod,hhost⟩,hrest.2⟩
  · rintro ⟨⟨hmethod,hhost⟩,rfl⟩
    rw [(toUpperCase_eq_goToUpper_iff method).mpr hmethod,(toLowerCase_eq_goToLower_iff host).mpr hhost]

/-- The two languages hash the same bytes of a body. -/
def BodyAgrees (fits : Json JsString Binary64 → Bool) (body : Bytes) (contentType : String) : Prop :=
  body = [] ∨ isJson goToLower contentType = false ∨
    match goDocument body,jsDocument fits body with
    | none,none => True
    | some v,some w => Alike SameString SameNumber v w
    | some v,none => bytesOf (print goPrinter v) = body
    | none,some w => body = bytesOf (print jsPrinter w)

theorem print_eq_iff_alike (v : Json GoString Binary64) (w : Json JsString Binary64) :
    print goPrinter v = print jsPrinter w ↔ Alike SameString SameNumber v w :=
  Json.print_eq_iff goPrinter jsPrinter quote_eq_iff number_eq_iff v w

theorem hashed_eq_iff (fits : Json JsString Binary64 → Bool) {body : Bytes} (hbody : body ≠ []) (contentType : String) :
    goHashed body contentType = jsHashed fits body contentType ↔ BodyAgrees fits body contentType := by
  have hjson : isJson toLowerCase contentType = isJson goToLower contentType := contains_json _
  unfold goHashed jsHashed BodyAgrees
  rw [hjson]
  cases hj : isJson goToLower contentType with
  | false => simp
  | true =>
    simp only [hbody,false_or,if_true,Bool.true_eq_false]
    cases goDocument body with
    | none => cases jsDocument fits body <;> simp
    | some v =>
      cases jsDocument fits body with
      | none => simp
      | some w =>
        simp only [bytesOf_inj]
        exact print_eq_iff_alike v w

def Agrees (fits : Json JsString Binary64 → Bool) (i : SignatureInput) : Prop :=
  (∀ c ∈ i.method.toList, ¬ SpecialUpper c) ∧ PlainLower [] i.host.toList ∧ BodyAgrees fits i.body i.contentType

/-- The two signatures come from different texts with one digest. -/
def Collides (fits : Json JsString Binary64 → Bool) (i : SignatureInput) : Prop :=
  Collision (goSigned i) (jsSigned fits i) ∨
    (∀ c ∈ i.method.toList, ¬ SpecialUpper c) ∧ PlainLower [] i.host.toList ∧ i.body ≠ [] ∧
      Collision (goHashed i.body i.contentType) (jsHashed fits i.body i.contentType)

theorem bodyHash_eq_iff (fits : Json JsString Binary64 → Bool) (body : Bytes) (contentType : String) :
    bodyHash body contentType = canonicalBody fits body contentType ↔
      BodyAgrees fits body contentType ∨
        body ≠ [] ∧ Collision (goHashed body contentType) (jsHashed fits body contentType) := by
  unfold bodyHash canonicalBody
  by_cases hbody : body = []
  · simp [hbody,BodyAgrees]
  · rw [if_neg hbody,if_neg hbody,sha256Hex_eq_iff,hashed_eq_iff fits hbody]
    simp [hbody]

/-- Engine and SDK give one request the same signature exactly when they agree on its case mappings
and on its body, SHA-256 collisions apart. -/
theorem signature_parity_iff (fits : Json JsString Binary64 → Bool) (i : SignatureInput) :
    goSignatureOf i = signatureOf fits i ↔ Agrees fits i ∨ Collides fits i := by
  rw [goSignatureOf,signatureOf,sha256Hex_eq_iff,signed_eq_iff,front_eq_iff,bodyHash_eq_iff]
  unfold Agrees Collides
  simp only [and_true]
  rw [and_or_left,or_assoc,and_assoc,and_assoc]
  exact or_congr_right or_comm

example : goSignatureOf ⟨"GET","api.example.com","/v1/ping",[],""⟩ =
    "d742c96df79084737fe2997c202b3daa20fdc081479e92a187e9f21d02e1aac3".toList := by decide +kernel

/-- A JSON body that is the number `-0`. -/
def negativeZero : SignatureInput :=
  ⟨"POST","api.example.com","/v1/ping",Hex.utf8 "-0","application/json"⟩

/-- The engine hashes `-0` and the SDK hashes `0`. -/
theorem negativeZero_not_parity : goHashed negativeZero.body negativeZero.contentType = Hex.utf8 "-0" ∧
    jsHashed (fun _ => true) negativeZero.body negativeZero.contentType = Hex.utf8 "0" ∧
    goSignatureOf negativeZero ≠ signatureOf (fun _ => true) negativeZero := by
  refine ⟨?_,?_,?_⟩
  · decide +kernel
  · decide +kernel
  · decide +kernel

end Signature
end Clearvoiance
