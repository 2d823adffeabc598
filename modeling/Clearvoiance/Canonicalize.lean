import Clearvoiance.DecimalText
import Clearvoiance.JsonEquality
import Clearvoiance.Signature

/-! The SDK's signature under a configuration that leaves out JSON keys and query parameters:
`signature.ts` with `stripKeys`, `canonicalPath` and the parts of `URLSearchParams` it uses. -/
namespace Clearvoiance
namespace Canonicalize

open Json JsonStrings UnicodeCase Signature

structure CanonicalizeConfig where
  ignoreJsonKeys : List JsString := []
  ignoreQueryParams : List String := []
  deriving DecidableEq

def percentDecode : List ℕ → List ℕ
  | [] => []
  | [b] => [b]
  | [b,c] => [b,c]
  | b :: h :: l :: rest =>
    match decide (b = 0x25),hexValue h,hexValue l with
    | true,some x,some y => (16*x+y) :: percentDecode rest
    | _,_,_ => b :: percentDecode (h :: l :: rest)

/-- A name or a value as it stands in a query. -/
def decodePiece (bs : List ℕ) : List Char :=
  (bufferToString (percentDecode (bs.map fun b => if b = 0x2B then 0x20 else b))).map Char.ofNat

def pairOf (piece : List ℕ) : List Char × List Char :=
  (decodePiece (piece.takeWhile (· ≠ 0x3D)),decodePiece ((piece.dropWhile (· ≠ 0x3D)).drop 1))

def searchParams (query : List Char) : List (List Char × List Char) :=
  let text := if query.head? = some '?' then query.drop 1 else query
  (((codes (bytesOf text)).splitOn 0x26).filter (· ≠ [])).map pairOf

def isUnescaped (b : ℕ) : Bool := isDigit b || isLetter b || b = 0x2A || b = 0x2D || b = 0x2E || b = 0x5F

def upperHexDigit (n : ℕ) : Char := if n < 10 then Char.ofNat (0x30+n) else Char.ofNat (0x37+n)

def encodeByte (b : ℕ) : List Char :=
  if b = 0x20 then ['+'] else if isUnescaped b then [Char.ofNat b] else ['%',upperHexDigit (b/16),upperHexDigit (b % 16)]

def encodePiece (s : List Char) : List Char := (codes (bytesOf s)).flatMap encodeByte

/-- `sort()`: by the UTF-16 units of the names, pairs with one name in the order they had. -/
def sortParams (ps : List (List Char × List Char)) : List (List Char × List Char) :=
  ps.insertionSort fun a b => jsLess (utf16 b.1) (utf16 a.1) = false

def paramsText (ps : List (List Char × List Char)) : List Char :=
  ['&'].intercalate (ps.map fun p => encodePiece p.1 ++ '=' :: encodePiece p.2)

def canonicalPath (ignoreParams : List String) (path : List Char) : List Char :=
  if '?' ∉ path || ignoreParams = [] then path
  else
    let base := path.takeWhile (· ≠ '?')
    let params := searchParams ((path.dropWhile (· ≠ '?')).drop 1)
    let rebuilt := paramsText (sortParams (params.filter fun p => !ignoreParams.contains (String.ofList p.1)))
    if rebuilt = [] then base else base ++ '?' :: rebuilt

example : canonicalPath ["ts"] "/a?b=2&%74s=3&a=~+%zz&b=1".toList = "/a?a=%7E+%25zz&b=2&b=1".toList := by decide +kernel

def protoUnits : JsString := utf16 "__proto__".toList

/-- `stripKeys`.  What is assigned to `__proto__` becomes the prototype of the new object or is dropped;
it is no key of the object. -/
def stripKeys {ν : Type} (keys : List JsString) (v : Json JsString ν) : Json JsString ν :=
  removeKeys (fun k => keys.contains k || k = protoUnits) v

/-- What `canonicalBody` keeps of a value. -/
def stripped {ν : Type} (cfg : CanonicalizeConfig) (v : Json JsString ν) : Json JsString ν :=
  if cfg.ignoreJsonKeys = [] then v else stripKeys cfg.ignoreJsonKeys v

def stableStringify (v : Json JsString Binary64) : Bytes := bytesOf (print jsPrinter (arrange jsLess v))

/-- The bytes that `canonicalBody` hashes; a value that does not fit on the stack is hashed as it came. -/
def hashed (fits : Json JsString Binary64 → Bool) (cfg : CanonicalizeConfig) (body : Bytes) (contentType : String) :
    Bytes :=
  if isJson toLowerCase contentType then
    match (jsonParse body).filter fits with
    | some v => stableStringify (stripped cfg v)
    | none => body
  else body

def canonicalBody (fits : Json JsString Binary64 → Bool) (cfg : CanonicalizeConfig) (body : Bytes)
    (contentType : String) : List Char :=
  if body = [] then [] else sha256Hex (hashed fits cfg body contentType)

/-- The bytes that `signatureOf` hashes. -/
def signed (fits : Json JsString Binary64 → Bool) (cfg : CanonicalizeConfig) (i : SignatureInput) : Bytes :=
  bytesOf (joined (toUpperCase i.method.toList) (toLowerCase i.host.toList)
    (canonicalPath cfg.ignoreQueryParams i.path.toList) (canonicalBody fits cfg i.body i.contentType))

def signatureOf (fits : Json JsString Binary64 → Bool) (cfg : CanonicalizeConfig) (i : SignatureInput) : List Char :=
  sha256Hex (signed fits cfg i)

theorem hashed_default (fits : Json JsString Binary64 → Bool) (body : Bytes) (contentType : String) :
    hashed fits {} body contentType = jsHashed fits body contentType := by
  unfold hashed jsHashed jsDocument
  cases (jsonParse body).filter fits <;> rfl

theorem canonicalPath_default (path : List Char) : canonicalPath [] path = path := by
  simp [canonicalPath]

theorem signatureOf_default (fits : Json JsString Binary64 → Bool) (i : SignatureInput) :
    signatureOf fits {} i = Signature.signatureOf fits i := by
  unfold signatureOf Signature.signatureOf signed jsSigned canonicalBody Signature.canonicalBody
  rw [hashed_default,canonicalPath_default]

theorem bar_not_mem_canonicalBody (fits : Json JsString Binary64 → Bool) (cfg : CanonicalizeConfig) (body : Bytes)
    (contentType : String) : '|' ∉ canonicalBody fits cfg body contentType := by
  unfold canonicalBody
  split_ifs
  · simp
  · exact bar_not_mem_sha256Hex _

end Canonicalize
end Clearvoiance
