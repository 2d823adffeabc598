import Clearvoiance.Hex
import Clearvoiance.Utf16

/-! The bytes of a string in each of the encodings that a buffer or a stream takes.  Only UTF-8 and UTF-16 keep every
string apart; the others drop the upper half of a unit or read the string as digits. -/
namespace Clearvoiance
namespace BufferEncodings

open JsonStrings (JsString GoString ofUtf16 utf16)
open Hex (Bytes)

inductive Encoding
  | utf8 | utf16le | latin1 | ascii | hex | base64 | base64url
  deriving DecidableEq

/-- The names, which are taken without regard to case. -/
def names : List (String × Encoding) :=
  [("utf8",.utf8),("utf-8",.utf8),("hex",.hex),("ascii",.ascii),("latin1",.latin1),("binary",.latin1),
    ("base64",.base64),("base64url",.base64url),("ucs2",.utf16le),("ucs-2",.utf16le),("utf16le",.utf16le),
    ("utf-16le",.utf16le)]

def encodingOf (name : JsString) : Option Encoding :=
  names.lookup (String.ofList ((ofUtf16 name).map Char.toLower))

def utf8Bytes (s : JsString) : Bytes := Hex.utf8 (String.ofList (ofUtf16 s))

def lowByte (x : UInt16) : UInt8 := UInt8.ofNat (x.toNat % 256)

def highByte (x : UInt16) : UInt8 := UInt8.ofNat (x.toNat/256)

def hexDigit (x : UInt16) : Option ℕ :=
  let n := x.toNat
  if 48 ≤ n ∧ n ≤ 57 then some (n-48)
  else if 65 ≤ n ∧ n ≤ 70 then some (n-55)
  else if 97 ≤ n ∧ n ≤ 102 then some (n-87)
  else none

/-- Pairs of digits, up to the first pair that is none. -/
def fromHex : JsString → Bytes
  | x :: y :: t =>
    match hexDigit x,hexDigit y with
    | some a,some b => UInt8.ofNat (16*a+b) :: fromHex t
    | _,_ => []
  | _ => []

/-- Both alphabets are read. -/
def base64Value (x : UInt16) : Option ℕ :=
  let n := x.toNat
  if 65 ≤ n ∧ n ≤ 90 then some (n-65)
  else if 97 ≤ n ∧ n ≤ 122 then some (n-71)
  else if 48 ≤ n ∧ n ≤ 57 then some (n+4)
  else if n = 43 ∨ n = 45 then some 62
  else if n = 47 ∨ n = 95 then some 63
  else none

/-- The digits in front of the padding; what is no digit is skipped. -/
def sextets (s : JsString) : List ℕ := (s.takeWhile (·.toNat ≠ 61)).filterMap base64Value

def fromSextets : List ℕ → Bytes
  | a :: b :: c :: d :: t =>
    UInt8.ofNat (a*4+b/16) :: UInt8.ofNat (b % 16*16+c/4) :: UInt8.ofNat (c % 4*64+d) :: fromSextets t
  | [a,b,c] => [UInt8.ofNat (a*4+b/16),UInt8.ofNat (b % 16*16+c/4)]
  | [a,b] => [UInt8.ofNat (a*4+b/16)]
  | _ => []

def fromBase64 (s : JsString) : Bytes := fromSextets (sextets s)

/-- `Buffer.from` of a string. -/
def encode : Encoding → JsString → Bytes
  | .utf8,s => utf8Bytes s
  | .utf16le,s => s.flatMap fun x => [lowByte x,highByte x]
  | .latin1,s | .ascii,s => s.map lowByte
  | .hex,s => fromHex s
  | .base64,s | .base64url,s => fromBase64 s

theorem utf8Bytes_utf16 (s : GoString) : utf8Bytes (utf16 s) = Hex.utf8 (String.ofList s) := by
  rw [utf8Bytes,JsonStrings.ofUtf16_utf16]

end BufferEncodings
end Clearvoiance
