import Clearvoiance.AuthCallback
import Clearvoiance.JobInvocation
import Clearvoiance.JsonMembers
import Clearvoiance.Mutator
import Clearvoiance.Sha256

/-! The auth strategy that signs a captured token again with fresh dates.  All claims are decoded and encoded again;
they are preserved exactly when their strings are Unicode and their numbers are values that some `float64` is written
as. -/
namespace Clearvoiance
namespace JwtResign

open Json JsonStrings Utf8Text
open Signature (Bytes bytesOf codes goLess)
open SignatureEquality (Finite)
open Mutator (unmarshal exactly written WellFormed)
open Dispatchers (Request)

/-- The JWT library: the payload of a token that is signed with HS256 under a key, and the token of a payload; the
texts are those of the library's errors. -/
structure Jwt where
  verify : Bytes → String → Except String Bytes
  sign : Bytes → Bytes → Except String String
  claimsError : Bytes → String

structure Jwt.Correct (j : Jwt) : Prop where
  signed : ∀ key payload, ∃ token, j.sign key payload = .ok token ∧ j.verify key token = .ok payload
  empty : ∀ key payload, j.verify key "" ≠ .ok payload

structure AuthJWTResign where
  header : String
  tokenPrefix : String
  signingKey : Bytes
  freshExpiry : ℤ

/-- What a claim's number is: decoded from the token, or a time in seconds. -/
inductive Number
  | float (x : Finite)
  | int (n : ℤ)

abbrev Claims := List (GoString × Json GoString Number)

/-- `json.Unmarshal` into a map. -/
def decodeClaims (payload : Bytes) : Option Claims :=
  match unmarshal payload with
  | some (.obj ms) => some (mapMembers id .float ms)
  | some .null => some []
  | some _ | none => none

def setClaim (key : GoString) (v : Json GoString Number) (claims : Claims) : Claims :=
  claims.filter (·.1 ≠ key) ++ [(key,v)]

def claimsPrinter : Printer GoString Number where
  string := marshalQuote
  number
    | .float x => goNumber x.val
    | .int n => (toString n).toList
  string_safe := safe_marshalQuote
  number_text
    | .float x => Binary64.signed_text _ x.val
    | .int n => JobInvocation.int_text n

def marshalClaims (claims : Claims) : Bytes := bytesOf (print claimsPrinter (arrange goLess (.obj claims)))

def iat : GoString := ['i','a','t']

def exp : GoString := ['e','x','p']

/-- `Unix()` of a time in nanoseconds. -/
def unix (t : ℤ) : ℤ := t/10^9

def hour : ℤ := 3600*10^9

def redate (now freshExpiry : ℤ) (claims : Claims) : Claims :=
  let freshExpiry := if freshExpiry = 0 then hour else freshExpiry
  setClaim exp (.num (.int (unix (now+freshExpiry)))) (setClaim iat (.num (.int (unix now))) claims)

namespace AuthJWTResign

def headerName (a : AuthJWTResign) : String := if a.header = "" then "Authorization" else a.header

def token (a : AuthJWTResign) (raw : String) : String :=
  if a.tokenPrefix ≠ "" ∧ a.tokenPrefix.toList.isPrefixOf raw.toList = true then
    String.ofList (raw.toList.drop a.tokenPrefix.toList.length)
  else raw

def apply (j : Jwt) (now : ℤ) (a : AuthJWTResign) (req : Request) : Except String Request :=
  let raw := AuthCallback.header req a.headerName
  if raw = "" then .ok req
  else
    match j.verify a.signingKey (a.token raw) with
    | .error err => .error ("parse jwt: " ++ err)
    | .ok payload =>
      match decodeClaims payload with
      | none => .error ("parse jwt: " ++ j.claimsError payload)
      | some claims =>
        match j.sign a.signingKey (marshalClaims (redate now a.freshExpiry claims)) with
        | .error err => .error ("sign jwt: " ++ err)
        | .ok signed => .ok { req with header := req.header.set a.headerName (a.tokenPrefix ++ signed) }

/-- The request has the token behind the prefix, or on its own. -/
def Carries (a : AuthJWTResign) (req : Request) (token : String) : Prop :=
  AuthCallback.header req a.headerName = a.tokenPrefix ++ token ∨
    AuthCallback.header req a.headerName = token ∧ a.tokenPrefix.toList.isPrefixOf token.toList = false

end AuthJWTResign

def isDate (k : List ℕ) : Bool := k = encode iat || k = encode exp

def SameClaims (D D' : Json (List ℕ) ℚ) : Prop :=
  ∃ ms ns, D = .obj ms ∧ D' = .obj ns ∧ Framed [] (.obj (without isDate ms)) (.obj (without isDate ns))

/-- The header is replaced by the prefix and a token with the same claims. -/
def AuthJWTResign.Resigns (a : AuthJWTResign) (j : Jwt) (now : ℤ) (req : Request) (D : Json (List ℕ) ℚ) : Prop :=
  ∃ token payload D', a.apply j now req =
      .ok { req with header := req.header.set a.headerName (a.tokenPrefix ++ token) } ∧
    j.verify a.signingKey token = .ok payload ∧ exactly payload = some D' ∧ SameClaims D D'

/-- A payload that is decoded, and whose claims but for the dates are text and numbers that can be written. -/
def Preservable (payload : Bytes) (D : Json (List ℕ) ℚ) : Prop :=
  (∃ raw, parse (codes payload) = some raw ∧ raw.depth ≤ 10000 ∧
    Numeric (fun l => (Binary64.ofLiteral l).isSome = true) raw) ∧
  ∃ ms, D = .obj ms ∧ Within WellFormed Binary64.Written [] (.obj (without isDate ms))

section Writing

def claimsReading : Reading claimsPrinter encodeChar where
  items := marshalItems encodeChar
  literal
    | .float x => Binary64.textLiteral x.val.neg x.val
    | .int n => JobInvocation.intLiteral n
  plain := coding_encodeChar.plain
  string := coding_encodeChar.lex_marshalQuote
  number
    | .float x => Binary64.classify_magnitude x.val x.val.neg
    | .int n => JobInvocation.classify_int n

def Number.exact : Number → ℚ
  | .float x => Binary64.printedValue x.val
  | .int n => n

theorem exactNumber_int (n : ℤ) : Binary64.exactNumber (JobInvocation.intLiteral n) = n := by
  have hcoeff : Nat.ofDigitChars 10 (Nat.toDigits 10 n.natAbs ++ []) 0 = n.natAbs := by
    rw [List.append_nil,Nat.ofDigitChars_ten_toDigits]
  rw [Binary64.exactNumber,Binary64.absValue,JobInvocation.intLiteral,Binary64.Parts.literal,JobInvocation.digitParts]
  simp only [hcoeff,Option.getD_none,List.length_nil,Nat.cast_zero,sub_zero,zpow_zero,mul_one,decide_eq_true_eq]
  split_ifs with hneg
  · rw [neg_one_mul]
    have hnat : (n.natAbs : ℤ) = -n := Int.ofNat_natAbs_of_nonpos hneg.le
    rw [← Int.cast_natCast,hnat,Int.cast_neg,neg_neg]
  · rw [one_mul]
    have hnat : (n.natAbs : ℤ) = n := Int.natAbs_of_nonneg (not_lt.mp hneg)
    rw [← Int.cast_natCast,hnat]

theorem exact_literal (x : Number) : Binary64.exactNumber (claimsReading.literal x) = x.exact := by
  cases x with
  | float x => exact Binary64.exactNumber_textLiteral x.val
  | int n => exact exactNumber_int n

theorem exactly_print (v : Json GoString Number) :
    exactly (bytesOf (print claimsPrinter v)) = some (map encode Number.exact v) := by
  have hbytes : codes (bytesOf (print claimsPrinter v)) = (print claimsPrinter v).flatMap encodeChar := utf8_ofList _
  rw [exactly,hbytes,claimsReading.parse_print,Option.map_some,Reading.raw,map_map]
  have hstring : exactString ∘ claimsReading.items = encode := funext exactString_marshalItems
  have hnumber : Binary64.exactNumber ∘ claimsReading.literal = Number.exact := funext exact_literal
  rw [hstring,hnumber]

end Writing

section Claims

def isDateKey (k : GoString) : Bool := k = iat || k = exp

theorem isDate_encode (k : GoString) : isDate (encode k) = isDateKey k := by
  simp only [isDate,isDateKey,encode_injective.eq_iff]

/-- A key is read as one of the dates only if it is one. -/
theorem isDate_exact (items : List Item) (k : GoString) (h : goString items = k) :
    isDate (exactString items) = isDateKey k := by
  have hdate : ∀ d ∈ [iat,exp], d.all (fun c => c.toNat < 0x80 ∧ c.toNat ≠ 0) = true := by decide
  have hiff : ∀ d ∈ [iat,exp], exactString items = encode d ↔ k = d := by
    intro d hd
    constructor
    · exact fun hexact => h.symm.trans (goString_of_exact hexact)
    · rintro rfl
      exact exact_of_goString (fun c hc => by simpa using List.all_eq_true.mp (hdate _ hd) c hc) h
  simp only [isDate,isDateKey,hiff iat (by simp),hiff exp (by simp)]

theorem without_redate (now freshExpiry : ℤ) (claims : Claims) :
    without isDateKey (redate now freshExpiry claims) = without isDateKey claims := by
  have hiat : isDateKey iat = true := rfl
  have hexp : isDateKey exp = true := rfl
  rw [redate,setClaim,setClaim,without_replaced hexp,without_replaced hiat]

/-- The members of a decoded payload agree with those of the payload where they can be written. -/
theorem unmarshal_obj {payload : Bytes} {doc : Json GoString Finite} (h : unmarshal payload = some doc)
    {ms : List (List ℕ × Json (List ℕ) ℚ)} (hobj : exactly payload = some (.obj ms)) :
    ∃ vs, doc = .obj vs ∧ (Framed [] (.obj (without isDate ms)) (written (.obj (without isDateKey vs))) ↔
      Within WellFormed Binary64.Written [] (.obj (without isDate ms))) := by
  obtain ⟨raw,v,hraw,rfl,hvalues⟩ := Mutator.unmarshal_eq_some h
  rw [exactly,hraw,Option.map_some,Option.some.injEq] at hobj
  cases raw with
  | obj rs =>
    rw [map,Json.obj.injEq] at hobj
    cases v with
    | obj us =>
      have hraws : Json.obj (without isDate ms) =
          map exactString Binary64.exactNumber (.obj (without (fun items => isDate (exactString items)) rs)) := by
        rw [map,← hobj,mapMembers_without fun _ => rfl]
      have halike := alike_without (p := fun items => isDate (exactString items)) (q := isDateKey) isDate_exact
        hvalues
      have harrange := framed_arrange goLess [] (.obj us)
      rw [arrange] at harrange ⊢
      have hframed := (framed_without isDateKey harrange).map (g := fun x : Finite => Binary64.printedValue x.val)
        encode_injective
      refine ⟨_,rfl,?_⟩
      rw [hraws,← Mutator.framed_written_iff halike]
      exact ⟨fun h => h.trans hframed.symm,fun h => h.trans hframed⟩
    | _ => simp [Alike] at hvalues
  | _ => simp [map] at hobj

/-- What the claims are written as, but for the dates, is what was decoded. -/
theorem sameClaims_iff (now freshExpiry : ℤ) (vs : List (GoString × Json GoString Finite))
    (ms : List (List ℕ × Json (List ℕ) ℚ)) :
    (∃ D', exactly (marshalClaims (redate now freshExpiry (mapMembers id .float vs))) = some D' ∧
      SameClaims (.obj ms) D') ↔ Framed [] (.obj (without isDate ms)) (written (.obj (without isDateKey vs))) := by
  have hkept : mapMembers encode Number.exact (without isDateKey (redate now freshExpiry (mapMembers id .float vs))) =
      mapMembers encode (fun x : Finite => Binary64.printedValue x.val) (without isDateKey vs) := by
    have hobj := map_map id Number.float encode Number.exact (.obj (without isDateKey vs))
    rw [map,map,map,Json.obj.injEq] at hobj
    have hfloat := mapMembers_without (f := id) (p := isDateKey) (q := isDateKey) (fun _ => rfl) Number.float vs
    rw [without_redate,← hfloat]
    exact hobj
  have harrange := framed_arrange goLess [] (.obj (redate now freshExpiry (mapMembers id .float vs)))
  rw [marshalClaims,exactly_print]
  rw [arrange] at harrange ⊢
  generalize sortMembers goLess _ = sorted at harrange ⊢
  have hframed := (framed_without isDateKey harrange).map (g := Number.exact) encode_injective
  rw [map,map,hkept,mapMembers_without isDate_encode Number.exact sorted] at hframed
  constructor
  · rintro ⟨D',hD',ms',ns',hms,hns,hsame⟩
    cases hms
    cases hD'
    rw [map,Json.obj.injEq] at hns
    rw [← hns] at hsame
    exact hsame.trans hframed.symm
  · exact fun hsame => ⟨_,rfl,ms,_,rfl,rfl,hsame.trans hframed⟩

end Claims

section Apply

variable {j : Jwt} {now : ℤ} {a : AuthJWTResign} {req : Request} {token : String} {payload : Bytes}

theorem token_eq (h : a.Carries req token) : a.token (AuthCallback.header req a.headerName) = token := by
  unfold AuthJWTResign.token
  rcases h with h | ⟨h,hbare⟩
  · rw [h,String.toList_append]
    have hstarts : a.tokenPrefix.toList.isPrefixOf (a.tokenPrefix.toList ++ token.toList) = true :=
      List.isPrefixOf_iff_prefix.mpr (List.prefix_append _ _)
    rw [hstarts,List.drop_left,String.ofList_toList]
    split_ifs with hne
    · rfl
    · have hempty : a.tokenPrefix = "" := by simpa using hne
      rw [hempty,String.empty_append]
  · rw [h,hbare,if_neg (by simp)]

theorem header_ne (hj : j.Correct) (h : a.Carries req token) (hverify : j.verify a.signingKey token = .ok payload) :
    AuthCallback.header req a.headerName ≠ "" := by
  have hne : token ≠ "" := by
    rintro rfl
    exact hj.empty _ _ hverify
  rcases h with h | ⟨h,-⟩
  · rw [h]
    intro hempty
    have hnil := congrArg String.toList hempty
    rw [String.toList_append,String.toList_empty,List.append_eq_nil_iff] at hnil
    exact hne (String.toList_inj.mp (hnil.2.trans String.toList_empty.symm))
  · rwa [h]

theorem apply_eq (hj : j.Correct) (h : a.Carries req token) (hverify : j.verify a.signingKey token = .ok payload) :
    a.apply j now req =
      match decodeClaims payload with
      | none => .error ("parse jwt: " ++ j.claimsError payload)
      | some claims =>
        match j.sign a.signingKey (marshalClaims (redate now a.freshExpiry claims)) with
        | .error err => .error ("sign jwt: " ++ err)
        | .ok signed => .ok { req with header := req.header.set a.headerName (a.tokenPrefix ++ signed) } := by
  unfold AuthJWTResign.apply
  simp only [if_neg (header_ne hj h hverify),token_eq h,hverify]

/-- The token that is set is the one that was signed. -/
theorem resigns_iff (hj : j.Correct) (h : a.Carries req token) (hverify : j.verify a.signingKey token = .ok payload)
    {claims : Claims} (hclaims : decodeClaims payload = some claims) (D : Json (List ℕ) ℚ) :
    a.Resigns j now req D ↔
      ∃ D', exactly (marshalClaims (redate now a.freshExpiry claims)) = some D' ∧ SameClaims D D' := by
  obtain ⟨signed,hsigned,hback⟩ := hj.signed a.signingKey (marshalClaims (redate now a.freshExpiry claims))
  have happly : a.apply j now req =
      .ok { req with header := req.header.set a.headerName (a.tokenPrefix ++ signed) } := by
    rw [apply_eq hj h hverify,hclaims]
    simp only [hsigned]
  constructor
  · rintro ⟨token',payload',D',hset,hverify',hexact,hsame⟩
    have htoken : token' = signed := by
      rw [happly,Except.ok.injEq,Request.mk.injEq] at hset
      have hvalue : [(_,[a.tokenPrefix ++ signed])] = [(_,[a.tokenPrefix ++ token'])] :=
        List.append_cancel_left hset.2.2.1
      simp only [List.cons.injEq,Prod.mk.injEq,and_true,true_and] at hvalue
      have hlist := congrArg String.toList hvalue
      rw [String.toList_append,String.toList_append] at hlist
      exact (String.toList_inj.mp (List.append_cancel_left hlist)).symm
    rw [htoken,hback] at hverify'
    cases hverify'
    exact ⟨D',hexact,hsame⟩
  · rintro ⟨D',hexact,hsame⟩
    exact ⟨signed,_,D',happly,hback,hexact,hsame⟩

end Apply

section Hs256

open Dispatchers.Invoke (base64Digit encodeToString)
open BufferEncodings (sextets fromBase64)

def urlDigit (c : Char) : Char := if c = '+' then '-' else if c = '/' then '_' else c

def unpadded (s : List Char) : List Char := (s.filter (· ≠ '=')).map urlDigit

/-- `base64.RawURLEncoding.EncodeToString` -/
def rawURL (raw : Bytes) : List Char := unpadded (encodeToString raw)

/-- HMAC with SHA-256 and its blocks of 64 bytes. -/
def hmac (key message : Bytes) : Bytes :=
  let key : Bytes := if 64 < key.length then Sha256.sum256 key else key
  let key : Bytes := key ++ List.replicate (64-key.length) 0
  Sha256.sum256 (key.map (· ^^^ 0x5c) ++ Sha256.sum256 (key.map (· ^^^ 0x36) ++ message))

def hs256Header : Bytes := Hex.utf8 "\x7b\"alg\":\"HS256\",\"typ\":\"JWT\"\x7d"

def signature (key : Bytes) (header payload : List Char) : List Char :=
  rawURL (hmac key (Hex.utf8 (String.ofList (header ++ '.' :: payload))))

/-- Tokens with the header that the library writes for HS256. -/
def hs256 : Jwt where
  sign key payload :=
    let header := rawURL hs256Header
    .ok (String.ofList (header ++ '.' :: (rawURL payload ++ '.' :: signature key header (rawURL payload))))
  verify key token :=
    match token.toList.splitOn '.' with
    | [header,payload,sig] =>
      if fromBase64 (header.map unitOf) ≠ hs256Header then
        .error "token signature is invalid: signing method is invalid"
      else if sig ≠ signature key header payload then .error "token signature is invalid: signature is invalid"
      else .ok (fromBase64 (payload.map unitOf))
    | _ => .error "token is malformed: token contains an invalid number of segments"
  claimsError _ := "token is malformed: could not JSON decode claim"

theorem urlDigit_spec : ∀ n < 64, base64Digit n ≠ '=' ∧ urlDigit (base64Digit n) ≠ '.' ∧
    (unitOf (urlDigit (base64Digit n))).toNat ≠ 61 ∧
    BufferEncodings.base64Value (unitOf (urlDigit (base64Digit n))) = some n := by decide

/-- Without padding, the same digits are read, and no point is written. -/
def SameDigits (s : List Char) : Prop := sextets ((unpadded s).map unitOf) = sextets (s.map unitOf) ∧ '.' ∉ unpadded s

theorem SameDigits.cons {s : List Char} (h : SameDigits s) {n : ℕ} (hn : n < 64) :
    SameDigits (base64Digit n :: s) := by
  obtain ⟨hpad,hpoint,hend,hvalue⟩ := urlDigit_spec n hn
  have hunpadded : unpadded (base64Digit n :: s) = urlDigit (base64Digit n) :: unpadded s := by
    rw [unpadded,List.filter_cons_of_pos (by simpa using hpad),List.map_cons]
    rfl
  refine ⟨?_,?_⟩
  · rw [hunpadded,List.map_cons,List.map_cons,JobInvocation.sextets_digit hn,← h.1,sextets,
      List.takeWhile_cons_of_pos (by simpa using hend),List.filterMap_cons_some hvalue]
    rfl
  · rw [hunpadded,List.mem_cons]
    rintro (heq | hmem)
    · exact hpoint heq.symm
    · exact h.2 hmem

theorem sameDigits_encodeToString : ∀ raw : Bytes, SameDigits (encodeToString raw)
  | a :: b :: c :: rest => by
    have ha := a.toNat_lt
    have hb := b.toNat_lt
    have hc := c.toNat_lt
    have hrest := sameDigits_encodeToString rest
    exact (((hrest.cons (by omega)).cons (by omega)).cons (by omega)).cons (by omega)
  | [a,b] => by
    have ha := a.toNat_lt
    have hb := b.toNat_lt
    have hpad : SameDigits ['='] := ⟨rfl,by decide⟩
    exact ((hpad.cons (by omega)).cons (by omega)).cons (by omega)
  | [a] => by
    have ha := a.toNat_lt
    have hpad : SameDigits ['=','='] := ⟨rfl,by decide⟩
    exact (hpad.cons (by omega)).cons (by omega)
  | [] => ⟨rfl,by decide⟩

theorem fromBase64_rawURL (raw : Bytes) : fromBase64 ((rawURL raw).map unitOf) = raw := by
  have hread := JobInvocation.fromSextets_encodeToString raw
  rw [fromBase64] at hread ⊢
  rw [rawURL,(sameDigits_encodeToString raw).1,hread]

theorem point_notMem_rawURL (raw : Bytes) : '.' ∉ rawURL raw := (sameDigits_encodeToString raw).2

theorem hs256_correct : hs256.Correct where
  signed key payload := by
    refine ⟨_,rfl,?_⟩
    have hsplit : ∀ h p s : List Char, '.' ∉ h → '.' ∉ p → '.' ∉ s →
        (h ++ '.' :: (p ++ '.' :: s)).splitOn '.' = [h,p,s] := by
      intro h p s hh hp hs
      rw [List.splitOn_append_cons_self,List.splitOn_append_cons_self,List.splitOn_eq_singleton hh,
        List.splitOn_eq_singleton hp,List.splitOn_eq_singleton hs]
      rfl
    have hsig : '.' ∉ signature key (rawURL hs256Header) (rawURL payload) := point_notMem_rawURL _
    simp only [hs256,String.toList_ofList]
    rw [hsplit _ _ _ (point_notMem_rawURL _) (point_notMem_rawURL _) hsig]
    simp only [fromBase64_rawURL]
    simp
  empty key payload := by
    simp [hs256]

end Hs256

/-- A signed token is replaced by one with the same claims, but for the dates, exactly when its payload is decoded and
its other claims can be written. -/
theorem claims_preserved_iff {j : Jwt} (hj : j.Correct) (now : ℤ) (a : AuthJWTResign) {req : Request} {token : String}
    {payload : Bytes} (hcarries : a.Carries req token) (hverify : j.verify a.signingKey token = .ok payload)
    {ms : List (List ℕ × Json (List ℕ) ℚ)} (hobj : exactly payload = some (.obj ms)) :
    a.Resigns j now req (.obj ms) ↔ Preservable payload (.obj ms) := by
  cases hdoc : unmarshal payload with
  | none =>
    have hclaims : decodeClaims payload = none := by rw [decodeClaims,hdoc]
    refine iff_of_false ?_ ?_
    · rintro ⟨token',payload',D',hset,-⟩
      rw [apply_eq hj hcarries hverify,hclaims] at hset
      cases hset
    · rintro ⟨hdecoded,-⟩
      rw [← Mutator.isSome_unmarshal_iff,hdoc] at hdecoded
      cases hdecoded
  | some doc =>
    obtain ⟨vs,rfl,hiff⟩ := unmarshal_obj hdoc hobj
    have hclaims : decodeClaims payload = some (mapMembers id .float vs) := by rw [decodeClaims,hdoc]
    rw [resigns_iff hj hcarries hverify hclaims,sameClaims_iff,hiff,Preservable,← Mutator.isSome_unmarshal_iff,hdoc]
    constructor
    · exact fun h => ⟨rfl,ms,rfl,h⟩
    · rintro ⟨-,ms',hms,h⟩
      cases hms
      exact h

def bearer : AuthJWTResign := ⟨"","Bearer ",Hex.utf8 "staging-signing-key",0⟩

def bearing (token : String) : Request := ⟨"GET","http://example/x",[("Authorization",["Bearer " ++ token])],[]⟩

theorem bearing_carries (token : String) : bearer.Carries (bearing token) token := by
  have hname : Dispatchers.canonicalMIMEHeaderKey "Authorization" = "Authorization" := by decide +kernel
  left
  simp [AuthCallback.header,AuthJWTResign.headerName,bearer,bearing,Dispatchers.Header.get,hname]

def adminClaims : Bytes := Hex.utf8 "\x7b\"sub\":\"u-42\",\"role\":\"admin\",\"exp\":7\x7d"

theorem claims_preserved_iff_admin : ∃ token D, hs256.verify bearer.signingKey token = .ok adminClaims ∧
    exactly adminClaims = some D ∧ bearer.Resigns hs256 0 (bearing token) D := by
  obtain ⟨token,-,hverify⟩ := hs256_correct.signed bearer.signingKey adminClaims
  let claims : List (GoString × Json GoString Finite) := [("sub".toList,.str "u-42".toList),
    ("role".toList,.str "admin".toList)]
  have hexact : exactly adminClaims = some (.obj (mapMembers encode (fun x => Binary64.printedValue x.val) claims ++
    [(encode exp,Json.num (Binary64.exactNumber ⟨false,7,0⟩))])) := rfl
  refine ⟨token,_,hverify,hexact,?_⟩
  refine (claims_preserved_iff hs256_correct 0 bearer (bearing_carries token) hverify hexact).mpr ⟨?_,_,rfl,?_⟩
  · exact Mutator.isSome_unmarshal_iff.mp (by decide +kernel)
  · exact within_map (fun s => ⟨s,rfl⟩) (fun x : Finite => ⟨x.val,x.property,rfl⟩) [] (.obj claims)

/-- A user whose id is no `float64`. -/
def largeUid : Bytes := Hex.utf8 "\x7b\"sub\":\"u\",\"uid\":9007199254740993\x7d"

def uidKey : List ℕ := encode "uid".toList

def roundedUid : Bytes := Hex.utf8 "\x7b\"exp\":3600,\"iat\":0,\"sub\":\"u\",\"uid\":9007199254740992\x7d"

theorem uid_rounded : ∃ token D, hs256.verify bearer.signingKey token = .ok largeUid ∧ exactly largeUid = some D ∧
    bearer.Carries (bearing token) token ∧ ¬ bearer.Resigns hs256 0 (bearing token) D := by
  obtain ⟨token,-,hverify⟩ := hs256_correct.signed bearer.signingKey largeUid
  have hrounded : (decodeClaims largeUid).map (fun claims => marshalClaims (redate 0 0 claims)) =
      some roundedUid := by
    decide +kernel
  obtain ⟨claims,hclaims,hmarshal⟩ := Option.map_eq_some_iff.mp hrounded
  have hin : exactly largeUid = some (.obj [(encode "sub".toList,.str (encode "u".toList)),
    (uidKey,.num (Binary64.exactNumber ⟨false,9007199254740993,0⟩))]) := rfl
  have hout : exactly roundedUid = some (.obj [(encode exp,.num (Binary64.exactNumber ⟨false,3600,0⟩)),
    (encode iat,.num (Binary64.exactNumber ⟨false,0,0⟩)),(encode "sub".toList,.str (encode "u".toList)),
    (uidKey,.num (Binary64.exactNumber ⟨false,9007199254740992,0⟩))]) := rfl
  refine ⟨token,_,hverify,hin,bearing_carries token,?_⟩
  rw [resigns_iff hs256_correct (bearing_carries token) hverify hclaims]
  rintro ⟨D',hexact,ms,ns,hms,hns,hsame⟩
  have hmarshal' : marshalClaims (redate 0 bearer.freshExpiry claims) = roundedUid := hmarshal
  rw [hmarshal',hout,Option.some.injEq] at hexact
  subst hexact
  cases hms
  cases hns
  cases hsame with
  | listed h => cases h
  | obj _ h =>
    have huid := h uidKey _ _ rfl rfl
    generalize hq : Binary64.exactNumber ⟨false,9007199254740993,0⟩ = q at huid
    generalize hr : Binary64.exactNumber ⟨false,9007199254740992,0⟩ = r at huid
    cases huid with
    | listed h => cases h
    | num =>
      rw [← hq] at hr
      norm_num [Binary64.exactNumber,Binary64.absValue] at hr

end JwtResign
end Clearvoiance
