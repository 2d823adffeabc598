import Clearvoiance.JsonMask
import Clearvoiance.Mutator

/-! The audit log of the REST API.  Every write request that succeeds leaves an entry, with the body in it once the
values under secret keys are redacted.  Only the keys of the body itself are looked at. -/
namespace Clearvoiance
namespace AuditPayload

open Json JsonStrings UnicodeCase Utf8Text
open Mutator (unmarshal marshal marshalPrinter marshalReading readNumber written WellFormed)
open Signature (Bytes bytesOf codes goLess)
open SignatureEquality (Finite Double)

/-- The body of a request: what can be read of it, and whether reading ends in an error. -/
structure Stream where
  bytes : Bytes
  fails : Bool

/-- A request, with the actor that authentication has put into its context. -/
structure Request where
  method : String
  path : String
  body : Option Stream
  userID : Option String
  apiKeyID : Option String
  forwardedFor : String
  remoteAddr : String

structure AuditEntry where
  id : String
  timestamp : ℤ
  apiKeyID : String
  userID : String
  action : String
  targetType : String
  targetID : String
  payload : Option Bytes
  sourceIP : String

def isWriteMethod (m : String) : Bool := m = "POST" || m = "PUT" || m = "PATCH" || m = "DELETE"

/-- `strings.Split(strings.Trim(p, "/"), "/")`. -/
def pathParts (p : String) : List GoString :=
  let trimmed := ((p.toList.dropWhile (· = '/')).reverse.dropWhile (· = '/')).reverse
  trimmed.splitOn '/'

def targetTypeFromPath (p : String) : String :=
  match (pathParts p)[2]? with
  | some part => String.ofList (if part.getLast? = some 's' then part.dropLast else part)
  | none => ""

def targetIDFromPath (p : String) : String := ((pathParts p)[3]?.map String.ofList).getD ""

/-- The key and the user, of which one is set at most. -/
def actorIDs (r : Request) : String × String :=
  match r.userID,r.apiKeyID with
  | some u,_ => ("",u)
  | none,some k => (k,"")
  | none,none => ("","")

def clientIP (r : Request) : String :=
  if r.forwardedFor ≠ "" then
    let first := r.forwardedFor.toList.takeWhile (· ≠ ',')
    if first ≠ [] then ControlPlane.trimSpace (String.ofList first) else ControlPlane.trimSpace r.forwardedFor
  else String.ofList (r.remoteAddr.toList.takeWhile (· ≠ ':'))

def secretKey (k : GoString) : Bool :=
  let lk := goToLower k
  contains lk "token".toList || contains lk "password".toList || contains lk "secret".toList ||
    contains lk "api_key".toList || lk = "key".toList

/-- `json.Unmarshal` of the body into a map, which takes an object or `null`. -/
def unmarshalMap (body : Bytes) : Option (Json GoString Finite) :=
  match unmarshal body with
  | some (.obj ms) => some (.obj ms)
  | some .null => some .null
  | _ => none

def redact : Json GoString Finite → Json GoString Finite
  | .obj ms => .obj (ms.map fun m => (m.1,if secretKey m.1 then .str "[REDACTED]".toList else m.2))
  | doc => doc

def redactPayload (body : Bytes) : Option Bytes :=
  if body = [] then none
  else match unmarshalMap body with
    | none => none
    | some doc => marshal ((redact doc).map id .finite)

def limit : ℕ := 2^20

/-- The captured body, and the body that is left for the handler. -/
def capture : Option Stream → Bytes × Option Stream
  | none => ([],none)
  | some s =>
    if s.fails = true ∧ s.bytes.length < limit then ([],some ⟨[],true⟩)
    else (s.bytes.take limit,some ⟨s.bytes.take limit,false⟩)

structure Audited where
  served : Option Stream
  entry : Option AuditEntry

/-- `AuditMiddleware`.  The handler is given by the status codes it writes for a body. -/
def auditMiddleware (id : String) (now : ℤ) (next : Option Stream → List ℕ) (r : Request) : Audited :=
  if isWriteMethod r.method = false then ⟨r.body,none⟩
  else
    let captured := capture r.body
    let status := (next captured.2).getLast?.getD 200
    if 400 ≤ status then ⟨captured.2,none⟩
    else
      ⟨captured.2,some
        { id := id
          timestamp := now
          apiKeyID := (actorIDs r).1
          userID := (actorIDs r).2
          action := r.method ++ " " ++ r.path
          targetType := targetTypeFromPath r.path
          targetID := targetIDFromPath r.path
          payload := redactPayload captured.1
          sourceIP := clientIP r }⟩

example : targetTypeFromPath "/api/v1/sessions/s1/stop" = "session" := by decide

/-- What a document says outside the values under secret keys: strings as bytes, numbers as decimals. -/
def others (raw : Raw) : Json (List ℕ) ℚ :=
  map exactString Binary64.exactNumber (removeKeys (secretKey ∘ goString) raw)

/-- What redaction is for: the payload is the same whatever stands under secret keys, and it has everything else. -/
structure Redacts (body : Bytes) : Prop where
  independent : ∀ doc, unmarshalMap body = some doc → ∀ body' doc', unmarshalMap body' = some doc' →
    mask secretKey .null doc' = mask secretKey .null doc → redactPayload body' = redactPayload body
  kept : ∀ doc, unmarshalMap body = some doc → ∃ out raw raw', redactPayload body = some out ∧
    parse (codes body) = some raw ∧ parse (codes out) = some raw' ∧ Framed [] (others raw) (others raw')
  unparsed : unmarshalMap body = none → redactPayload body = none

/-- Every secret key stands at the top, or below a secret key. -/
def Top (doc : Json GoString Finite) : Prop :=
  ∀ ms, doc = .obj ms → ∀ m ∈ ms, secretKey m.1 = false → hasKey secretKey m.2 = false

/-- No secret key stands below a key that is not secret, and outside the values under secret keys there are text and
numbers that can be written. -/
structure Shallow (doc : Json GoString Finite) (raw : Raw) : Prop where
  top : Top doc
  plain : Within WellFormed Binary64.Written [] (others raw)

section Encode

def text (doc : Json GoString Finite) : Bytes := bytesOf (print marshalPrinter doc)

theorem readNumber_literal (x : Finite) : readNumber (marshalReading.literal x) = some x := by
  obtain ⟨y,hy,hval⟩ := Double.ofLiteral_finite (Binary64.ofLiteral_textLiteral x.property)
  have hread : Double.ofLiteral (marshalReading.literal x) = .finite y := hy
  rw [readNumber,hread,Subtype.ext hval]

theorem convert_raw (doc : Json GoString Finite) :
    (marshalReading.raw doc).convert goString (fun l => (readNumber l).map .num) = some doc :=
  convert_map Mutator.goString_items (fun x => by rw [readNumber_literal]; rfl) doc

theorem text_injective : Function.Injective text := by
  intro v w h
  have hraw : some (marshalReading.raw v) = some (marshalReading.raw w) := by
    rw [← Mutator.parse_marshalled,← Mutator.parse_marshalled]
    exact congrArg (fun b => parse (codes b)) h
  have hconvert := convert_raw v
  rw [Option.some.inj hraw,convert_raw] at hconvert
  exact (Option.some.inj hconvert).symm

/-- A document that is not nested too deep is decoded as it was encoded, in order. -/
theorem unmarshal_text {doc : Json GoString Finite} (h : depth doc ≤ 10000) :
    unmarshal (text doc) = some (arrange goLess doc) := by
  have hdepth : ¬ 10000 < depth (marshalReading.raw doc) := by
    rw [depth_alike (convert_alike (convert_raw doc))]
    omega
  unfold unmarshal text
  rw [Mutator.parse_marshalled,Option.bind_eq_bind,Option.bind_some,if_neg hdepth,convert_raw]
  rfl

theorem depth_of_unmarshal {body : Bytes} {doc : Json GoString Finite} (h : unmarshal body = some doc) {raw : Raw}
    (hraw : parse (codes body) = some raw) : depth raw ≤ 10000 := by
  by_contra hdepth
  rw [unmarshal,hraw,Option.bind_eq_bind,Option.bind_some,if_pos (by omega)] at h
  cases h

end Encode

section Payload

variable {body : Bytes} {doc : Json GoString Finite}

theorem unmarshalMap_eq_some (h : unmarshalMap body = some doc) :
    unmarshal body = some doc ∧ (doc = .null ∨ ∃ ms, doc = .obj ms) := by
  unfold unmarshalMap at h
  split at h
  · rename_i ms hms
    cases h
    exact ⟨hms,.inr ⟨ms,rfl⟩⟩
  · rename_i hnull
    cases h
    exact ⟨hnull,.inl rfl⟩
  · cases h

theorem unmarshalMap_obj {ms : List (GoString × Json GoString Finite)} (h : unmarshal body = some (.obj ms)) :
    unmarshalMap body = some (.obj ms) := by
  rw [unmarshalMap,h]

theorem redactPayload_eq (h : unmarshalMap body = some doc) : redactPayload body = some (text (redact doc)) := by
  have hbody : body ≠ [] := by
    rintro rfl
    cases h
  rw [redactPayload,if_neg hbody,h]
  exact Mutator.marshal_finite _

theorem redactPayload_eq_none (h : unmarshalMap body = none) : redactPayload body = none := by
  rw [redactPayload,h]
  split_ifs <;> rfl

theorem removeKeys_redact (doc : Json GoString Finite) :
    removeKeys secretKey (redact doc) = removeKeys secretKey doc := by
  cases doc with
  | obj ms =>
    rw [redact,removeKeys,removeKeys]
    congr 1
    induction ms with
    | nil => rfl
    | cons m ms ih =>
      rw [List.map_cons,removeKeysMembers,removeKeysMembers,ih]
      split_ifs <;> rfl
  | _ => rfl

theorem others_text (doc : Json GoString Finite) :
    others (marshalReading.raw (redact doc)) = written (removeKeys secretKey doc) := by
  have hkeys : (secretKey ∘ goString) ∘ marshalReading.items = secretKey :=
    funext fun s => congrArg secretKey (Mutator.goString_items s)
  rw [others,Reading.raw,removeKeys_map,hkeys,removeKeys_redact]
  exact Mutator.exact_raw _

theorem kept_iff {raw : Raw} (h : unmarshal body = some doc) (hraw : parse (codes body) = some raw) :
    Framed [] (others raw) (others (marshalReading.raw (redact doc))) ↔
      Within WellFormed Binary64.Written [] (others raw) := by
  obtain ⟨raw',v,hraw',rfl,hvalues⟩ := Mutator.unmarshal_eq_some h
  obtain rfl : raw' = raw := Option.some.inj (hraw'.symm.trans hraw)
  have hothers : Alike (fun items s => goString items = s) (fun l x => readNumber l = some x)
      (removeKeys (secretKey ∘ goString) raw') (removeKeys secretKey v) :=
    alike_removeKeys (fun items s hs => congrArg secretKey hs) hvalues
  have harrange : Framed [] (written (removeKeys secretKey v)) (written (removeKeys secretKey (arrange goLess v))) :=
    ((framed_arrange goLess [] v).removeKeys secretKey).map encode_injective
  rw [others_text]
  unfold others
  rw [← Mutator.framed_written_iff hothers]
  exact ⟨fun h => h.trans harrange.symm,fun h => h.trans harrange⟩

theorem redact_mask {ms : List (GoString × Json GoString Finite)}
    (h : ∀ m ∈ ms, secretKey m.1 = false → hasKey secretKey m.2 = false) :
    redact (mask secretKey .null (.obj ms)) = redact (.obj ms) := by
  rw [mask,redact,redact,maskMembers_eq,List.map_map]
  refine congrArg Json.obj (List.map_congr_left fun m hm => ?_)
  cases hm' : secretKey m.1 with
  | true => simp only [Function.comp_apply,hm',if_true]
  | false =>
    simp only [Function.comp_apply,hm',Bool.false_eq_true,if_false,mask_of_clear secretKey .null (h m hm hm')]

/-- Documents that agree outside the values under secret keys are redacted alike, if these stand at the top only. -/
theorem redact_eq_of_mask_eq {doc' : Json GoString Finite} (htop : Top doc) (hdoc : doc = .null ∨ ∃ ms, doc = .obj ms)
    (h : mask secretKey .null doc' = mask secretKey .null doc) : redact doc' = redact doc := by
  rcases hdoc with rfl | ⟨ms,rfl⟩
  · cases doc' with
    | null => rfl
    | _ => cases h
  · cases doc' with
    | obj ms' =>
      rw [← redact_mask (htop ms rfl),← h]
      refine (redact_mask fun m' hm' hkey => ?_).symm
      rw [mask,mask,Json.obj.injEq,maskMembers_eq,maskMembers_eq] at h
      have hmem : (m'.1,if secretKey m'.1 then .null else mask secretKey .null m'.2) ∈
          ms.map fun m => (m.1,if secretKey m.1 then .null else mask secretKey .null m.2) := by
        rw [← h]
        exact List.mem_map_of_mem hm'
      obtain ⟨m,hm,hsame⟩ := List.mem_map.mp hmem
      obtain ⟨hname,hvalue⟩ := Prod.mk.inj hsame
      simp only [hname,hkey,Bool.false_eq_true,if_false] at hvalue
      rw [← hasKey_mask secretKey .null,← hvalue,hasKey_mask]
      exact htop ms rfl m hm (hname ▸ hkey)
    | _ => cases h

/-- A payload that does not depend on the values under secret keys shows that these stand at the top only. -/
theorem top_of_independent (h : unmarshalMap body = some doc)
    (hsame : ∀ body' doc', unmarshalMap body' = some doc' → mask secretKey .null doc' = mask secretKey .null doc →
      redactPayload body' = redactPayload body) : Top doc := by
  rintro ms hms m hm hkey
  obtain ⟨hunmarshal,-⟩ := unmarshalMap_eq_some h
  obtain ⟨raw,v,hraw,hdoc,hvalues⟩ := Mutator.unmarshal_eq_some hunmarshal
  have hdepth : depth v ≤ 10000 := depth_alike hvalues ▸ depth_of_unmarshal hunmarshal hraw
  have hpayload : ∀ x : Json GoString Finite, depth x = 0 → arrange goLess x = x →
      redactPayload body = some (text (redact (mask secretKey x doc))) := by
    intro x hx harrange
    have hmasked : unmarshal (text (mask secretKey x v)) = some (mask secretKey x doc) := by
      rw [unmarshal_text ((depth_mask_le secretKey hx v).trans hdepth),arrange_mask secretKey harrange,hdoc]
    have hmap : unmarshalMap (text (mask secretKey x v)) = some (mask secretKey x doc) := by
      rw [hms] at hmasked ⊢
      exact unmarshalMap_obj hmasked
    rw [← hsame _ _ hmap (mask_mask secretKey .null x doc),redactPayload_eq hmap]
  have heq := (hpayload .null rfl rfl).symm.trans (hpayload (.bool true) rfl rfl)
  have hredact := text_injective (Option.some.inj heq)
  rw [hms,mask,mask,redact,redact,Json.obj.injEq,maskMembers_eq,maskMembers_eq,List.map_map,List.map_map,
    List.map_inj_left] at hredact
  have hvalue := (Prod.mk.inj (hredact m hm)).2
  simp only [hkey,Bool.false_eq_true,if_false] at hvalue
  have hne : (.null : Json GoString Finite) ≠ .bool true := by simp
  exact clear_of_mask_eq secretKey hne hvalue

end Payload

/-- The entry of a request has the redacted body for its payload, which is redacted as it should be exactly when the
body cannot be parsed, or is shallow. -/
theorem audit_payload_iff (id : String) (now : ℤ) (next : Option Stream → List ℕ) (r : Request) :
    (∀ entry ∈ (auditMiddleware id now next r).entry, entry.payload = redactPayload (capture r.body).1) ∧
      (Redacts (capture r.body).1 ↔ ∀ doc raw, unmarshalMap (capture r.body).1 = some doc →
        parse (codes (capture r.body).1) = some raw → Shallow doc raw) := by
  constructor
  · intro entry hentry
    unfold auditMiddleware at hentry
    split_ifs at hentry
    · cases hentry
    · simp only at hentry
      split_ifs at hentry
      · cases hentry
      · cases hentry
        rfl
  generalize (capture r.body).1 = body
  constructor
  · intro h doc raw hdoc hraw
    obtain ⟨hunmarshal,-⟩ := unmarshalMap_eq_some hdoc
    refine ⟨top_of_independent hdoc (h.independent doc hdoc),?_⟩
    obtain ⟨out,raw',raw'',hout,hraw',hraw'',hframed⟩ := h.kept doc hdoc
    obtain rfl : raw' = raw := Option.some.inj (hraw'.symm.trans hraw)
    rw [redactPayload_eq hdoc,Option.some.injEq] at hout
    rw [← hout,text,Mutator.parse_marshalled,Option.some.injEq] at hraw''
    rw [← hraw''] at hframed
    exact (kept_iff hunmarshal hraw).mp hframed
  · intro h
    refine ⟨fun doc hdoc body' doc' hdoc' hmask => ?_,fun doc hdoc => ?_,redactPayload_eq_none⟩
    · obtain ⟨hunmarshal,hshape⟩ := unmarshalMap_eq_some hdoc
      obtain ⟨raw,-,hraw,-⟩ := Mutator.unmarshal_eq_some hunmarshal
      rw [redactPayload_eq hdoc,redactPayload_eq hdoc',redact_eq_of_mask_eq (h doc raw hdoc hraw).top hshape hmask]
    · obtain ⟨hunmarshal,-⟩ := unmarshalMap_eq_some hdoc
      obtain ⟨raw,-,hraw,-⟩ := Mutator.unmarshal_eq_some hunmarshal
      exact ⟨_,raw,_,redactPayload_eq hdoc,hraw,Mutator.parse_marshalled _,
        (kept_iff hunmarshal hraw).mpr (h doc raw hdoc hraw).plain⟩

def nestedPassword (password : String) : Bytes :=
  Hex.utf8 ("\x7b\"user\":\x7b\"password\":\"" ++ password ++ "\"\x7d\x7d")

def nestedDoc (password : String) : Json GoString Finite :=
  .obj [("user".toList,.obj [("password".toList,.str password.toList)])]

/-- A password one level down is persisted, and a large number is rounded. -/
theorem nested_password_persisted :
    (unmarshalMap (nestedPassword "a") = some (nestedDoc "a") ∧
        unmarshalMap (nestedPassword "b") = some (nestedDoc "b") ∧
        mask secretKey .null (nestedDoc "a") = mask secretKey .null (nestedDoc "b") ∧
        redactPayload (nestedPassword "a") = some (nestedPassword "a") ∧
        redactPayload (nestedPassword "b") = some (nestedPassword "b") ∧ nestedPassword "a" ≠ nestedPassword "b") ∧
      redactPayload (Hex.utf8 "\x7b\"id\":9007199254740993\x7d") = some (Hex.utf8 "\x7b\"id\":9007199254740992\x7d") :=
  ⟨⟨rfl,rfl,rfl,by decide +kernel,by decide +kernel,by decide +kernel⟩,by decide +kernel⟩

end AuditPayload
end Clearvoiance
