import Clearvoiance.MockPack
import Clearvoiance.SignatureEquality

/-! Lookups under a configuration that leaves out fields.  The SDK leaves them out of the live request,
the engine indexes the captured request with all its fields, so a live request that differs in ignored
fields only is found exactly when the captured one holds nothing to leave out. -/
namespace Clearvoiance
namespace IgnoredFields

open Json JsonStrings UnicodeCase Canonicalize SignatureEquality MockPack
open Signature hiding signatureOf canonicalBody signed_eq_iff bar_not_mem_canonicalBody

/-- The path before the query, and the parameters that are not ignored. -/
def targetOf (ignoreParams : List String) (path : List Char) : List Char × List (List Char × List Char) :=
  (path.takeWhile (· ≠ '?'),
    (searchParams ((path.dropWhile (· ≠ '?')).drop 1)).filter fun p => !ignoreParams.contains (String.ofList p.1))

/-- Paths that are equal after deleting the ignored parameters. -/
def SamePath (ignoreParams : List String) (p q : List Char) : Prop :=
  if ignoreParams = [] then p = q else targetOf ignoreParams p = targetOf ignoreParams q

/-- Bodies that are equal after deleting the ignored keys. -/
def SameBody (cfg : CanonicalizeConfig) (contentType : String) (a b : Bytes) : Prop :=
  match isJson toLowerCase contentType,parsedBody a,parsedBody b with
  | true,some v,some w => Equal Double.Same (removed cfg v) (removed cfg w)
  | _,_,_ => a = b

/-- Requests that are equal after deleting what is ignored. -/
structure SameAfterDeleting (cfg : CanonicalizeConfig) (captured live : SignatureInput) : Prop where
  method : captured.method = live.method
  host : captured.host = live.host
  path : SamePath cfg.ignoreQueryParams captured.path.toList live.path.toList
  contentType : captured.contentType = live.contentType
  body : SameBody cfg captured.contentType captured.body live.body

/-- What `canonicalPath` makes of the parts of a path. -/
def pathText (t : List Char × List (List Char × List Char)) : List Char :=
  if paramsText (sortParams t.2) = [] then t.1 else t.1 ++ '?' :: paramsText (sortParams t.2)

theorem canonicalPath_eq {ignoreParams : List String} (hne : ignoreParams ≠ []) (path : List Char) :
    canonicalPath ignoreParams path = pathText (targetOf ignoreParams path) := by
  by_cases hq : '?' ∈ path
  · simp only [canonicalPath,hq,hne,not_true,decide_false,Bool.or_self,Bool.false_eq_true,if_false]
    rfl
  · have hall : ∀ c ∈ path, decide (c ≠ '?') = true := by
      intro c hc
      rw [decide_eq_true_eq]
      rintro rfl
      exact hq hc
    have htake : path.takeWhile (· ≠ '?') = path := List.takeWhile_eq_self_iff.mpr hall
    have hdrop : path.dropWhile (· ≠ '?') = [] := List.dropWhile_eq_nil_iff.mpr hall
    rw [canonicalPath,if_pos (by simp [hq]),targetOf,htake,hdrop]
    rfl

theorem canonicalPath_of_same {ignoreParams : List String} {p q : List Char} (h : SamePath ignoreParams p q) :
    canonicalPath ignoreParams p = canonicalPath ignoreParams q := by
  unfold SamePath at h
  split_ifs at h with hne
  · rw [h]
  · rw [canonicalPath_eq hne,canonicalPath_eq hne,h]

theorem eq_of_sameBody {cfg : CanonicalizeConfig} {contentType : String} {a b : Bytes}
    (h : SameBody cfg contentType a b) (hnone : parsedBody a = none ∨ parsedBody b = none) : a = b := by
  unfold SameBody at h
  split at h
  · rename_i hv hw
    rw [hv,hw] at hnone
    simp at hnone
  · exact h

/-- The live value fits on the stack, or there is none. -/
def liveFits (fits : Json JsString Binary64 → Bool) (live : SignatureInput) : Bool := (jsonParse live.body).all fits

/-- What the SDK hashes of a live body, told from the captured one. -/
theorem hashed_live (fits : Json JsString Binary64 → Bool) {cfg : CanonicalizeConfig} {captured live : SignatureInput}
    (h : SameAfterDeleting cfg captured live) (hjson : isJson toLowerCase captured.contentType = true) :
    hashed fits cfg live.body live.contentType =
      match jsonParse captured.body with
      | some v => if liveFits fits live then stableStringify (stripped cfg v) else live.body
      | none => captured.body := by
  have hbody := h.body
  have hlive := hjson
  rw [h.contentType] at hlive
  unfold hashed liveFits
  rw [if_pos hlive,jsonParse_eq,jsonParse_eq]
  cases hv : parsedBody captured.body with
  | none =>
    rw [← eq_of_sameBody hbody (.inl hv),hv]
    rfl
  | some v =>
    cases hw : parsedBody live.body with
    | none =>
      rw [eq_of_sameBody hbody (.inr hw),hw] at hv
      cases hv
    | some w =>
      unfold SameBody at hbody
      rw [hjson,hv,hw] at hbody
      have htext := (stableStringify_eq_iff _ _).mpr (written_of_removed hbody)
      simp only [Option.map_some,Option.filter_some,Option.all_some]
      rw [stripped_writable,htext]
      split_ifs
      · simp only
        rw [stripped_writable]
      · rfl

/-- The engine hashes what the SDK hashes of the captured body without its ignored keys. -/
def BodyKept (fits : Json JsString Binary64 → Bool) (cfg : CanonicalizeConfig) (captured live : SignatureInput) : Prop :=
  captured.body = [] ∨ isJson goToLower captured.contentType = false ∨
    match goDocument captured.body,jsonParse captured.body with
    | none,none => True
    | some g,none => bytesOf (print goPrinter g) = captured.body
    | some g,some v => if liveFits fits live then Alike SameString SameNumber g (arrange jsLess (stripped cfg v))
        else bytesOf (print goPrinter g) = live.body
    | none,some v => captured.body = if liveFits fits live then stableStringify (stripped cfg v) else live.body

/-- Nothing of the captured request is left out, and the two languages read it alike. -/
def Kept (fits : Json JsString Binary64 → Bool) (cfg : CanonicalizeConfig) (captured live : SignatureInput) : Prop :=
  ((∀ c ∈ captured.method.toList, ¬ SpecialUpper c) ∧ PlainLower [] captured.host.toList) ∧
    captured.path.toList = canonicalPath cfg.ignoreQueryParams captured.path.toList ∧ BodyKept fits cfg captured live

/-- The two signatures come from different texts with one digest. -/
def IndexCollision (fits : Json JsString Binary64 → Bool) (cfg : CanonicalizeConfig) (captured live : SignatureInput) :
    Prop :=
  Collision (goSigned captured) (signed fits cfg live) ∨
    ((∀ c ∈ captured.method.toList, ¬ SpecialUpper c) ∧ PlainLower [] captured.host.toList) ∧
      captured.path.toList = canonicalPath cfg.ignoreQueryParams captured.path.toList ∧ captured.body ≠ [] ∧
        Collision (goHashed captured.body captured.contentType) (hashed fits cfg live.body live.contentType)

theorem body_eq_nil_iff {cfg : CanonicalizeConfig} {captured live : SignatureInput}
    (h : SameAfterDeleting cfg captured live) : captured.body = [] ↔ live.body = [] := by
  have hnil : parsedBody [] = none := rfl
  constructor
  · intro hc
    rw [← eq_of_sameBody h.body (.inl (by rw [hc,hnil])),hc]
  · intro hl
    rw [eq_of_sameBody h.body (.inr (by rw [hl,hnil])),hl]

theorem bodyKept_iff (fits : Json JsString Binary64 → Bool) {cfg : CanonicalizeConfig} {captured live : SignatureInput}
    (h : SameAfterDeleting cfg captured live) (hne : captured.body ≠ []) :
    goHashed captured.body captured.contentType = hashed fits cfg live.body live.contentType ↔
      BodyKept fits cfg captured live := by
  have hlower : isJson toLowerCase captured.contentType = isJson goToLower captured.contentType := contains_json _
  unfold BodyKept goHashed
  cases hjson : isJson goToLower captured.contentType with
  | false =>
    rw [hjson] at hlower
    have hsame : captured.body = live.body := by
      have hbody := h.body
      unfold SameBody at hbody
      rw [hlower] at hbody
      exact hbody
    have hlive : hashed fits cfg live.body live.contentType = live.body := by
      unfold hashed
      rw [← h.contentType,hlower]
      rfl
    rw [hlive]
    simp [hsame]
  | true =>
    rw [hjson] at hlower
    rw [hashed_live fits h hlower]
    simp only [hne,false_or,if_true,Bool.true_eq_false]
    cases goDocument captured.body with
    | none => cases jsonParse captured.body <;> simp
    | some g =>
      cases jsonParse captured.body with
      | none => simp
      | some v =>
        simp only
        split_ifs
        · rw [stableStringify,bytesOf_inj]
          exact print_eq_iff_alike g _
        · rfl

theorem bodyHash_eq_iff (fits : Json JsString Binary64 → Bool) {cfg : CanonicalizeConfig}
    {captured live : SignatureInput} (h : SameAfterDeleting cfg captured live) :
    bodyHash captured.body captured.contentType = canonicalBody fits cfg live.body live.contentType ↔
      BodyKept fits cfg captured live ∨ captured.body ≠ [] ∧
        Collision (goHashed captured.body captured.contentType) (hashed fits cfg live.body live.contentType) := by
  unfold bodyHash canonicalBody
  by_cases hbody : captured.body = []
  · rw [if_pos hbody,if_pos ((body_eq_nil_iff h).mp hbody)]
    simp [hbody,BodyKept]
  · rw [if_neg hbody,if_neg (fun hl => hbody ((body_eq_nil_iff h).mpr hl)),sha256Hex_eq_iff,bodyKept_iff fits h hbody]
    simp [hbody]

theorem goSigned_eq_signed_iff (fits : Json JsString Binary64 → Bool) {cfg : CanonicalizeConfig}
    {captured live : SignatureInput} (h : SameAfterDeleting cfg captured live) :
    goSigned captured = signed fits cfg live ↔
      (((∀ c ∈ captured.method.toList, ¬ SpecialUpper c) ∧ PlainLower [] captured.host.toList) ∧
        captured.path.toList = canonicalPath cfg.ignoreQueryParams captured.path.toList) ∧
      bodyHash captured.body captured.contentType = canonicalBody fits cfg live.body live.contentType := by
  rw [goSigned,signed,bytesOf_inj,← h.method,← h.host,← canonicalPath_of_same h.path,← front_eq_iff]
  constructor
  · intro heq
    exact Hex.append_separator_inj (bar_not_mem_bodyHash _ _) (bar_not_mem_canonicalBody _ _ _ _) heq
  · rintro ⟨hfront,hhash⟩
    rw [joined,joined,hfront,hhash]

/-- What the engine hashes for an event, if it makes an entry of it. -/
def capturedRequest (ev : CapturedEvent) : Option SignatureInput := do
  let outbound ← ev.outbound
  let http ← outbound.http
  some (signatureInput ev outbound http)

theorem signature_of_entry {ev : CapturedEvent} {captured : SignatureInput} (h : capturedRequest ev = some captured) :
    (entryFromEvent ev).map (fun e => e.signature.text.toList) = some (goSignatureOf captured) := by
  unfold capturedRequest at h
  unfold entryFromEvent
  cases ho : ev.outbound with
  | none => rw [ho] at h; cases h
  | some outbound =>
    rw [ho] at h
    simp only [Option.bind_eq_bind,Option.bind_some] at h ⊢
    cases hh : outbound.http with
    | none => rw [hh] at h; cases h
    | some http =>
      rw [hh] at h
      cases h
      simp [engineSignature]

/-- A live request that differs in ignored fields only has the signature of the captured one in the pack
exactly when the captured one holds nothing to leave out, SHA-256 collisions apart. -/
theorem indexed_signature_iff (fits : Json JsString Binary64 → Bool) {cfg : CanonicalizeConfig} {ev : CapturedEvent}
    {captured live : SignatureInput} (hcaptured : capturedRequest ev = some captured)
    (h : SameAfterDeleting cfg captured live) :
    (entryFromEvent ev).map (fun e => e.signature.text.toList) = some (signatureOf fits cfg live) ↔
      Kept fits cfg captured live ∨ IndexCollision fits cfg captured live := by
  rw [signature_of_entry hcaptured,Option.some.injEq,goSignatureOf,signatureOf,sha256Hex_eq_iff,
    goSigned_eq_signed_iff fits h,bodyHash_eq_iff fits h]
  unfold Kept IndexCollision
  rw [and_assoc,and_or_left,and_or_left,or_assoc]
  exact or_congr_right or_comm

/-- The event of a captured post of a JSON body. -/
def capturedPost (body : String) : CapturedEvent :=
  ⟨[("host","h")],some ⟨"h","e",some ⟨"POST","/x",some ⟨some (.inline (Hex.utf8 body)),"application/json"⟩,200,
    ⟨[],List.nodup_nil⟩,none⟩⟩⟩

theorem sameAfterDeleting_posted {cfg : CanonicalizeConfig} {a b : String} {v w : Json JsString Double}
    (ha : parsedBody (Hex.utf8 a) = some v) (hb : parsedBody (Hex.utf8 b) = some w) (h : removed cfg v = removed cfg w) :
    SameAfterDeleting cfg (posted a v ha).input (posted b w hb).input := by
  refine ⟨rfl,rfl,?_,rfl,?_⟩
  · unfold SamePath
    split_ifs <;> rfl
  · unfold SameBody
    rw [(posted a v ha).content_type,(posted a v ha).parsed,(posted b w hb).parsed]
    change Equal Double.Same (removed cfg v) (removed cfg w)
    rw [h]
    exact Equal.refl Double.Same.refl _

def plainBody : String := "\x7b\"id\":1\x7d"

def nonceBody (n : String) : String := "\x7b\"id\":1,\"nonce\":" ++ n ++ "\x7d"

def capturedPlain : JsonRequest := posted plainBody (.obj [(utf16 "id".toList,one)]) rfl

def capturedNonce : JsonRequest := posted (nonceBody "1") (.obj [(utf16 "id".toList,one),(utf16 "nonce".toList,one)]) rfl

def liveNonce : JsonRequest := posted (nonceBody "2") (.obj [(utf16 "id".toList,one),(utf16 "nonce".toList,two)]) rfl

theorem plain_indexed_iff : capturedRequest (capturedPost plainBody) = some capturedPlain.input ∧
    SameAfterDeleting ignoringNonce capturedPlain.input liveNonce.input ∧
    ((entryFromEvent (capturedPost plainBody)).map (fun e => e.signature.text.toList) =
        some (signatureOf (fun _ => true) ignoringNonce liveNonce.input) ↔
      Kept (fun _ => true) ignoringNonce capturedPlain.input liveNonce.input ∨
        IndexCollision (fun _ => true) ignoringNonce capturedPlain.input liveNonce.input) := by
  have hcaptured : capturedRequest (capturedPost plainBody) = some capturedPlain.input := rfl
  have hsame : SameAfterDeleting ignoringNonce capturedPlain.input liveNonce.input := sameAfterDeleting_posted _ _ rfl
  exact ⟨hcaptured,hsame,indexed_signature_iff _ hcaptured hsame⟩

/-- The engine has indexed the nonce of the captured body. -/
theorem nonce_not_found : capturedRequest (capturedPost (nonceBody "1")) = some capturedNonce.input ∧
    SameAfterDeleting ignoringNonce capturedNonce.input liveNonce.input ∧
    (entryFromEvent (capturedPost (nonceBody "1"))).map (fun e => e.signature.text.toList) ≠
      some (signatureOf (fun _ => true) ignoringNonce liveNonce.input) := by
  refine ⟨rfl,sameAfterDeleting_posted _ _ rfl,?_⟩
  decide +kernel

end IgnoredFields
end Clearvoiance
