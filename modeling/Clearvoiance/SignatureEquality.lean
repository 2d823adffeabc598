import Clearvoiance.Canonicalize
import Mathlib.Data.List.Lex

/-! What the SDK's signature tells of a request with a JSON body.  Two requests have one signature when
they agree in method, host, path and in what the serialiser writes of their values, and the serialiser
writes `null` for an infinite number and, with keys to leave out, nothing for `__proto__`. -/
namespace Clearvoiance
namespace SignatureEquality

open Json JsonStrings UnicodeCase Canonicalize
open Signature hiding signatureOf canonicalBody signed_eq_iff bar_not_mem_canonicalBody

/-- A finite number as `JSON.parse` yields it. -/
abbrev Finite := {x : Binary64 // x.Canonical}

/-- A number as `JSON.parse` yields it. -/
inductive Double
  | finite (x : Finite)
  | infinite (neg : Bool)

def Double.ofLiteral (l : Literal) : Double :=
  match h : Binary64.ofLiteral l with
  | some x => .finite ⟨x,Binary64.ofLiteral_canonical h⟩
  | none => .infinite l.neg

theorem Double.ofLiteral_finite {l : Literal} {x : Binary64} (h : Binary64.ofLiteral l = some x) :
    ∃ y : Finite, Double.ofLiteral l = .finite y ∧ y.val = x := by
  unfold Double.ofLiteral
  split
  · rename_i z hz
    exact ⟨_,rfl,Option.some.inj (hz.symm.trans h)⟩
  · rename_i hz
    rw [hz] at h
    cases h

def Finite.Same (x y : Finite) : Prop :=
  x.val.mant = y.val.mant ∧ x.val.exp = y.val.exp ∧ (x.val.mant = 0 ∨ x.val.neg = y.val.neg)

def Double.Same : Double → Double → Prop
  | .finite x,.finite y => Finite.Same x y
  | .infinite a,.infinite b => a = b
  | _,_ => False

theorem Double.Same.refl (x : Double) : Double.Same x x := by
  cases x with
  | finite x => exact ⟨rfl,rfl,.inr rfl⟩
  | infinite a => exact rfl

/-- The value that `JSON.parse` yields for a body. -/
def parsedBody (body : Bytes) : Option (Json JsString Double) := do
  let raw ← parse ((bufferToString (codes body)).flatMap units)
  raw.convert jsString fun l => some (.num (Double.ofLiteral l))

/-- What `JSON.stringify` can write of a number. -/
def writable : Double → Json JsString Finite
  | .finite x => .num x
  | .infinite _ => .null

def bits (x : Finite) : Json JsString Binary64 := .num x.val

/-- What `canonicalBody` writes of a value. -/
def written (cfg : CanonicalizeConfig) (v : Json JsString Double) : Json JsString Finite :=
  Json.bind writable (stripped cfg v)

def removed (cfg : CanonicalizeConfig) (v : Json JsString Double) : Json JsString Double :=
  removeKeys (fun k => cfg.ignoreJsonKeys.contains k) v

theorem jsonParse_eq (body : Bytes) :
    jsonParse body = (parsedBody body).map fun v => Json.bind bits (Json.bind writable v) := by
  have hleaf : ∀ l, (some (.num (Double.ofLiteral l)) : Option (Json JsString Double)).map
      (Json.bind fun d => Json.bind bits (writable d)) = some (((Binary64.ofLiteral l).map .num).getD .null) := by
    intro l
    unfold Double.ofLiteral
    split <;> rename_i h <;> simp [h,Json.bind,writable,bits]
  unfold jsonParse parsedBody
  simp only [bind_bind]
  cases parse ((bufferToString (codes body)).flatMap units) with
  | none => rfl
  | some raw =>
    simp only [Option.bind_eq_bind,Option.bind_some]
    rw [← convert_bind]
    simp only [hleaf]

theorem stripped_bind {ν μ : Type} (cfg : CanonicalizeConfig) {f : ν → Json JsString μ}
    (hf : ∀ p x, removeKeys p (f x) = f x) (v : Json JsString ν) :
    stripped cfg (Json.bind f v) = Json.bind f (stripped cfg v) := by
  unfold stripped stripKeys
  split_ifs
  · rfl
  · exact removeKeys_bind (hf _) v

theorem stripped_writable (cfg : CanonicalizeConfig) (v : Json JsString Double) :
    stripped cfg (Json.bind bits (Json.bind writable v)) = Json.bind bits (written cfg v) := by
  rw [stripped_bind cfg,stripped_bind cfg,written]
  · intro p x
    cases x <;> rfl
  · intro p x
    rfl

theorem lexLess_iff (as bs : List ℕ) : lexLess as bs = true ↔ as < bs := by
  induction as generalizing bs with
  | nil => cases bs <;> simp [lexLess]
  | cons a as ih =>
    cases bs with
    | nil => simp [lexLess]
    | cons b bs =>
      rw [lexLess,Bool.or_eq_true,Bool.and_eq_true,decide_eq_true_eq,decide_eq_true_eq,ih,List.cons_lt_cons_iff]

theorem jsLess_eq_false_iff (s t : JsString) : jsLess s t = false ↔ t.map UInt16.toNat ≤ s.map UInt16.toNat := by
  rw [← not_lt,← lexLess_iff,Bool.not_eq_true]
  rfl

theorem jsLess_keyOrder : KeyOrder jsLess where
  trans a b c h₁ h₂ := by
    rw [jsLess_eq_false_iff] at h₁ h₂ ⊢
    exact h₁.trans h₂
  total a b := by
    rw [jsLess_eq_false_iff,jsLess_eq_false_iff]
    exact le_total _ _
  antisymm a b h₁ h₂ := by
    rw [jsLess_eq_false_iff] at h₁ h₂
    have heq : b.map UInt16.toNat = a.map UInt16.toNat := le_antisymm h₁ h₂
    exact (List.map_injective_iff.mpr (fun x y hxy => UInt16.toNat_inj.mp hxy) heq).symm

theorem jsQuote_inj (s t : JsString) : jsQuote s = jsQuote t ↔ s = t := by
  constructor
  · intro h
    have hunits := congrArg unescape h
    rw [unescape_jsQuote,unescape_jsQuote] at hunits
    exact List.map_injective_iff.mpr (fun a b hab => UInt16.toNat_inj.mp hab) hunits
  · intro h
    rw [h]

theorem jsNumber_eq_iff (x y : Finite) : jsNumber x.val = jsNumber y.val ↔ Finite.Same x y := by
  rw [jsNumber,jsNumber,Binary64.signed_eq_iff,Binary64.magnitude_eq_iff x.property y.property]
  unfold Finite.Same
  constructor
  · rintro ⟨hneg,hm,he⟩
    refine ⟨hm,he,?_⟩
    by_cases hzero : x.val.mant = 0
    · exact .inl hzero
    · rw [hm] at hzero
      simp only [hm,hzero,ne_eq,not_false_eq_true,decide_true,Bool.and_true] at hneg
      exact .inr hneg
  · rintro ⟨hm,he,hneg⟩
    refine ⟨?_,hm,he⟩
    rcases hneg with h | h
    · rw [← hm,h]
      simp
    · rw [h,hm]

/-- The serialiser writes two values alike exactly when what it keeps of them is equal. -/
theorem stableStringify_eq_iff (a b : Json JsString Finite) :
    stableStringify (Json.bind bits a) = stableStringify (Json.bind bits b) ↔ Equal Finite.Same a b := by
  rw [stableStringify,stableStringify,bytesOf_inj,
    print_eq_iff jsPrinter jsPrinter jsQuote_inj (fun _ _ => Iff.rfl),arrange_alike_iff jsLess_keyOrder]
  have hbits : bits = fun x => .num x.val := rfl
  rw [hbits,equal_bind_num_iff]
  have hrel : (fun x y : Finite => jsPrinter.number x.val = jsPrinter.number y.val) = Finite.Same := by
    funext x y
    exact propext (jsNumber_eq_iff x y)
  rw [hrel]

theorem written_of_removed {cfg : CanonicalizeConfig} {v w : Json JsString Double}
    (h : Equal Double.Same (removed cfg v) (removed cfg w)) : Equal Finite.Same (written cfg v) (written cfg w) := by
  have hwritable : ∀ x y, Double.Same x y → Equal Finite.Same (writable x) (writable y) := by
    intro x y hxy
    cases x with
    | finite x =>
      cases y with
      | finite y => exact .num hxy
      | infinite b => cases hxy
    | infinite a =>
      cases y with
      | finite y => cases hxy
      | infinite b => exact .null
  have hstripped : ∀ u, stripped cfg u =
      removeKeys (fun k => !cfg.ignoreJsonKeys.isEmpty && decide (k = protoUnits)) (removed cfg u) := by
    intro u
    unfold stripped stripKeys removed
    rw [removeKeys_removeKeys]
    cases cfg.ignoreJsonKeys with
    | nil => simp [removeKeys_false]
    | cons k ks => simp
  unfold written
  rw [hstripped,hstripped]
  exact (h.removeKeys _).bind hwritable

structure JsonRequest where
  input : SignatureInput
  value : Json JsString Double
  method_bar : '|' ∉ input.method.toList
  host_bar : '|' ∉ input.host.toList
  content_type : isJson toLowerCase input.contentType = true
  parsed : parsedBody input.body = some value

/-- Method and host but for their case, and the path but for what is ignored of it. -/
structure SameFront (cfg : CanonicalizeConfig) (i j : SignatureInput) : Prop where
  method : toUpperCase i.method.toList = toUpperCase j.method.toList
  host : toLowerCase i.host.toList = toLowerCase j.host.toList
  path : canonicalPath cfg.ignoreQueryParams i.path.toList = canonicalPath cfg.ignoreQueryParams j.path.toList

def SameRequest (cfg : CanonicalizeConfig) (r s : JsonRequest) : Prop :=
  SameFront cfg r.input s.input ∧ Equal Double.Same (removed cfg r.value) (removed cfg s.value)

/-- No two of the texts that are hashed for the requests have one digest. -/
def NoCollision (fits : Json JsString Binary64 → Bool) (cfg : CanonicalizeConfig) (i j : SignatureInput) : Prop :=
  ¬ Collision (signed fits cfg i) (signed fits cfg j) ∧
    ¬ Collision (hashed fits cfg i.body i.contentType) (hashed fits cfg j.body j.contentType)

theorem signed_eq_iff {fits : Json JsString Binary64 → Bool} {cfg : CanonicalizeConfig} (r s : JsonRequest) :
    signed fits cfg r.input = signed fits cfg s.input ↔ SameFront cfg r.input s.input ∧
      canonicalBody fits cfg r.input.body r.input.contentType =
        canonicalBody fits cfg s.input.body s.input.contentType := by
  rw [signed,signed,bytesOf_inj]
  constructor
  · intro h
    obtain ⟨hfront,hbody⟩ :=
      Hex.append_separator_inj (bar_not_mem_canonicalBody _ _ _ _) (bar_not_mem_canonicalBody _ _ _ _) h
    rw [List.append_assoc,List.append_assoc,List.cons_append,List.cons_append] at hfront
    obtain ⟨hmethod,hrest⟩ := Hex.separator_append_inj (bar_not_mem_toUpperCase r.method_bar)
      (bar_not_mem_toUpperCase s.method_bar) hfront
    obtain ⟨hhost,hpath⟩ := Hex.separator_append_inj (bar_not_mem_lowerFrom r.host_bar)
      (bar_not_mem_lowerFrom s.host_bar) hrest
    exact ⟨⟨hmethod,hhost,hpath⟩,hbody⟩
  · rintro ⟨hfront,hbody⟩
    rw [joined,joined,hfront.method,hfront.host,hfront.path,hbody]

def seen (r : JsonRequest) : Json JsString Binary64 := Json.bind bits (Json.bind writable r.value)

theorem body_ne_nil (r : JsonRequest) : r.input.body ≠ [] := by
  intro h
  have hparsed := r.parsed
  rw [h] at hparsed
  cases hparsed

theorem hashed_eq (fits : Json JsString Binary64 → Bool) (cfg : CanonicalizeConfig) (r : JsonRequest) :
    hashed fits cfg r.input.body r.input.contentType =
      if fits (seen r) then stableStringify (Json.bind bits (written cfg r.value)) else r.input.body := by
  unfold hashed seen
  rw [if_pos r.content_type,jsonParse_eq,r.parsed,Option.map_some,Option.filter_some]
  split_ifs
  · rw [← stripped_writable]
  · rfl

/-- What is hashed of the two bodies tells whether the values are equal. -/
def Told (fits : Json JsString Binary64 → Bool) (cfg : CanonicalizeConfig) (r s : JsonRequest) : Prop :=
  match fits (seen r),fits (seen s) with
  | true,true => Equal Finite.Same (written cfg r.value) (written cfg s.value) →
      Equal Double.Same (removed cfg r.value) (removed cfg s.value)
  | true,false => stableStringify (Json.bind bits (written cfg r.value)) = s.input.body ↔
      Equal Double.Same (removed cfg r.value) (removed cfg s.value)
  | false,true => r.input.body = stableStringify (Json.bind bits (written cfg s.value)) ↔
      Equal Double.Same (removed cfg r.value) (removed cfg s.value)
  | false,false => r.input.body = s.input.body ↔ Equal Double.Same (removed cfg r.value) (removed cfg s.value)

theorem told_iff (fits : Json JsString Binary64 → Bool) (cfg : CanonicalizeConfig) (r s : JsonRequest) :
    Told fits cfg r s ↔ (hashed fits cfg r.input.body r.input.contentType =
      hashed fits cfg s.input.body s.input.contentType ↔
        Equal Double.Same (removed cfg r.value) (removed cfg s.value)) := by
  rw [hashed_eq,hashed_eq,Told]
  cases fits (seen r) <;> cases fits (seen s) <;> simp only [if_true,Bool.false_eq_true,if_false]
  rw [stableStringify_eq_iff]
  constructor
  · intro h
    exact ⟨h,written_of_removed⟩
  · intro h
    exact h.mp

theorem signature_eq_iff {fits : Json JsString Binary64 → Bool} {cfg : CanonicalizeConfig} {r s : JsonRequest}
    (h : NoCollision fits cfg r.input s.input) :
    signatureOf fits cfg r.input = signatureOf fits cfg s.input ↔ SameFront cfg r.input s.input ∧
      hashed fits cfg r.input.body r.input.contentType = hashed fits cfg s.input.body s.input.contentType := by
  unfold signatureOf
  rw [sha256Hex_eq_iff,or_iff_left h.1,signed_eq_iff]
  unfold canonicalBody
  rw [if_neg (body_ne_nil r),if_neg (body_ne_nil s),sha256Hex_eq_iff,or_iff_left h.2]

/-- The signature is equality of canonical requests exactly when what is hashed of the bodies tells the
values apart. -/
theorem signature_equality_iff {fits : Json JsString Binary64 → Bool} {cfg : CanonicalizeConfig} {r s : JsonRequest}
    (h : NoCollision fits cfg r.input s.input) :
    (signatureOf fits cfg r.input = signatureOf fits cfg s.input ↔ SameRequest cfg r s) ↔
      (SameFront cfg r.input s.input → Told fits cfg r s) := by
  rw [signature_eq_iff h,SameRequest,told_iff]
  tauto

def posted (body : String) (value : Json JsString Double) (h : parsedBody (Hex.utf8 body) = some value) : JsonRequest where
  input := ⟨"POST","h","/x",Hex.utf8 body,"application/json"⟩
  value := value
  method_bar := show '|' ∉ "POST".toList by decide +kernel
  host_bar := show '|' ∉ "h".toList by decide +kernel
  content_type := show isJson toLowerCase "application/json" = true by decide +kernel
  parsed := h

def one : Json JsString Double := .num (Double.ofLiteral ⟨false,1,0⟩)

def two : Json JsString Double := .num (Double.ofLiteral ⟨false,2,0⟩)

def ordered : JsonRequest :=
  posted "\x7b\"a\":1,\"b\":2\x7d" (.obj [(utf16 ['a'],one),(utf16 ['b'],two)]) rfl

def reordered : JsonRequest :=
  posted "\x7b\"b\":2,\"a\":1\x7d" (.obj [(utf16 ['b'],two),(utf16 ['a'],one)]) rfl

theorem noCollision_of_eq {fits : Json JsString Binary64 → Bool} {cfg : CanonicalizeConfig} {i j : SignatureInput}
    (hsigned : signed fits cfg i = signed fits cfg j)
    (hhashed : hashed fits cfg i.body i.contentType = hashed fits cfg j.body j.contentType) :
    NoCollision fits cfg i j :=
  ⟨fun h => h.1 hsigned,fun h => h.1 hhashed⟩

theorem reordered_told : NoCollision (fun _ => true) {} ordered.input reordered.input ∧
    ((signatureOf (fun _ => true) {} ordered.input = signatureOf (fun _ => true) {} reordered.input ↔
        SameRequest {} ordered reordered) ↔
      (SameFront {} ordered.input reordered.input → Told (fun _ => true) {} ordered reordered)) := by
  have h : NoCollision (fun _ => true) {} ordered.input reordered.input :=
    noCollision_of_eq (by decide +kernel) (by decide +kernel)
  exact ⟨h,signature_equality_iff h⟩

theorem parsed_large : parsedBody (Hex.utf8 "1e400") = some (.num (.infinite false)) := by
  have hraw : parse ((bufferToString (codes (Hex.utf8 "1e400"))).flatMap units) = some (.num ⟨false,1,400⟩) := rfl
  have hnone : Binary64.ofLiteral ⟨false,1,400⟩ = none := by decide +kernel
  have hlarge : Double.ofLiteral ⟨false,1,400⟩ = .infinite false := by
    unfold Double.ofLiteral
    split
    · rename_i h
      rw [hnone] at h
      cases h
    · rfl
  rw [parsedBody,hraw]
  simp only [Option.bind_eq_bind,Option.bind_some,convert,hlarge]

def large : JsonRequest := posted "1e400" (.num (.infinite false)) parsed_large

def nothing : JsonRequest := posted "null" .null rfl

def prototype : JsonRequest := posted "\x7b\"__proto__\":1\x7d" (.obj [(protoUnits,one)]) rfl

def empty : JsonRequest := posted "\x7b\x7d" (.obj []) rfl

def ignoringNonce : CanonicalizeConfig := { ignoreJsonKeys := [utf16 "nonce".toList] }

/-- An infinite number passes for `null`, and a `__proto__` member for none. -/
theorem untold_values :
    (NoCollision (fun _ => true) {} large.input nothing.input ∧
      ¬ (signatureOf (fun _ => true) {} large.input = signatureOf (fun _ => true) {} nothing.input ↔
        SameRequest {} large nothing)) ∧
    NoCollision (fun _ => true) ignoringNonce prototype.input empty.input ∧
      ¬ (signatureOf (fun _ => true) ignoringNonce prototype.input =
        signatureOf (fun _ => true) ignoringNonce empty.input ↔ SameRequest ignoringNonce prototype empty) := by
  have hlarge : signed (fun _ => true) {} large.input = signed (fun _ => true) {} nothing.input := by decide +kernel
  have hproto : signed (fun _ => true) ignoringNonce prototype.input =
      signed (fun _ => true) ignoringNonce empty.input := by decide +kernel
  refine ⟨⟨noCollision_of_eq hlarge (by decide +kernel),?_⟩,noCollision_of_eq hproto (by decide +kernel),?_⟩
  · intro h
    have hsame := (h.mp (by rw [signatureOf,signatureOf,hlarge])).2
    change Equal Double.Same (.num (.infinite false)) .null at hsame
    cases hsame
  · intro h
    have hsame := (h.mp (by rw [signatureOf,signatureOf,hproto])).2
    change Equal Double.Same (.obj [(protoUnits,one)]) (.obj []) at hsame
    cases hsame with
    | obj hkeys _ =>
      have := hkeys protoUnits
      simp [lookup] at this

end SignatureEquality
end Clearvoiance
