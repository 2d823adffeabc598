import Clearvoiance.Binary64Sum
import Clearvoiance.ControlPlane
import Clearvoiance.JsonFrame
import Clearvoiance.JsonMembers
import Clearvoiance.MarshalText
import Clearvoiance.SignatureEquality

/-! The mutator that gives each virtual user values of its own.  It decodes the body, changes the values at the
listed paths and encodes the whole document again.  What is not at a listed path comes out as it went in exactly
when its strings are Unicode and its numbers are values that some `float64` is written as. -/
namespace Clearvoiance
namespace Mutator

open Json JsonStrings UnicodeCase Utf8Text
open Signature (Bytes bytesOf codes goLess)
open SignatureEquality (Finite Double)

structure MutatorUniqueFields where
  paths : List String
  intMultiplier : ℤ

def isJSON (contentType : String) : Bool :=
  "application/json".toList.isPrefixOf (goToLower contentType.toList) ||
    contains (goToLower contentType.toList) "+json".toList

/-- `$.a.b` as the keys `a` and `b`. -/
def parseJSONPath (path : String) : Option (List GoString) :=
  match (ControlPlane.trimSpace path).toList with
  | '$' :: '.' :: rest => if rest = [] then none else some (rest.splitOn '.')
  | _ => none

/-- What `json.Unmarshal` stores in an `any`; a sum may leave the range. -/
abbrev Doc := Json GoString Double

def readNumber (l : Literal) : Option Finite :=
  match Double.ofLiteral l with
  | .finite x => some x
  | .infinite _ => none

/-- `json.Unmarshal` of the body; the keys of a map are unique, and `json.Marshal` takes them in order. -/
def unmarshal (body : Bytes) : Option (Json GoString Finite) := do
  let raw ← parse (codes body)
  if 10000 < raw.depth then none
  let doc ← raw.convert goString fun l => (readNumber l).map .num
  return arrange goLess doc

/-- Addition of `float64`. -/
def plus : Double → Double → Double
  | .finite x,.finite y => Double.ofLiteral (Binary64.sumLiteral x.val y.val)
  | .finite _,.infinite neg => .infinite neg
  | .infinite neg,_ => .infinite neg

def float64 (n : ℤ) : Double := Double.ofLiteral (Binary64.intLiteral n)

def mutateValue (vu : ℕ) (intMul : ℤ) : Doc → Doc
  | .str v =>
    if '@' ∈ v then
      .str (v.takeWhile (· ≠ '@') ++ ['+','v','u'] ++ Nat.toDigits 10 vu ++ v.dropWhile (· ≠ '@'))
    else .str (v ++ ['-','v','u'] ++ Nat.toDigits 10 vu)
  | .num v => .num (plus v (float64 (Int.bmod (vu*intMul) (2^64))))
  | value => value

variable {ν : Type}

def mutateAtPath (mutate : Json GoString ν → Json GoString ν) : List GoString → Json GoString ν → Json GoString ν
  | part :: parts,.obj ms => .obj (update part (if parts = [] then mutate else mutateAtPath mutate parts) ms)
  | _,doc => doc

def mutateAll (mutate : Json GoString ν → Json GoString ν) (paths : List String) (doc : Json GoString ν) :
    Json GoString ν :=
  paths.foldl (fun doc path =>
    match parseJSONPath path with
    | none => doc
    | some parts => mutateAtPath mutate parts doc) doc

def marshalPrinter : Printer GoString Finite where
  string := marshalQuote
  number x := goNumber x.val
  string_safe := safe_marshalQuote
  number_text x := Binary64.signed_text _ x.val

def finite : Double → Option Finite
  | .finite x => some x
  | .infinite _ => none

/-- `json.Marshal`, which has no text for an infinite number. -/
def marshal (doc : Doc) : Option Bytes :=
  (doc.convert id fun x => (finite x).map .num).map fun v => bytesOf (print marshalPrinter v)

def MutatorUniqueFields.mutate (m : MutatorUniqueFields) (body : Bytes) (contentType : String) (vu : ℕ) :
    Except String Bytes :=
  if vu = 0 ∨ body = [] ∨ m.paths = [] then .ok body
  else if isJSON contentType = false then .ok body
  else
    let mul := if m.intMultiplier = 0 then 1000000 else m.intMultiplier
    match unmarshal body with
    | none => .ok body
    | some doc =>
      match marshal (mutateAll (mutateValue vu mul) m.paths (doc.map id .finite)) with
      | none => .error "re-marshal mutated body: json: unsupported value"
      | some out => .ok out

/-- A text as the JSON document it stands for, with strings as bytes and numbers as decimals. -/
def exactly (body : Bytes) : Option (Json (List ℕ) ℚ) :=
  (parse (codes body)).map (Json.map exactString Binary64.exactNumber)

def MutatorUniqueFields.listed (m : MutatorUniqueFields) : List (List (List ℕ)) :=
  renamed encode (m.paths.filterMap parseJSONPath)

def WellFormed (s : List ℕ) : Prop := ∃ t : GoString, encode t = s

/-- The body is not decoded, or what is not at a listed path is text and numbers that can be written. -/
def MutatorUniqueFields.Spares (m : MutatorUniqueFields) (body : Bytes) (contentType : String) (doc : Json (List ℕ) ℚ) :
    Prop :=
  m.paths = [] ∨ isJSON contentType = false ∨ unmarshal body = none ∨ Within WellFormed Binary64.Written m.listed doc

example : parseJSONPath " $.user.email " = some ["user".toList,"email".toList] := by decide

theorem readNumber_eq_some {l : Literal} {x : Finite} (h : readNumber l = some x) :
    Binary64.ofLiteral l = some x.val := by
  unfold readNumber Double.ofLiteral at h
  split at h
  · rename_i y hy
    split at hy
    · rename_i z hz
      cases hy
      cases h
      exact hz
    · cases hy
  · cases h

theorem unmarshal_eq_some {body : Bytes} {doc : Json GoString Finite} (h : unmarshal body = some doc) :
    ∃ raw v, parse (codes body) = some raw ∧ doc = arrange goLess v ∧
      Alike (fun items s => goString items = s) (fun l x => readNumber l = some x) raw v := by
  simp only [unmarshal,Option.bind_eq_bind,Option.bind_eq_some_iff,Option.pure_def] at h
  obtain ⟨raw,hraw,h⟩ := h
  split_ifs at h
  · simp at h
  · simp only [Option.bind_eq_some_iff,Option.some.injEq] at h
    obtain ⟨v,hv,hdoc⟩ := h
    exact ⟨raw,v,hraw,hdoc.symm,convert_alike hv⟩

theorem isSome_readNumber (l : Literal) : (readNumber l).isSome = (Binary64.ofLiteral l).isSome := by
  cases hl : Binary64.ofLiteral l with
  | none =>
    cases hread : readNumber l with
    | none => rfl
    | some x =>
      rw [readNumber_eq_some hread] at hl
      cases hl
  | some x =>
    obtain ⟨y,hy,-⟩ := Double.ofLiteral_finite hl
    rw [readNumber,hy]
    rfl

/-- `json.Unmarshal` takes what is JSON, not too deep, and has its numbers in the range of `float64`. -/
theorem isSome_unmarshal_iff {body : Bytes} : (unmarshal body).isSome = true ↔
    ∃ raw, parse (codes body) = some raw ∧ raw.depth ≤ 10000 ∧
      Numeric (fun l => (Binary64.ofLiteral l).isSome = true) raw := by
  have hconvert : ∀ raw : Raw, (raw.convert goString fun l => (readNumber l).map Json.num).isSome = true ↔
      Numeric (fun l => (Binary64.ofLiteral l).isSome = true) raw := by
    intro raw
    rw [isSome_convert_iff]
    simp only [Option.isSome_map,isSome_readNumber]
  unfold unmarshal
  cases parse (codes body) with
  | none => simp
  | some raw =>
    simp only [Option.bind_eq_bind,Option.bind_some,Option.some.injEq,exists_eq_left',← hconvert]
    by_cases hdepth : 10000 < raw.depth
    · simp [hdepth]
    · rw [if_neg hdepth]
      cases raw.convert goString fun l => (readNumber l).map Json.num <;> simp [not_lt.mp hdepth]

section Paths

variable {μ : Type}

theorem update_mapMembers {h : ν → μ} {mutate : Json GoString μ → Json GoString μ}
    {mutate' : Json GoString ν → Json GoString ν} (hm : ∀ v, mutate (map id h v) = map id h (mutate' v))
    (part : GoString) (ms : List (GoString × Json GoString ν)) :
    update part mutate (mapMembers id h ms) = mapMembers id h (update part mutate' ms) := by
  unfold update
  rw [mapMembers_eq,mapMembers_eq,List.map_map,List.map_map]
  refine List.map_congr_left fun m _ => ?_
  simp only [Function.comp_apply,id_eq]
  split_ifs
  · rw [hm]
  · rfl

theorem mutateAtPath_map {h : ν → μ} {mutate : Json GoString μ → Json GoString μ}
    {mutate' : Json GoString ν → Json GoString ν} (hm : ∀ v, mutate (map id h v) = map id h (mutate' v))
    (parts : List GoString) (doc : Json GoString ν) :
    mutateAtPath mutate parts (map id h doc) = map id h (mutateAtPath mutate' parts doc) := by
  induction parts generalizing doc with
  | nil => cases doc <;> rfl
  | cons part parts ih =>
    cases doc with
    | obj ms =>
      rw [map,mutateAtPath,mutateAtPath,map]
      congr 1
      apply update_mapMembers
      split_ifs
      · exact hm
      · exact ih
    | _ => rfl

theorem mutateAll_map {h : ν → μ} {mutate : Json GoString μ → Json GoString μ}
    {mutate' : Json GoString ν → Json GoString ν} (hm : ∀ v, mutate (map id h v) = map id h (mutate' v))
    (paths : List String) (doc : Json GoString ν) :
    mutateAll mutate paths (map id h doc) = map id h (mutateAll mutate' paths doc) := by
  unfold mutateAll
  induction paths generalizing doc with
  | nil => rfl
  | cons path paths ih =>
    rw [List.foldl_cons,List.foldl_cons,← ih]
    cases parseJSONPath path with
    | none => rfl
    | some parts => simp only [mutateAtPath_map hm]

theorem framed_mutateAtPath {ps : List (List GoString)} {parts : List GoString} (hparts : parts ∈ ps)
    (mutate : Json GoString ν → Json GoString ν) (doc : Json GoString ν) :
    Framed ps doc (mutateAtPath mutate parts doc) := by
  induction parts generalizing ps doc with
  | nil => exact .listed hparts
  | cons part parts ih =>
    have hrest := mem_under_iff.mpr hparts
    cases doc with
    | obj ms =>
      rw [mutateAtPath]
      refine framed_update (fun v => ?_) ms
      split_ifs with hlast
      · rw [hlast] at hrest
        exact .listed hrest
      · exact ih hrest v
    | _ => exact .refl ps _

theorem framed_mutateAll (mutate : Json GoString ν → Json GoString ν) {paths : List String} {ps : List (List GoString)}
    (hsub : paths.filterMap parseJSONPath ⊆ ps) (doc : Json GoString ν) :
    Framed ps doc (mutateAll mutate paths doc) := by
  unfold mutateAll
  induction paths generalizing doc with
  | nil => exact .refl ps doc
  | cons path paths ih =>
    rw [List.foldl_cons]
    cases hpath : parseJSONPath path with
    | none =>
      rw [List.filterMap_cons_none hpath] at hsub
      exact ih hsub doc
    | some parts =>
      rw [List.filterMap_cons_some hpath,List.cons_subset] at hsub
      exact (framed_mutateAtPath hsub.1 mutate doc).trans (ih hsub.2 _)

end Paths

theorem abs_bmod_le (n : ℤ) : |Int.bmod n (2^64)| ≤ 2^63 := by
  have hlow := Int.le_bmod (x := n) (m := 2^64) (by norm_num)
  have hhigh := Int.bmod_le (x := n) (m := 2^64) (by norm_num)
  rw [abs_le]
  norm_num at hlow hhigh ⊢
  omega

theorem plus_float64 (x : Finite) (n : ℤ) : ∃ y, plus (.finite x) (float64 (Int.bmod n (2^64))) = .finite y := by
  obtain ⟨d,hd,hsmall⟩ := Binary64.ofLiteral_int (abs_bmod_le n)
  obtain ⟨d',hd',hval⟩ := Double.ofLiteral_finite hd
  rw [← hval] at hsmall
  obtain ⟨s,hs⟩ := Option.isSome_iff_exists.mp (Binary64.add_isSome x.property hsmall)
  obtain ⟨y,hy,-⟩ := Double.ofLiteral_finite hs
  refine ⟨y,?_⟩
  rw [float64,hd',plus,hy]

theorem mutateValue_finite (vu : ℕ) (intMul : ℤ) (v : Json GoString Finite) :
    ∃ w : Json GoString Finite, mutateValue vu intMul (map id .finite v) = map id .finite w := by
  cases v with
  | str s =>
    rw [map,mutateValue]
    split_ifs
    · exact ⟨.str _,rfl⟩
    · exact ⟨.str _,rfl⟩
  | num x =>
    obtain ⟨y,hy⟩ := plus_float64 x (vu*intMul)
    refine ⟨.num y,?_⟩
    rw [map,mutateValue,hy,map]
  | null => exact ⟨.null,rfl⟩
  | bool b => exact ⟨.bool b,rfl⟩
  | arr vs => exact ⟨.arr vs,rfl⟩
  | obj ms => exact ⟨.obj ms,rfl⟩

theorem marshal_finite (v : Json GoString Finite) :
    marshal (map id .finite v) = some (bytesOf (print marshalPrinter v)) := by
  have hback : convert id (fun x => (finite x).map .num) (map id Double.finite v) = some v := by
    apply convert_map
    · exact fun _ => rfl
    · exact fun _ => rfl
  rw [marshal,hback]
  rfl

def marshalReading : Reading marshalPrinter encodeChar where
  items := marshalItems encodeChar
  literal x := Binary64.textLiteral x.val.neg x.val
  plain := coding_encodeChar.plain
  string := coding_encodeChar.lex_marshalQuote
  number x := Binary64.classify_magnitude x.val x.val.neg

def written (v : Json GoString Finite) : Json (List ℕ) ℚ := map encode (fun x => Binary64.printedValue x.val) v

theorem parse_marshalled (v : Json GoString Finite) :
    parse (codes (bytesOf (print marshalPrinter v))) = some (marshalReading.raw v) := by
  have hbytes : codes (bytesOf (print marshalPrinter v)) = (print marshalPrinter v).flatMap encodeChar := utf8_ofList _
  rw [hbytes,marshalReading.parse_print]

theorem goString_items (s : GoString) : goString (marshalReading.items s) = s :=
  goString_of_exact (exactString_marshalItems s)

theorem exact_raw (v : Json GoString Finite) : map exactString Binary64.exactNumber (marshalReading.raw v) = written v := by
  rw [Reading.raw,map_map,written]
  have hstring : exactString ∘ marshalReading.items = encode := funext exactString_marshalItems
  have hnumber : Binary64.exactNumber ∘ marshalReading.literal = fun x => Binary64.printedValue x.val :=
    funext fun x => Binary64.exactNumber_textLiteral x.val
  rw [hstring,hnumber]

theorem exactly_marshal (v : Json GoString Finite) : exactly (bytesOf (print marshalPrinter v)) = some (written v) := by
  rw [exactly,parse_marshalled,Option.map_some,exact_raw]

/-- A document and its decoded form agree outside the paths exactly when the document can be written there. -/
theorem framed_written_iff {raw : Raw} {v : Json GoString Finite}
    (hvalues : Alike (fun items s => goString items = s) (fun l x => readNumber l = some x) raw v)
    (ps : List (List (List ℕ))) :
    Framed ps (map exactString Binary64.exactNumber raw) (written v) ↔
      Within WellFormed Binary64.Written ps (map exactString Binary64.exactNumber raw) := by
  constructor
  · intro hframed
    exact within_of_framed hframed (within_map (fun s => ⟨s,rfl⟩) (fun x => ⟨x.val,x.property,rfl⟩) [] _)
  · intro hwithin
    refine framed_of_within ?_ ?_ hvalues hwithin
    · rintro items s rfl ⟨t,ht⟩
      rw [goString_of_exact ht.symm,ht]
    · intro l x hx hl
      exact Binary64.printed_of_written (readNumber_eq_some hx) hl

/-- A body and its decoded form agree outside the paths exactly when the body can be written there. -/
theorem framed_unmarshal_iff {body : Bytes} {doc : Json GoString Finite} (h : unmarshal body = some doc)
    {D : Json (List ℕ) ℚ} (hD : exactly body = some D) (ps : List (List (List ℕ))) :
    Framed ps D (written doc) ↔ Within WellFormed Binary64.Written ps D := by
  obtain ⟨raw,v,hraw,rfl,hvalues⟩ := unmarshal_eq_some h
  have hDraw : map exactString Binary64.exactNumber raw = D := by
    rw [exactly,hraw] at hD
    exact Option.some.inj hD
  have harrange : Framed ps (written v) (written (arrange goLess v)) :=
    ((framed_arrange goLess [] v).map encode_injective).mono (List.nil_subset _)
  rw [← hDraw,← framed_written_iff hvalues]
  exact ⟨fun h => h.trans harrange.symm,fun h => h.trans harrange⟩

/-- The mutator returns a document that differs at the listed paths only. -/
def MutatorUniqueFields.FrameKept (m : MutatorUniqueFields) (body : Bytes) (contentType : String) (vu : ℕ) : Prop :=
  ∃ out D D', m.mutate body contentType vu = .ok out ∧ exactly body = some D ∧ exactly out = some D' ∧
    Framed m.listed D D'

theorem mutate_eq_ok {m : MutatorUniqueFields} {body : Bytes} {contentType : String} {vu : ℕ}
    {doc : Json GoString Finite} (hvu : 0 < vu) (hpaths : m.paths ≠ []) (hjson : isJSON contentType = true)
    (h : unmarshal body = some doc) : ∃ doc', Framed (m.paths.filterMap parseJSONPath) doc doc' ∧
      map id Double.finite doc' = mutateAll (mutateValue vu (if m.intMultiplier = 0 then 1000000 else m.intMultiplier))
        m.paths (map id Double.finite doc) ∧
      m.mutate body contentType vu = .ok (bytesOf (print marshalPrinter doc')) := by
  have hbody : body ≠ [] := by
    rintro rfl
    cases h
  generalize hmul : (if m.intMultiplier = 0 then 1000000 else m.intMultiplier) = mul
  choose mutate' hmutate' using mutateValue_finite vu mul
  refine ⟨mutateAll mutate' m.paths doc,framed_mutateAll mutate' (List.Subset.refl _) doc,
    (mutateAll_map hmutate' m.paths doc).symm,?_⟩
  rw [MutatorUniqueFields.mutate,if_neg (by simp [hvu.ne',hbody,hpaths]),if_neg (by simp [hjson])]
  simp only [h,hmul,mutateAll_map hmutate',marshal_finite]

/-- A mutated body differs at the listed paths only, exactly when it is not decoded or can be written elsewhere. -/
theorem frame_kept_iff (m : MutatorUniqueFields) (contentType : String) {body : Bytes} {vu : ℕ} (hvu : 0 < vu)
    {D : Json (List ℕ) ℚ} (hD : exactly body = some D) :
    m.FrameKept body contentType vu ↔ m.Spares body contentType D := by
  have hsame : m.mutate body contentType vu = .ok body → m.FrameKept body contentType vu :=
    fun h => ⟨body,D,D,h,hD,hD,.refl _ D⟩
  by_cases hpaths : m.paths = []
  · exact iff_of_true (hsame (by simp [MutatorUniqueFields.mutate,hpaths])) (.inl hpaths)
  by_cases hjson : isJSON contentType = false
  · exact iff_of_true (hsame (by simp [MutatorUniqueFields.mutate,hjson])) (.inr (.inl hjson))
  cases h : unmarshal body with
  | none =>
    exact iff_of_true (hsame (by simp [MutatorUniqueFields.mutate,h])) (.inr (.inr (.inl h)))
  | some doc =>
    obtain ⟨doc',hdoc',-,hout⟩ := mutate_eq_ok hvu hpaths (Bool.not_eq_false _ ▸ hjson) h
    have hframe : Framed m.listed (written doc) (written doc') := hdoc'.map encode_injective
    have hwritten : m.FrameKept body contentType vu ↔ Framed m.listed D (written doc') := by
      constructor
      · rintro ⟨out,D₁,D₂,hmutate,hD₁,hD₂,hframed⟩
        rw [hout] at hmutate
        cases hmutate
        rw [exactly_marshal] at hD₂
        cases hD₂
        rw [hD] at hD₁
        cases hD₁
        exact hframed
      · exact fun hframed => ⟨_,D,_,hout,hD,exactly_marshal doc',hframed⟩
    rw [hwritten,MutatorUniqueFields.Spares,h]
    simp only [hpaths,hjson,false_or,reduceCtorEq]
    rw [← framed_unmarshal_iff h hD]
    exact ⟨fun hframed => hframed.trans hframe.symm,fun hframed => hframed.trans hframe⟩

def emailPath : MutatorUniqueFields := ⟨["$.email"],0⟩

/-- `Ada` and an address. -/
def nameBody : Bytes := Hex.utf8 "\x7b\"name\":\"Ada\",\"email\":\"a@b\"\x7d"

theorem frame_kept_iff_nameBody : emailPath.FrameKept nameBody "application/json" 1 := by
  have hname : exactly nameBody = some (written (.obj [("name".toList,.str "Ada".toList),
    ("email".toList,.str "a@b".toList)])) := rfl
  refine (frame_kept_iff emailPath "application/json" Nat.one_pos hname).mpr (.inr (.inr (.inr ?_)))
  exact within_map (fun s => ⟨s,rfl⟩) (fun x => ⟨x.val,x.property,rfl⟩) _ _

/-- A body with an integer that is no `float64`, and an address. -/
def largeId : Bytes := Hex.utf8 "\x7b\"id\":9007199254740993,\"email\":\"a@b\"\x7d"

def roundedId : Bytes := Hex.utf8 "\x7b\"email\":\"a+vu1@b\",\"id\":9007199254740992\x7d"

def idKey : List ℕ := [0x69,0x64]

def emailKey : List ℕ := [0x65,0x6D,0x61,0x69,0x6C]

/-- The integer beside the address comes out as another integer. -/
theorem id_rounded : (exactly largeId).isSome = true ∧ ¬ emailPath.FrameKept largeId "application/json" 1 := by
  refine ⟨rfl,?_⟩
  rintro ⟨out,D,D',hout,hD,hD',hframed⟩
  have hmutate : emailPath.mutate largeId "application/json" 1 = .ok roundedId := by decide +kernel
  rw [hmutate] at hout
  cases hout
  have hin : exactly largeId = some (.obj [(idKey,.num (Binary64.exactNumber ⟨false,9007199254740993,0⟩)),
    (emailKey,.str [0x61,0x40,0x62])]) := rfl
  have hrounded : exactly roundedId = some (.obj [(emailKey,.str [0x61,0x2B,0x76,0x75,0x31,0x40,0x62]),
    (idKey,.num (Binary64.exactNumber ⟨false,9007199254740992,0⟩))]) := rfl
  rw [hin] at hD
  rw [hrounded] at hD'
  cases hD
  cases hD'
  have hlisted : emailPath.listed = [[emailKey]] := by decide +kernel
  rw [hlisted] at hframed
  cases hframed with
  | listed h => simp at h
  | obj _ h =>
    have hid := h idKey _ _ rfl rfl
    generalize hq : Binary64.exactNumber ⟨false,9007199254740993,0⟩ = q at hid
    generalize hr : Binary64.exactNumber ⟨false,9007199254740992,0⟩ = r at hid
    cases hid with
    | listed h => revert h; decide
    | num =>
      rw [← hq] at hr
      norm_num [Binary64.exactNumber,Binary64.absValue] at hr

end Mutator
end Clearvoiance
