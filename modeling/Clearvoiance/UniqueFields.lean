import Clearvoiance.ExactIntegers
import Clearvoiance.JsonPaths
import Clearvoiance.Mutator

/-! The values that virtual users find at a listed path.  A string is marked with the number of the user, an integer
is moved by a multiple of it, so that no two users find the same, unless the body is one that Go's decoder refuses
and every user gets it as it was captured. -/
namespace Clearvoiance
namespace Mutator

open Json JsonStrings Utf8Text
open Signature (Bytes bytesOf codes goLess)
open SignatureEquality (Finite Double)

/-- A body as Go reads its strings, with its numbers as decimals. -/
def reading (body : Bytes) : Option (Json GoString ℚ) :=
  (parse (codes body)).map (Json.map goString Binary64.exactNumber)

def MutatorUniqueFields.leaves (m : MutatorUniqueFields) (body : Bytes) (contentType : String)
    (parts : List GoString) (vu : ℕ) : Option (Json GoString ℚ) :=
  match m.mutate body contentType vu with
  | .ok out => (reading out).bind (valueAt parts)
  | .error _ => none

def MutatorUniqueFields.TellsApart (m : MutatorUniqueFields) (body : Bytes) (contentType : String)
    (parts : List GoString) (vu vu' : ℕ) : Prop :=
  ∃ v v', m.leaves body contentType parts vu = some v ∧ m.leaves body contentType parts vu' = some v' ∧ v ≠ v'

def Rewritable : Json GoString ℚ → Prop
  | .str _ => True
  | .num q => ∃ n : ℤ, q = n ∧ |n| ≤ 2^53
  | _ => False

/-- What a user adds to an integer stays within 2^53, and so does the sum. -/
def Bounded (value : Json GoString ℚ) (intMul : ℤ) (vu : ℕ) : Prop :=
  |vu*intMul| ≤ 2^53 ∧ ∀ n : ℤ, value = .num n → |n+vu*intMul| ≤ 2^53

section Paths

variable {ν : Type} {mutate : Json GoString ν → Json GoString ν}

theorem parseJSONPath_ne_nil {path : String} {parts : List GoString} (h : parseJSONPath path = some parts) :
    parts ≠ [] := by
  unfold parseJSONPath at h
  split at h
  · split_ifs at h
    rw [← Option.some.inj h]
    exact List.splitOn_ne_nil _ _
  · cases h

theorem valueAt_mutateAtPath {parts : List GoString} (hparts : parts ≠ []) {doc u : Json GoString ν}
    (hu : valueAt parts doc = some u) : valueAt parts (mutateAtPath mutate parts doc) = some (mutate u) := by
  induction parts generalizing doc with
  | nil => exact absurd rfl hparts
  | cons k ks ih =>
    obtain ⟨ms,a,rfl,ha,hrest⟩ := valueAt_cons_eq_some hu
    rw [mutateAtPath,valueAt_obj,lookup_update,if_pos rfl,ha]
    by_cases hks : ks = []
    · subst hks
      rw [valueAt_nil,Option.some.injEq] at hrest
      simp [hrest]
    · simp only [Option.map_some,Option.bind_some,if_neg hks]
      exact ih hks hrest

theorem valueAt_mutateAtPath_other (hfix : ∀ ms, mutate (.obj ms) = .obj ms) {parts other : List GoString}
    (hne : other ≠ parts) {doc u : Json GoString ν} (hu : valueAt parts doc = some u) (hleaf : IsLeaf u) :
    valueAt parts (mutateAtPath mutate other doc) = some u := by
  induction other generalizing parts doc with
  | nil => cases doc <;> exact hu
  | cons l ls ih =>
    cases parts with
    | nil =>
      rw [valueAt_nil,Option.some.injEq] at hu
      subst hu
      cases doc with
      | obj ms => cases hleaf
      | _ => simp [mutateAtPath]
    | cons k ks =>
      obtain ⟨ms,a,rfl,ha,hrest⟩ := valueAt_cons_eq_some hu
      rw [mutateAtPath,valueAt_obj,lookup_update]
      by_cases hk : k = l
      · subst hk
        rw [if_pos rfl,ha,Option.map_some,Option.bind_some]
        by_cases hls : ls = []
        · cases ks with
          | nil => exact absurd (by rw [hls]) hne
          | cons j js =>
            obtain ⟨ns,-,rfl,-,-⟩ := valueAt_cons_eq_some hrest
            rw [if_pos hls,hfix]
            exact hrest
        · rw [if_neg hls]
          exact ih (fun h => hne (by rw [h])) hrest
      · rw [if_neg hk,ha]
        exact hrest

theorem mutateAll_none {path : String} (h : parseJSONPath path = none) (paths : List String) (doc : Json GoString ν) :
    mutateAll mutate (path :: paths) doc = mutateAll mutate paths doc := by
  simp only [mutateAll,List.foldl_cons,h]

theorem mutateAll_some {path : String} {parts : List GoString} (h : parseJSONPath path = some parts)
    (paths : List String) (doc : Json GoString ν) :
    mutateAll mutate (path :: paths) doc = mutateAll mutate paths (mutateAtPath mutate parts doc) := by
  simp only [mutateAll,List.foldl_cons,h]

theorem valueAt_mutateAll_other (hfix : ∀ ms, mutate (.obj ms) = .obj ms) {parts : List GoString} {paths : List String}
    (hcount : parts ∉ paths.filterMap parseJSONPath) {doc u : Json GoString ν} (hu : valueAt parts doc = some u)
    (hleaf : IsLeaf u) : valueAt parts (mutateAll mutate paths doc) = some u := by
  induction paths generalizing doc with
  | nil => exact hu
  | cons path paths ih =>
    cases hpath : parseJSONPath path with
    | none =>
      rw [List.filterMap_cons_none hpath] at hcount
      rw [mutateAll_none hpath]
      exact ih hcount hu
    | some other =>
      rw [List.filterMap_cons_some hpath,List.mem_cons,not_or] at hcount
      rw [mutateAll_some hpath]
      exact ih hcount.2 (valueAt_mutateAtPath_other hfix (Ne.symm hcount.1) hu hleaf)

theorem valueAt_mutateAll (hfix : ∀ ms, mutate (.obj ms) = .obj ms) {parts : List GoString} {paths : List String}
    (hcount : (paths.filterMap parseJSONPath).count parts = 1) {doc u : Json GoString ν}
    (hu : valueAt parts doc = some u) (hleaf : IsLeaf u) (hmutated : IsLeaf (mutate u)) :
    valueAt parts (mutateAll mutate paths doc) = some (mutate u) := by
  induction paths generalizing doc with
  | nil => cases hcount
  | cons path paths ih =>
    cases hpath : parseJSONPath path with
    | none =>
      rw [List.filterMap_cons_none hpath] at hcount
      rw [mutateAll_none hpath]
      exact ih hcount hu
    | some other =>
      rw [List.filterMap_cons_some hpath] at hcount
      rw [mutateAll_some hpath]
      by_cases hsame : other = parts
      · subst hsame
        rw [List.count_cons_self,Nat.add_eq_right,List.count_eq_zero] at hcount
        exact valueAt_mutateAll_other hfix hcount (valueAt_mutateAtPath (parseJSONPath_ne_nil hpath) hu) hmutated
      · rw [List.count_cons_of_ne hsame] at hcount
        exact ih hcount (valueAt_mutateAtPath_other hfix hsame hu hleaf)

end Paths

section Values

/-- What `mutateValue` makes of a string. -/
def marked (vu : ℕ) (v : GoString) : GoString :=
  if '@' ∈ v then v.takeWhile (· ≠ '@') ++ ['+','v','u'] ++ Nat.toDigits 10 vu ++ v.dropWhile (· ≠ '@')
  else v ++ ['-','v','u'] ++ Nat.toDigits 10 vu

theorem mutateValue_str (vu : ℕ) (intMul : ℤ) (v : GoString) : mutateValue vu intMul (.str v) = .str (marked vu v) := by
  rw [mutateValue,marked]
  split_ifs <;> rfl

theorem toDigits_injective : Function.Injective (Nat.toDigits 10) := by
  intro m n h
  have hvalue := congrArg (Nat.ofDigitChars 10 · 0) h
  simpa using hvalue

theorem marked_injective (v : GoString) : Function.Injective fun vu => marked vu v := by
  intro m n h
  simp only [marked] at h
  split_ifs at h
  · exact toDigits_injective (List.append_cancel_left (List.append_cancel_right h))
  · exact toDigits_injective (List.append_cancel_left h)

theorem marked_ne (vu : ℕ) (v : GoString) : marked vu v ≠ v := by
  intro h
  have hlength := congrArg List.length h
  have hparts := congrArg List.length (List.takeWhile_append_dropWhile (p := (· ≠ '@')) (l := v))
  rw [List.length_append] at hparts
  unfold marked at hlength
  split_ifs at hlength
  · simp only [List.length_append,List.length_cons,List.length_nil] at hlength
    omega
  · simp only [List.length_append,List.length_cons,List.length_nil] at hlength
    omega

def ReadAs (q : ℚ) (n : ℤ) : Prop :=
  ∃ l x, Binary64.exactNumber l = q ∧ Binary64.ofLiteral l = some x ∧ Binary64.value x = n

theorem readAs_integer {n : ℤ} (hn : |n| ≤ 2^53) : ReadAs n n := by
  obtain ⟨x,hx,hvalue⟩ := Binary64.ofLiteral_integer hn (Binary64.exactNumber_intLiteral n)
  exact ⟨_,x,Binary64.exactNumber_intLiteral n,hx,hvalue⟩

theorem readAs_printed (x : Finite) {n : ℤ} (hn : Binary64.value x.val = n) : ReadAs (Binary64.printedValue x.val) n :=
  ⟨_,x.val,Binary64.exactNumber_textLiteral x.val,Binary64.ofLiteral_textLiteral x.property,hn⟩

theorem ReadAs.unique {q : ℚ} {m n : ℤ} (hm : ReadAs q m) (hn : ReadAs q n) : m = n := by
  obtain ⟨l,x,rfl,hx,hxm⟩ := hm
  obtain ⟨l',y,hl,hy,hyn⟩ := hn
  have hvalue := Binary64.value_congr hl.symm hx hy
  rw [hxm,hyn] at hvalue
  exact_mod_cast hvalue

theorem plus_integer {x : Finite} {n k : ℤ} (hx : Binary64.value x.val = n) (hk : |k| ≤ 2^53) (hsum : |n+k| ≤ 2^53) :
    ∃ y : Finite, plus (.finite x) (float64 (Int.bmod k (2^64))) = .finite y ∧ Binary64.value y.val = (n+k : ℤ) := by
  have hbmod : Int.bmod k (2^64) = k := by
    rw [abs_le] at hk
    apply Int.bmod_eq_of_le <;> omega
  obtain ⟨d,hd,hvalue⟩ := Binary64.ofLiteral_integer hk (Binary64.exactNumber_intLiteral k)
  obtain ⟨d',hd',rfl⟩ := Double.ofLiteral_finite hd
  have hexact : Binary64.exactNumber (Binary64.sumLiteral x.val d'.val) = (n+k : ℤ) := by
    rw [Binary64.exactNumber_sumLiteral,hx,hvalue]
    push_cast
    rfl
  obtain ⟨s,hs,hsvalue⟩ := Binary64.ofLiteral_integer hsum hexact
  obtain ⟨y,hy,rfl⟩ := Double.ofLiteral_finite hs
  refine ⟨y,?_,hsvalue⟩
  rw [hbmod,float64,hd',plus,hy]

end Values

section Users

variable {m : MutatorUniqueFields} {body : Bytes} {contentType : String} {parts : List GoString}

/-- A leaf of a body as it is read is the leaf of the decoded body. -/
theorem leaf_decoded {doc : Json GoString Finite} (h : unmarshal body = some doc) {D : Json GoString ℚ}
    (hD : reading body = some D) {v : Json GoString ℚ} (hv : valueAt parts D = some v) (hleaf : IsLeaf v) :
    ∃ u, valueAt parts doc = some u ∧ IsLeaf u ∧
      Alike Eq (fun q x => ∃ l, Binary64.exactNumber l = q ∧ readNumber l = some x) v u := by
  obtain ⟨raw,w,hraw,rfl,halike⟩ := unmarshal_eq_some h
  have hDraw : Json.map goString Binary64.exactNumber raw = D := by
    rw [reading,hraw] at hD
    exact Option.some.inj hD
  have hDw : Alike Eq (fun q x => ∃ l, Binary64.exactNumber l = q ∧ readNumber l = some x) D w :=
    hDraw ▸ alike_map_left (f := goString) (g := Binary64.exactNumber) (fun _ _ hs => hs)
      (fun l _ hl => ⟨l,rfl,hl⟩) halike
  obtain ⟨u,hu,hvu⟩ := valueAt_alike hDw hv
  have huleaf : IsLeaf u := by
    cases v <;> cases u <;> trivial
  exact ⟨u,valueAt_framed (framed_arrange goLess [] w) hu huleaf,huleaf,hvu⟩

theorem reading_marshal (v : Json GoString Finite) :
    reading (bytesOf (print marshalPrinter v)) = some (Json.map id (fun x => Binary64.printedValue x.val) v) := by
  rw [reading,parse_marshalled,Option.map_some,Reading.raw,map_map]
  have hstring : goString ∘ marshalReading.items = id := funext goString_items
  have hnumber : Binary64.exactNumber ∘ marshalReading.literal = fun x => Binary64.printedValue x.val :=
    funext fun x => Binary64.exactNumber_textLiteral x.val
  rw [hstring,hnumber]

theorem leaves_unchanged {D : Json GoString ℚ} (hD : reading body = some D) {vu : ℕ}
    (h : vu = 0 ∨ unmarshal body = none) : m.leaves body contentType parts vu = valueAt parts D := by
  have hmutate : m.mutate body contentType vu = .ok body := by
    rw [MutatorUniqueFields.mutate]
    rcases h with rfl | h
    · rw [if_pos (.inl rfl)]
    · simp only [h]
      split_ifs <;> rfl
  rw [MutatorUniqueFields.leaves,hmutate]
  simp [hD]

/-- What a user other than the original one finds is the rewritten value, as it is written. -/
theorem leaves_mutated (hjson : isJSON contentType = true) (hmul : m.intMultiplier ≠ 0)
    (hcount : (m.paths.filterMap parseJSONPath).count parts = 1) {doc u w : Json GoString Finite}
    (h : unmarshal body = some doc) (hu : valueAt parts doc = some u) (hleaf : IsLeaf u) (hw : IsLeaf w) {vu : ℕ}
    (hvu : 0 < vu) (hmutated : mutateValue vu m.intMultiplier (Json.map id .finite u) = Json.map id .finite w) :
    m.leaves body contentType parts vu = some (Json.map id (fun x => Binary64.printedValue x.val) w) := by
  have hpaths : m.paths ≠ [] := by
    intro hnil
    rw [hnil] at hcount
    cases hcount
  obtain ⟨doc',-,hdoc',hout⟩ := mutate_eq_ok hvu hpaths hjson h
  rw [if_neg hmul] at hdoc'
  have hmap : ∀ v : Json GoString Finite, IsLeaf v → IsLeaf (Json.map id Double.finite v) := by
    intro v hv
    cases v <;> trivial
  have hvalue : valueAt parts (mutateAll (mutateValue vu m.intMultiplier) m.paths (Json.map id Double.finite doc)) =
      some (Json.map id .finite w) := by
    rw [← hmutated]
    refine valueAt_mutateAll (fun _ => rfl) hcount ?_ (hmap u hleaf) ?_
    · rw [valueAt_map_id,hu]
      rfl
    · rw [hmutated]
      exact hmap w hw
  rw [← hdoc',valueAt_map_id] at hvalue
  obtain ⟨w',hw',hsame⟩ := Option.map_eq_some_iff.mp hvalue
  have hinj : w' = w := by
    cases w' <;> cases w <;> simp_all [Json.map,IsLeaf]
  rw [MutatorUniqueFields.leaves,hout]
  simp only [reading_marshal,Option.bind_some,valueAt_map_id,hw',hinj]
  rfl

theorem leaves_str (hjson : isJSON contentType = true) (hmul : m.intMultiplier ≠ 0)
    (hcount : (m.paths.filterMap parseJSONPath).count parts = 1) {doc : Json GoString Finite}
    (h : unmarshal body = some doc) {D : Json GoString ℚ} (hD : reading body = some D) {s : GoString}
    (hs : valueAt parts D = some (.str s)) (vu : ℕ) :
    m.leaves body contentType parts vu = some (.str (if vu = 0 then s else marked vu s)) := by
  by_cases hvu : vu = 0
  · rw [leaves_unchanged hD (.inl hvu),hs,if_pos hvu]
  · obtain ⟨u,hu,hleaf,halike⟩ := leaf_decoded h hD hs trivial
    cases u with
    | str t =>
      obtain rfl : s = t := halike
      rw [if_neg hvu]
      exact leaves_mutated (w := .str (marked vu s)) hjson hmul hcount h hu trivial trivial (Nat.pos_of_ne_zero hvu)
        (mutateValue_str vu m.intMultiplier s)
    | _ => simp [Alike] at halike

theorem leaves_num (hjson : isJSON contentType = true) (hmul : m.intMultiplier ≠ 0)
    (hcount : (m.paths.filterMap parseJSONPath).count parts = 1) {doc : Json GoString Finite}
    (h : unmarshal body = some doc) {D : Json GoString ℚ} (hD : reading body = some D) {n : ℤ} (hn : |n| ≤ 2^53)
    (hvalue : valueAt parts D = some (.num n)) {vu : ℕ} (hbound : Bounded (.num n) m.intMultiplier vu) :
    ∃ q, m.leaves body contentType parts vu = some (.num q) ∧ ReadAs q (n+vu*m.intMultiplier) := by
  by_cases hvu : vu = 0
  · refine ⟨n,by rw [leaves_unchanged hD (.inl hvu),hvalue],?_⟩
    simpa [hvu] using readAs_integer hn
  · obtain ⟨u,hu,hleaf,halike⟩ := leaf_decoded h hD hvalue trivial
    cases u with
    | num x =>
      obtain ⟨l,hl,hread⟩ : ∃ l, Binary64.exactNumber l = n ∧ readNumber l = some x := halike
      obtain ⟨z,hz,hzvalue⟩ := Binary64.ofLiteral_integer hn hl
      have hx : Binary64.value x.val = n := by
        rw [readNumber_eq_some hread] at hz
        rw [Option.some.inj hz,hzvalue]
      obtain ⟨y,hy,hyvalue⟩ := plus_integer hx hbound.1 (hbound.2 n rfl)
      refine ⟨_,?_,readAs_printed y hyvalue⟩
      exact leaves_mutated (w := .num y) hjson hmul hcount h hu trivial trivial (Nat.pos_of_ne_zero hvu)
        (congrArg Json.num hy)
    | _ => simp [Alike] at halike

/-- Two users find different values at a listed path exactly when Go's decoder takes the body. -/
theorem users_told_apart_iff (m : MutatorUniqueFields) {body : Bytes} {contentType : String}
    (hjson : isJSON contentType = true) (hmul : m.intMultiplier ≠ 0) {parts : List GoString}
    (hcount : (m.paths.filterMap parseJSONPath).count parts = 1) {D v : Json GoString ℚ} (hD : reading body = some D)
    (hv : valueAt parts D = some v) (hrewritable : Rewritable v) {vu vu' : ℕ} (hne : vu ≠ vu')
    (hbound : Bounded v m.intMultiplier vu) (hbound' : Bounded v m.intMultiplier vu') :
    m.TellsApart body contentType parts vu vu' ↔ (unmarshal body).isSome = true := by
  cases h : unmarshal body with
  | none =>
    simp only [Option.isSome_none,Bool.false_eq_true,iff_false]
    rintro ⟨w,w',hw,hw',hdistinct⟩
    rw [leaves_unchanged hD (.inr h)] at hw hw'
    exact hdistinct (Option.some.inj (hw.symm.trans hw'))
  | some doc =>
    simp only [Option.isSome_some,iff_true]
    cases v with
    | str s =>
      have hleaves := leaves_str hjson hmul hcount h hD hv
      refine ⟨_,_,hleaves vu,hleaves vu',fun hsame => ?_⟩
      have htexts : (if vu = 0 then s else marked vu s) = if vu' = 0 then s else marked vu' s := by
        injection hsame
      split_ifs at htexts with hzero hzero'
      · exact hne (hzero.trans hzero'.symm)
      · exact marked_ne vu' s htexts.symm
      · exact marked_ne vu s htexts
      · exact hne (marked_injective s htexts)
    | num q =>
      obtain ⟨n,rfl,hn⟩ := hrewritable
      obtain ⟨q,hq,hread⟩ := leaves_num hjson hmul hcount h hD hn hv hbound
      obtain ⟨q',hq',hread'⟩ := leaves_num hjson hmul hcount h hD hn hv hbound'
      refine ⟨_,_,hq,hq',fun hsame => ?_⟩
      obtain rfl : q = q' := by injection hsame
      have hsum := hread.unique hread'
      have hmoved : (vu : ℤ)*m.intMultiplier = vu'*m.intMultiplier := by omega
      exact hne (by exact_mod_cast mul_right_cancel₀ hmul hmoved)
    | null => cases hrewritable
    | bool b => cases hrewritable
    | arr vs => cases hrewritable
    | obj ms => cases hrewritable

end Users

def emailMillions : MutatorUniqueFields := ⟨["$.email"],1000000⟩

theorem users_told_apart_email :
    emailMillions.TellsApart nameBody "application/json" ["email".toList] 1 2 := by
  have hbounded : ∀ vu < 3, Bounded (.str "a@b".toList) emailMillions.intMultiplier vu := by
    intro vu hvu
    refine ⟨?_,fun n hn => by cases hn⟩
    have hmoved : (vu : ℤ)*emailMillions.intMultiplier = vu*1000000 := rfl
    rw [hmoved,abs_le]
    omega
  have hname : reading nameBody = some (.obj [("name".toList,.str "Ada".toList),("email".toList,.str "a@b".toList)]) :=
    rfl
  exact (users_told_apart_iff emailMillions (by decide) (by decide) (by decide) hname
    (v := .str "a@b".toList) rfl trivial (by decide)
    (hbounded 1 (by decide)) (hbounded 2 (by decide))).mpr rfl

/-- A number past the range of `float64` beside the address. -/
def hugeScore : Bytes := Hex.utf8 "\x7b\"email\":\"a@b\",\"score\":1e999\x7d"

theorem users_share_address : (reading hugeScore).bind (valueAt ["email".toList]) = some (.str "a@b".toList) ∧
    emailMillions.mutate hugeScore "application/json" 1 = .ok hugeScore ∧
    ¬ emailMillions.TellsApart hugeScore "application/json" ["email".toList] 1 2 := by
  have hrefused : unmarshal hugeScore = none := Option.isNone_iff_eq_none.mp (by decide +kernel)
  have hread : ∃ D, reading hugeScore = some D := ⟨_,rfl⟩
  obtain ⟨D,hD⟩ := hread
  refine ⟨rfl,by decide +kernel,?_⟩
  rintro ⟨v,v',hv,hv',hne⟩
  rw [leaves_unchanged hD (.inr hrefused)] at hv hv'
  exact hne (Option.some.inj (hv.symm.trans hv'))

end Mutator
end Clearvoiance
