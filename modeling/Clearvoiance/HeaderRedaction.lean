import Clearvoiance.InvokeEndpoint
import Clearvoiance.RegExps
import Clearvoiance.UnicodeCase
import Mathlib.Data.List.Duplicate

/-! Redaction of captured headers.  The matchers are strings and regular expressions; the expressions are objects that
every call shares, so what a call makes of a name may depend on the names of the calls before it. -/
namespace Clearvoiance
namespace HeaderRedaction

open JsonStrings RegExps
open InvokeEndpoint (js numberText)
open SignatureEquality (Double)

section Case

/-- A unit that is no part of a pair. -/
def single (x : UInt16) : Char ⊕ UInt16 :=
  if isHigh x.toNat || isLow x.toNat then .inr x else .inl (Char.ofNat x.toNat)

/-- The characters of a string, and the surrogates that stand alone. -/
def pieces : JsString → List (Char ⊕ UInt16)
  | [] => []
  | [x] => [single x]
  | x :: y :: t =>
    if isHigh x.toNat && isLow y.toNat then .inl (Char.ofNat (combine x.toNat y.toNat)) :: pieces t
    else single x :: pieces (y :: t)

/-- A lone surrogate has no case, and ends the word before it. -/
def lowerPieces (word : List Char) : List (Char ⊕ UInt16) → JsString
  | [] => utf16 (UnicodeCase.toLowerCase word)
  | .inl c :: t => lowerPieces (word ++ [c]) t
  | .inr x :: t => utf16 (UnicodeCase.toLowerCase word) ++ x :: lowerPieces [] t

/-- `String.prototype.toLowerCase`, of any units. -/
def toLowerCase (s : JsString) : JsString := lowerPieces [] (pieces s)

end Case

/-- A regular expression is given by the object that it is. -/
inductive HeaderMatcher (ι : Type)
  | text (s : JsString)
  | regexp (r : ι)

structure RedactionConfig (ι : Type) where
  headers : Option (List (HeaderMatcher ι))

def defaultHeaderDeny {ι : Type} : List (HeaderMatcher ι) := []

def RedactionConfig.matchers {ι : Type} (cfg : RedactionConfig ι) : List (HeaderMatcher ι) :=
  cfg.headers.getD defaultHeaderDeny

/-- A value as Node has it; a number may be no number. -/
inductive RawValue
  | undefined
  | text (s : JsString)
  | number (x : Option Double)
  | many (vs : List JsString)

def RawValue.values : RawValue → Option (List JsString)
  | .undefined => none
  | .text s => some [s]
  | .number none => some [js "NaN"]
  | .number (some x) => some [utf16 (numberText x)]
  | .many vs => some vs

/-- The own properties of the raw headers, as `Object.entries` lists them. -/
abbrev RawHeaders := List (JsString × RawValue)

/-- The own properties of the object `headers`, its prototype if that is set, and the names of redacted headers. -/
structure RedactionResult where
  headers : JsString → Option (List JsString)
  prototype : Option (List JsString)
  applied : List JsString

namespace RedactionResult

def empty : RedactionResult := ⟨fun _ => none,none,[]⟩

def protoName : JsString := js "__proto__"

/-- `headers[name] = { values }`, which sets the prototype under one name. -/
def assign (r : RedactionResult) (name : JsString) (values : List JsString) : RedactionResult :=
  if name = protoName then { r with prototype := some values }
  else { r with headers := Function.update r.headers name (some values) }

local instance lawfulBEq_jsString : LawfulBEq JsString := inferInstance

def add (r : RedactionResult) (entry : JsString) : RedactionResult :=
  if entry ∈ r.applied then r else { r with applied := r.applied ++ [entry] }

@[simp] theorem headers_add (r : RedactionResult) (entry : JsString) : (r.add entry).headers = r.headers := by
  unfold add
  split_ifs <;> rfl

@[simp] theorem applied_assign (r : RedactionResult) (name : JsString) (values : List JsString) :
    (r.assign name values).applied = r.applied := by
  unfold assign
  split_ifs <;> rfl

theorem headers_assign (r : RedactionResult) (name : JsString) (values : List JsString) (k : JsString) :
    (r.assign name values).headers k = if k = name ∧ name ≠ protoName then some values else r.headers k := by
  unfold assign
  split_ifs with hproto h h
  · exact absurd hproto h.2
  · rfl
  · rw [h.1]
    exact Function.update_self _ _ _
  · exact Function.update_of_ne (fun hk => h ⟨hk,hproto⟩) _ _

end RedactionResult

open RedactionResult (protoName)

def redacted : JsString := js "[REDACTED]"

def entryOf (name : JsString) : JsString := js "header:" ++ name

section

variable {ι : Type} [DecidableEq ι] (regs : ι → RegExp) (cfg : RedactionConfig ι)

/-- `isRedacted`, with the `lastIndex` of each expression before and after. -/
def isRedacted (lowerName : JsString) : List (HeaderMatcher ι) → (ι → ℕ) → Bool × (ι → ℕ)
  | [],σ => (false,σ)
  | .text m :: ms,σ => if toLowerCase m = lowerName then (true,σ) else isRedacted lowerName ms σ
  | .regexp r :: ms,σ =>
    let result := (regs r).test (σ r) lowerName
    if result.1 then (true,Function.update σ r result.2)
    else isRedacted lowerName ms (Function.update σ r result.2)

def redactHeader (state : (ι → ℕ) × RedactionResult) (h : JsString × RawValue) : (ι → ℕ) × RedactionResult :=
  match h.2.values with
  | none => state
  | some values =>
    let lower := toLowerCase h.1
    match isRedacted regs lower cfg.matchers state.1 with
    | (true,σ) => (σ,(state.2.assign lower (values.map fun _ => redacted)).add (entryOf lower))
    | (false,σ) => (σ,state.2.assign lower values)

def redactHeaders (σ : ι → ℕ) (rawHeaders : RawHeaders) : (ι → ℕ) × RedactionResult :=
  rawHeaders.foldl (redactHeader regs cfg) (σ,.empty)

def after (σ : ι → ℕ) (calls : List RawHeaders) : ι → ℕ :=
  calls.foldl (fun σ raw => (redactHeaders regs cfg σ raw).1) σ

def fresh : ι → ℕ := fun _ => 0

def hit (σ : ι → ℕ) (name : JsString) : HeaderMatcher ι → Bool
  | .text m => toLowerCase m = name
  | .regexp r => ((regs r).test (σ r) name).1

def matched (name : JsString) : Bool := cfg.matchers.any (hit regs fresh name)

/-- Two headers that differ in the values of a redacted header at most, and not in their number. -/
structure AlikeHeader (h h' : JsString × RawValue) : Prop where
  name : h.1 = h'.1
  count : h.2.values.map List.length = h'.2.values.map List.length
  values : matched regs cfg (toLowerCase h.1) = false → h.2.values = h'.2.values

abbrev Alike : RawHeaders → RawHeaders → Prop := List.Forall₂ (AlikeHeader regs cfg)

/-- What redaction is for: a call after some others. -/
structure Sound (σ : ι → ℕ) (calls : List RawHeaders) (raw : RawHeaders) : Prop where
  independent : ∀ calls' raw', List.Forall₂ (Alike regs cfg) calls calls' → Alike regs cfg raw raw' →
    (redactHeaders regs cfg (after regs cfg σ calls') raw').2 = (redactHeaders regs cfg (after regs cfg σ calls) raw).2
  preserved : ∀ h ∈ raw, ∀ values, h.2.values = some values → matched regs cfg (toLowerCase h.1) = false →
    (redactHeaders regs cfg (after regs cfg σ calls) raw).2.headers (toLowerCase h.1) = some values
  applied : (redactHeaders regs cfg (after regs cfg σ calls) raw).2.applied =
    (raw.filter fun h => h.2.values.isSome && matched regs cfg (toLowerCase h.1)).map
      fun h => entryOf (toLowerCase h.1)

/-- A name as the expressions meet it: if it matches, then some matcher finds it from where the matcher stands, or
stands twice among the matchers and so begins anew; if it does not match, then none finds it. -/
structure Settled (σ : ι → ℕ) (name : JsString) : Prop where
  found : matched regs cfg name = true →
    ∃ m ∈ cfg.matchers, hit regs σ name m = true ∨ (hit regs fresh name m = true ∧ List.Duplicate m cfg.matchers)
  passed : matched regs cfg name = false → ∀ m ∈ cfg.matchers, hit regs σ name m = false
  named : matched regs cfg name = false → name ≠ protoName

def Recognised : (ι → ℕ) → RawHeaders → Prop
  | _,[] => True
  | σ,h :: raw =>
    if h.2.values.isSome then
      Settled regs cfg σ (toLowerCase h.1) ∧
        Recognised (isRedacted regs (toLowerCase h.1) cfg.matchers σ).2 raw
    else Recognised σ raw

omit [DecidableEq ι] in
theorem matched_iff (name : JsString) :
    matched regs cfg name = true ↔ ∃ m ∈ cfg.matchers, hit regs fresh name m = true := List.any_eq_true

omit [DecidableEq ι] in
theorem unmatched_iff {regs : ι → RegExp} {cfg : RedactionConfig ι} {name : JsString} :
    matched regs cfg name = false ↔ ∀ m ∈ cfg.matchers, hit regs fresh name m = false := by
  simp [matched]

omit [DecidableEq ι] in
/-- Expressions without the flags `g` and `y` settle every name that can be stored. -/
theorem settled_of_stateless (h : ∀ r, .regexp r ∈ cfg.matchers → (regs r).stateful = false) (σ : ι → ℕ)
    {name : JsString} (hname : matched regs cfg name = false → name ≠ protoName) : Settled regs cfg σ name := by
  have hsame : ∀ m ∈ cfg.matchers, hit regs σ name m = hit regs fresh name m := by
    intro m hm
    cases m with
    | text m => rfl
    | regexp r => exact (RegExp.test_stateless (h r hm) _ _).1
  refine ⟨fun hmatched => ?_,fun hmatched m hm => ?_,hname⟩
  · obtain ⟨m,hm,hhit⟩ := (matched_iff regs cfg name).mp hmatched
    exact ⟨m,hm,.inl ((hsame m hm).trans hhit)⟩
  · exact (hsame m hm).trans (unmatched_iff.mp hmatched m hm)

theorem hit_update_of_ne {σ : ι → ℕ} {r : ι} (n : ℕ) (name : JsString) {m : HeaderMatcher ι} (h : m ≠ .regexp r) :
    hit regs (Function.update σ r n) name m = hit regs σ name m := by
  cases m with
  | text m => rfl
  | regexp q =>
    have hq : q ≠ r := fun hq => h (congrArg HeaderMatcher.regexp hq)
    rw [hit,hit,Function.update_of_ne hq]

/-- Matchers that are passed over find the name later on as they would at first. -/
theorem isRedacted_iff (name : JsString) (ms : List (HeaderMatcher ι)) (σ : ι → ℕ) :
    (isRedacted regs name ms σ).1 = true ↔
      ∃ m ∈ ms, hit regs σ name m = true ∨ (hit regs fresh name m = true ∧ List.Duplicate m ms) := by
  induction ms generalizing σ with
  | nil => simp [isRedacted]
  | cons m ms ih =>
    cases hhit : hit regs σ name m with
    | true =>
      refine iff_of_true ?_ ⟨m,List.mem_cons_self,.inl hhit⟩
      cases m with
      | text m => rw [isRedacted,if_pos (by simpa [hit] using hhit)]
      | regexp r =>
        rw [hit] at hhit
        simp [isRedacted,hhit]
    | false =>
      obtain ⟨σ',hstep,hothers,hself⟩ : ∃ σ', isRedacted regs name (m :: ms) σ = isRedacted regs name ms σ' ∧
          (∀ m' ≠ m, hit regs σ' name m' = hit regs σ name m') ∧ hit regs σ' name m = hit regs fresh name m := by
        cases m with
        | text m => exact ⟨σ,by rw [isRedacted,if_neg (by simpa [hit] using hhit)],fun _ _ => rfl,rfl⟩
        | regexp r =>
          rw [hit] at hhit
          refine ⟨Function.update σ r ((regs r).test (σ r) name).2,by simp [isRedacted,hhit],
            fun m' hm' => hit_update_of_ne regs _ name hm',?_⟩
          rw [hit,Function.update_self,RegExp.test_retry hhit]
          rfl
      rw [hstep,ih]
      constructor
      · rintro ⟨m',hm',h⟩
        refine ⟨m',List.mem_cons_of_mem _ hm',?_⟩
        rcases h with h | ⟨h,hdup⟩
        · by_cases heq : m' = m
          · rw [heq] at hm' h ⊢
            exact .inr ⟨hself ▸ h,.cons_mem hm'⟩
          · exact .inl (hothers m' heq ▸ h)
        · exact .inr ⟨h,hdup.duplicate_cons m⟩
      · rintro ⟨m',hm',h⟩
        by_cases heq : m' = m
        · rw [heq,hhit] at h
          obtain ⟨h,hdup⟩ : hit regs fresh name m = true ∧ List.Duplicate m (m :: ms) := by simpa using h
          exact ⟨m,List.duplicate_cons_self_iff.mp hdup,.inl (hself.trans h)⟩
        · have hmem : m' ∈ ms := (List.mem_cons.mp hm').resolve_left heq
          refine ⟨m',hmem,?_⟩
          rcases h with h | ⟨h,hdup⟩
          · exact .inl ((hothers m' heq).trans h)
          · exact .inr ⟨h,(List.duplicate_cons_iff_of_ne heq).mp hdup⟩

/-- A name is settled exactly when it is redacted as it matches, and can be stored. -/
theorem settled_iff (σ : ι → ℕ) (name : JsString) :
    Settled regs cfg σ name ↔
      (isRedacted regs name cfg.matchers σ).1 = matched regs cfg name ∧
        (matched regs cfg name = false → name ≠ protoName) := by
  have hiff := isRedacted_iff regs name cfg.matchers σ
  cases hmatched : matched regs cfg name with
  | true =>
    constructor
    · exact fun h => ⟨hiff.mpr (h.found hmatched),nofun⟩
    · exact fun h => ⟨fun _ => hiff.mp h.1,fun hf => absurd (hmatched.symm.trans hf) nofun,
        fun hf => absurd (hmatched.symm.trans hf) nofun⟩
  | false =>
    constructor
    · intro h
      refine ⟨?_,fun _ => h.named hmatched⟩
      rw [← Bool.not_eq_true,hiff]
      rintro ⟨m,hm,h' | ⟨h',-⟩⟩
      · rw [h.passed hmatched m hm] at h'
        cases h'
      · rw [unmatched_iff.mp hmatched m hm] at h'
        cases h'
    · rintro ⟨h,hname⟩
      refine ⟨fun ht => absurd (hmatched.symm.trans ht) nofun,fun _ m hm => ?_,fun _ => hname rfl⟩
      rw [← Bool.not_eq_true] at h ⊢
      exact fun hhit => h (hiff.mpr ⟨m,hm,.inl hhit⟩)

end

/-- A header that the loop has looked at: its name in lower case, its values, and whether it is redacted. -/
structure Tested where
  name : JsString
  values : List JsString
  flag : Bool

def Tested.shown (t : Tested) : List JsString := if t.flag then t.values.map fun _ => redacted else t.values

def Tested.store (r : RedactionResult) (t : Tested) : RedactionResult :=
  if t.flag then (r.assign t.name t.shown).add (entryOf t.name) else r.assign t.name t.shown

namespace Tested

theorem headers_store (r : RedactionResult) (t : Tested) (k : JsString) :
    (store r t).headers k = if k = t.name ∧ t.name ≠ protoName then some t.shown else r.headers k := by
  cases hflag : t.flag <;> simp [store,hflag,RedactionResult.headers_assign]

theorem applied_store {r : RedactionResult} {t : Tested} (h : entryOf t.name ∉ r.applied) :
    (store r t).applied = r.applied ++ if t.flag then [entryOf t.name] else [] := by
  cases hflag : t.flag with
  | false => simp [store,hflag]
  | true => simp [store,hflag,RedactionResult.add,h]

def collect (r : RedactionResult) (ts : List Tested) : RedactionResult := ts.foldl store r

theorem headers_collect_of_notMem {ts : List Tested} {k : JsString} (h : k ∉ ts.map name ∨ k = protoName)
    (r : RedactionResult) : (collect r ts).headers k = r.headers k := by
  induction ts generalizing r with
  | nil => rfl
  | cons t ts ih =>
    have hrest : k ∉ ts.map name ∨ k = protoName := h.imp_left fun hk hmem => hk (List.mem_cons_of_mem _ hmem)
    have hstore : (store r t).headers k = r.headers k := by
      rw [headers_store,if_neg]
      rintro ⟨hname,hproto⟩
      rcases h with h | h
      · exact h (hname ▸ List.mem_cons_self)
      · exact hproto (hname.symm.trans h)
    exact (ih hrest (store r t)).trans hstore

theorem headers_collect {ts : List Tested} (hnodup : (ts.map name).Nodup) {t : Tested} (ht : t ∈ ts)
    (hname : t.name ≠ protoName) (r : RedactionResult) : (collect r ts).headers t.name = some t.shown := by
  induction ts generalizing r with
  | nil => cases ht
  | cons u ts ih =>
    obtain ⟨hu,hnodup⟩ := List.nodup_cons.mp hnodup
    rcases List.mem_cons.mp ht with rfl | ht
    · refine (headers_collect_of_notMem (.inl hu) (store r t)).trans ?_
      rw [headers_store,if_pos ⟨rfl,hname⟩]
    · exact ih hnodup ht (store r u)

theorem entryOf_injective : Function.Injective entryOf := List.append_right_injective _

theorem applied_collect {ts : List Tested} (hnodup : (ts.map name).Nodup) {r : RedactionResult}
    (hr : ∀ t ∈ ts, entryOf t.name ∉ r.applied) :
    (collect r ts).applied = r.applied ++ (ts.filter flag).map fun t => entryOf t.name := by
  induction ts generalizing r with
  | nil => simp [collect]
  | cons t ts ih =>
    obtain ⟨ht,hnodup⟩ := List.nodup_cons.mp hnodup
    have hstore := applied_store (hr t List.mem_cons_self)
    have hrest : ∀ u ∈ ts, entryOf u.name ∉ (store r t).applied := by
      intro u hu hmem
      rw [hstore,List.mem_append] at hmem
      rcases hmem with hmem | hmem
      · exact hr u (List.mem_cons_of_mem _ hu) hmem
      · split_ifs at hmem
        · have hname : u.name = t.name := entryOf_injective (List.mem_singleton.mp hmem)
          exact ht (hname ▸ List.mem_map_of_mem hu)
        · cases hmem
    refine (ih hnodup hrest).trans ?_
    rw [hstore,List.append_assoc]
    cases hflag : t.flag <;> simp [hflag]

theorem collect_congr {ts ts' : List Tested}
    (h : List.Forall₂ (fun t t' => t.name = t'.name ∧ t.flag = t'.flag ∧ t.shown = t'.shown) ts ts')
    (r : RedactionResult) : collect r ts = collect r ts' := by
  induction h generalizing r with
  | nil => rfl
  | @cons t t' ts ts' ht _ ih =>
    obtain ⟨hname,hflag,hshown⟩ := ht
    have hstore : store r t = store r t' := by rw [store,store,hname,hflag,hshown]
    exact (ih (store r t)).trans (by rw [hstore]; rfl)

end Tested

section

variable {ι : Type} [DecidableEq ι] (regs : ι → RegExp) (cfg : RedactionConfig ι)

def tested : (ι → ℕ) → RawHeaders → List Tested × (ι → ℕ)
  | σ,[] => ([],σ)
  | σ,h :: raw =>
    match h.2.values with
    | none => tested σ raw
    | some values =>
      let result := isRedacted regs (toLowerCase h.1) cfg.matchers σ
      (⟨toLowerCase h.1,values,result.1⟩ :: (tested result.2 raw).1,(tested result.2 raw).2)

theorem foldl_redactHeader (raw : RawHeaders) (σ : ι → ℕ) (r : RedactionResult) :
    raw.foldl (redactHeader regs cfg) (σ,r) =
      ((tested regs cfg σ raw).2,Tested.collect r (tested regs cfg σ raw).1) := by
  induction raw generalizing σ r with
  | nil => rfl
  | cons h raw ih =>
    rw [List.foldl_cons,tested,redactHeader]
    cases h.2.values with
    | none => exact ih σ r
    | some values =>
      cases hresult : isRedacted regs (toLowerCase h.1) cfg.matchers σ with
      | mk flag σ' =>
        cases flag with
        | false =>
          simp only [hresult]
          exact ih σ' _
        | true =>
          simp only [hresult]
          exact ih σ' _

theorem redactHeaders_eq (σ : ι → ℕ) (raw : RawHeaders) :
    redactHeaders regs cfg σ raw = ((tested regs cfg σ raw).2,Tested.collect .empty (tested regs cfg σ raw).1) :=
  foldl_redactHeader regs cfg raw σ .empty

theorem recognised_iff (σ : ι → ℕ) (raw : RawHeaders) :
    Recognised regs cfg σ raw ↔
      ∀ t ∈ (tested regs cfg σ raw).1, t.flag = matched regs cfg t.name ∧
        (matched regs cfg t.name = false → t.name ≠ protoName) := by
  induction raw generalizing σ with
  | nil => simp [Recognised,tested]
  | cons h raw ih =>
    rw [Recognised,tested]
    cases h.2.values with
    | none => simpa using ih σ
    | some values =>
      rw [Option.isSome_some,if_pos rfl,settled_iff,ih,List.forall_mem_cons]

theorem map_tested {α : Type} (f : JsString → α) (p : JsString → Bool) (σ : ι → ℕ) (raw : RawHeaders) :
    ((tested regs cfg σ raw).1.filter fun t => p t.name).map (fun t => f t.name) =
      (raw.filter fun h => h.2.values.isSome && p (toLowerCase h.1)).map fun h => f (toLowerCase h.1) := by
  induction raw generalizing σ with
  | nil => rfl
  | cons h raw ih =>
    rw [tested]
    cases hvalues : h.2.values with
    | none => simpa [hvalues] using ih σ
    | some values =>
      have hrest := ih (isRedacted regs (toLowerCase h.1) cfg.matchers σ).2
      cases hp : p (toLowerCase h.1) <;> simpa [hvalues,hp] using hrest

theorem mem_tested {σ : ι → ℕ} {raw : RawHeaders} {h : JsString × RawValue} {values : List JsString} (hmem : h ∈ raw)
    (hvalues : h.2.values = some values) :
    ∃ t ∈ (tested regs cfg σ raw).1, t.name = toLowerCase h.1 ∧ t.values = values := by
  induction raw generalizing σ with
  | nil => cases hmem
  | cons g raw ih =>
    rw [tested]
    rcases List.mem_cons.mp hmem with rfl | hmem
    · rw [hvalues]
      exact ⟨_,List.mem_cons_self,rfl,rfl⟩
    · cases g.2.values with
      | none => exact ih hmem
      | some _ =>
        obtain ⟨t,ht,h'⟩ := ih (σ := (isRedacted regs (toLowerCase g.1) cfg.matchers σ).2) hmem
        exact ⟨t,List.mem_cons_of_mem _ ht,h'⟩

theorem of_mem_tested {σ : ι → ℕ} {raw : RawHeaders} {t : Tested} (ht : t ∈ (tested regs cfg σ raw).1) :
    ∃ h ∈ raw, h.2.values = some t.values ∧ toLowerCase h.1 = t.name := by
  induction raw generalizing σ with
  | nil => cases ht
  | cons g raw ih =>
    rw [tested] at ht
    cases hvalues : g.2.values with
    | none =>
      rw [hvalues] at ht
      obtain ⟨h,hmem,h'⟩ := ih ht
      exact ⟨h,List.mem_cons_of_mem _ hmem,h'⟩
    | some values =>
      rw [hvalues] at ht
      rcases List.mem_cons.mp ht with rfl | ht
      · exact ⟨g,List.mem_cons_self,hvalues,rfl⟩
      · obtain ⟨h,hmem,h'⟩ := ih ht
        exact ⟨h,List.mem_cons_of_mem _ hmem,h'⟩

theorem nodup_tested {raw : RawHeaders} (h : (raw.map fun h => toLowerCase h.1).Nodup) (σ : ι → ℕ) :
    ((tested regs cfg σ raw).1.map Tested.name).Nodup := by
  have hnames := map_tested regs cfg (id : JsString → JsString) (fun _ => true) σ raw
  rw [List.filter_true] at hnames
  have hmap : (tested regs cfg σ raw).1.map Tested.name =
      (raw.filter fun h => h.2.values.isSome && true).map fun h => toLowerCase h.1 := hnames
  rw [hmap]
  exact h.sublist (List.filter_sublist.map _)

theorem applied_redactHeaders {raw : RawHeaders} (h : (raw.map fun h => toLowerCase h.1).Nodup) (σ : ι → ℕ) :
    (redactHeaders regs cfg σ raw).2.applied =
      ((tested regs cfg σ raw).1.filter Tested.flag).map fun t => entryOf t.name := by
  rw [redactHeaders_eq]
  exact Tested.applied_collect (nodup_tested regs cfg h σ) fun _ _ => List.not_mem_nil

theorem tested_alike {raw raw' : RawHeaders} (h : Alike regs cfg raw raw') (σ : ι → ℕ) :
    (tested regs cfg σ raw').2 = (tested regs cfg σ raw).2 ∧
      List.Forall₂ (fun t t' : Tested => t.name = t'.name ∧ t.flag = t'.flag ∧ t.values.length = t'.values.length ∧
        (matched regs cfg t.name = false → t.values = t'.values))
        (tested regs cfg σ raw).1 (tested regs cfg σ raw').1 := by
  induction h generalizing σ with
  | nil => exact ⟨rfl,.nil⟩
  | @cons h h' raw raw' hhead _ ih =>
    obtain ⟨hname,hcount,hvalues⟩ := hhead
    rw [tested,tested,← hname]
    cases hv : h.2.values with
    | none =>
      rw [hv,Option.map_none,eq_comm,Option.map_eq_none_iff] at hcount
      rw [hcount]
      exact ih σ
    | some values =>
      rw [hv,Option.map_some,eq_comm,Option.map_eq_some_iff] at hcount
      obtain ⟨values',hv',hlength⟩ := hcount
      rw [hv']
      obtain ⟨hstate,hrest⟩ := ih (isRedacted regs (toLowerCase h.1) cfg.matchers σ).2
      refine ⟨hstate,.cons ⟨rfl,rfl,hlength.symm,fun hm => ?_⟩ hrest⟩
      have hsame := hvalues hm
      rw [hv,hv'] at hsame
      exact Option.some.inj hsame

theorem after_alike {calls calls' : List RawHeaders} (h : List.Forall₂ (Alike regs cfg) calls calls') (σ : ι → ℕ) :
    after regs cfg σ calls' = after regs cfg σ calls := by
  induction h generalizing σ with
  | nil => rfl
  | @cons raw raw' calls calls' hraw _ ih =>
    have hstate : (redactHeaders regs cfg σ raw').1 = (redactHeaders regs cfg σ raw).1 := by
      rw [redactHeaders_eq,redactHeaders_eq]
      exact (tested_alike regs cfg hraw σ).1
    rw [after,after,List.foldl_cons,List.foldl_cons,hstate]
    exact ih _

theorem sound_of_recognised {σ : ι → ℕ} {calls : List RawHeaders} {raw : RawHeaders}
    (hnodup : (raw.map fun h => toLowerCase h.1).Nodup) (h : Recognised regs cfg (after regs cfg σ calls) raw) :
    Sound regs cfg σ calls raw := by
  rw [recognised_iff] at h
  refine ⟨fun calls' raw' hcalls hraw => ?_,fun g hg values hvalues hm => ?_,?_⟩
  · obtain ⟨-,htested⟩ := tested_alike regs cfg hraw (after regs cfg σ calls)
    rw [after_alike regs cfg hcalls,redactHeaders_eq,redactHeaders_eq]
    refine (Tested.collect_congr ?_ _).symm
    refine ((List.forall₂_and_left _ _).mpr ⟨h,htested⟩).imp ?_
    rintro t t' ⟨⟨hflag,-⟩,hname,hflag',hlength,hvalues⟩
    refine ⟨hname,hflag',?_⟩
    unfold Tested.shown
    rw [← hflag',hflag]
    cases hm : matched regs cfg t.name with
    | false => exact hvalues hm
    | true => simp only [if_true,List.map_const',hlength]
  · obtain ⟨t,ht,hname,rfl⟩ := mem_tested regs cfg (σ := after regs cfg σ calls) hg hvalues
    rw [← hname] at hm ⊢
    obtain ⟨hflag,hproto⟩ := h t ht
    rw [redactHeaders_eq,Tested.headers_collect (nodup_tested regs cfg hnodup _) ht (hproto hm),Tested.shown,hflag,hm]
    rfl
  · rw [applied_redactHeaders regs cfg hnodup,
      ← map_tested regs cfg entryOf (matched regs cfg) (after regs cfg σ calls)]
    congr 1
    exact List.filter_congr fun t ht => (h t ht).1

theorem recognised_of_sound {σ : ι → ℕ} {calls : List RawHeaders} {raw : RawHeaders}
    (hnodup : (raw.map fun h => toLowerCase h.1).Nodup) (h : Sound regs cfg σ calls raw) :
    Recognised regs cfg (after regs cfg σ calls) raw := by
  rw [recognised_iff]
  have htested := nodup_tested regs cfg hnodup (after regs cfg σ calls)
  have happlied := h.applied
  rw [applied_redactHeaders regs cfg hnodup,← map_tested regs cfg entryOf (matched regs cfg) (after regs cfg σ calls)]
    at happlied
  have hmem : ∀ p : Tested → Bool, ∀ t ∈ (tested regs cfg (after regs cfg σ calls) raw).1,
      entryOf t.name ∈ ((tested regs cfg (after regs cfg σ calls) raw).1.filter p).map (fun t => entryOf t.name) ↔
        p t = true := by
    intro p t ht
    constructor
    · intro hin
      obtain ⟨u,hu,hname⟩ := List.mem_map.mp hin
      obtain ⟨hu,hp⟩ := List.mem_filter.mp hu
      rwa [List.inj_on_of_nodup_map htested hu ht (Tested.entryOf_injective hname)] at hp
    · exact fun hp => List.mem_map.mpr ⟨t,List.mem_filter.mpr ⟨ht,hp⟩,rfl⟩
  intro t ht
  refine ⟨?_,fun hm hproto => ?_⟩
  · have hflag := hmem Tested.flag t ht
    rw [happlied,hmem (fun t => matched regs cfg t.name) t ht] at hflag
    exact (Bool.eq_iff_iff.mpr hflag).symm
  · obtain ⟨g,hg,hvalues,hname⟩ := of_mem_tested regs cfg ht
    have hpreserved := h.preserved g hg _ hvalues (hname ▸ hm)
    rw [hname,redactHeaders_eq,Tested.headers_collect_of_notMem (.inr hproto)] at hpreserved
    cases hpreserved

/-- A call, after any others, is sound exactly when every name that comes up is recognised. -/
theorem redaction_sound_iff (σ : ι → ℕ) (calls : List RawHeaders) {raw : RawHeaders}
    (hnodup : (raw.map fun h => toLowerCase h.1).Nodup) :
    Sound regs cfg σ calls raw ↔ Recognised regs cfg (after regs cfg σ calls) raw :=
  ⟨recognised_of_sound regs cfg hnodup,sound_of_recognised regs cfg hnodup⟩

end

/-- The pattern `^s`. -/
def anchored (p : JsString) : JsString → ℕ → Option ℕ := fun s i => if i = 0 ∧ p <+: s then some p.length else none

/-- One expression, for names that begin with `x-secret-`, with or without the flag `g`. -/
def secretPattern (global : Bool) : Unit → RegExp := fun _ => ⟨anchored (js "x-secret-"),global,false,false⟩

def secretConfig : RedactionConfig Unit := ⟨some [.text (js "Cookie"),.regexp ()]⟩

def secretHeaders (value : String) : RawHeaders := [(js "X-Secret-Token",.text (js value))]

theorem redaction_sound_secret :
    Sound (secretPattern false) secretConfig fresh [secretHeaders "a"] (secretHeaders "b") := by
  have hname : toLowerCase (js "X-Secret-Token") ≠ protoName := by decide +kernel
  exact (redaction_sound_iff _ _ fresh [secretHeaders "a"] (by decide +kernel)).mpr
    ⟨settled_of_stateless _ _ (fun _ _ => rfl) _ fun _ => hname,trivial⟩

/-- The second call leaves the token as it is; and a header of one name is not stored. -/
theorem second_call_leaks :
    matched (secretPattern true) secretConfig (js "x-secret-token") = true ∧
      (redactHeaders (secretPattern true) secretConfig fresh (secretHeaders "a")).2.headers (js "x-secret-token") =
        some [redacted] ∧
      (redactHeaders (secretPattern true) secretConfig
        (after (secretPattern true) secretConfig fresh [secretHeaders "a"]) (secretHeaders "b")).2.headers
          (js "x-secret-token") = some [js "b"] ∧
      (redactHeaders (secretPattern true) secretConfig
        (after (secretPattern true) secretConfig fresh [secretHeaders "a"]) (secretHeaders "b")).2.applied = [] ∧
      (redactHeaders (secretPattern true) secretConfig fresh [(js "__proto__",.text (js "a"))]).2.headers
        (js "__proto__") = none := by
  refine ⟨?_,?_,?_,?_,?_⟩ <;> decide +kernel

end HeaderRedaction
end Clearvoiance
