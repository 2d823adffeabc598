import Clearvoiance.ChunkedText
import Clearvoiance.Dispatchers
import Clearvoiance.InvokeEndpoint
import Clearvoiance.MarshalText

/-! A captured job on its way to its handler: the engine writes the name and the arguments, in base64, into a JSON
body, which arrives in chunks that are decoded one by one.  The arguments are plain ASCII by then; the name is not. -/
namespace Clearvoiance
namespace JobInvocation

open Json JsonStrings Utf8Text ChunkedText InvokeEndpoint BufferEncodings
open CapturedEvents (CronEvent QueueEvent)
open Dispatchers (World fetchBody fetchedBytes)
open Signature (Bytes codes)
open SignatureEquality (Double)

section Base64

open Dispatchers.Invoke (base64Digit encodeToString)

theorem base64Digit_spec : ∀ n < 64, (base64Digit n).toNat < 0x80 ∧ (unitOf (base64Digit n)).toNat ≠ 61 ∧
    base64Value (unitOf (base64Digit n)) = some n := by decide

theorem sextets_digit {n : ℕ} (hn : n < 64) (s : JsString) :
    sextets (unitOf (base64Digit n) :: s) = n :: sextets s := by
  obtain ⟨-,hpad,hvalue⟩ := base64Digit_spec n hn
  rw [sextets,List.takeWhile_cons_of_pos (by simpa using hpad),List.filterMap_cons_some hvalue]
  rfl

theorem sextets_pad (s : JsString) : sextets (unitOf '=' :: s) = [] := rfl

theorem ascii_cons {n : ℕ} (hn : n < 64) {s : GoString} (hs : Ascii s) : Ascii (base64Digit n :: s) := by
  intro d hd
  rcases List.mem_cons.mp hd with rfl | hd
  · exact (base64Digit_spec n hn).1
  · exact hs d hd

theorem ascii_encodeToString : ∀ raw : Bytes, Ascii (encodeToString raw)
  | a :: b :: c :: rest => by
    have ha := a.toNat_lt
    have hb := b.toNat_lt
    have hc := c.toNat_lt
    exact ascii_cons (by omega) (ascii_cons (by omega) (ascii_cons (by omega) (ascii_cons (by omega)
      (ascii_encodeToString rest))))
  | [a,b] => by
    have ha := a.toNat_lt
    have hb := b.toNat_lt
    exact ascii_cons (by omega) (ascii_cons (by omega) (ascii_cons (by omega) (by decide)))
  | [a] => by
    have ha := a.toNat_lt
    exact ascii_cons (by omega) (ascii_cons (by omega) (by decide))
  | [] => nofun

theorem ofNat_toNat {b : UInt8} {n : ℕ} (h : n % 256 = b.toNat) : UInt8.ofNat n = b :=
  UInt8.toNat_inj.mp (by rw [UInt8.toNat_ofNat']; exact h)

theorem fromSextets_encodeToString : ∀ raw : Bytes, fromBase64 ((encodeToString raw).map unitOf) = raw
  | a :: b :: c :: rest => by
    have ha := a.toNat_lt
    have hb := b.toNat_lt
    have hc := c.toNat_lt
    have hrest := fromSextets_encodeToString rest
    unfold fromBase64 at hrest ⊢
    simp only [encodeToString,List.map_cons]
    rw [sextets_digit (by omega),sextets_digit (by omega),sextets_digit (by omega),sextets_digit (by omega),fromSextets,
      hrest]
    refine List.cons_eq_cons.mpr ⟨ofNat_toNat ?_,List.cons_eq_cons.mpr ⟨ofNat_toNat ?_,List.cons_eq_cons.mpr
      ⟨ofNat_toNat ?_,rfl⟩⟩⟩ <;> omega
  | [a,b] => by
    have ha := a.toNat_lt
    have hb := b.toNat_lt
    simp only [encodeToString,List.map_cons,List.map_nil,fromBase64]
    rw [sextets_digit (by omega),sextets_digit (by omega),sextets_digit (by omega),sextets_pad,fromSextets]
    refine List.cons_eq_cons.mpr ⟨ofNat_toNat ?_,List.cons_eq_cons.mpr ⟨ofNat_toNat ?_,rfl⟩⟩ <;> omega
  | [a] => by
    have ha := a.toNat_lt
    simp only [encodeToString,List.map_cons,List.map_nil,fromBase64]
    rw [sextets_digit (by omega),sextets_digit (by omega),sextets_pad,fromSextets]
    exact List.cons_eq_cons.mpr ⟨ofNat_toNat (by omega),rfl⟩
  | [] => rfl

theorem fromBase64_encodeToString (raw : Bytes) : fromBase64 (utf16 (encodeToString raw)) = raw := by
  rw [utf16_ascii (ascii_encodeToString raw),fromSextets_encodeToString]

end Base64

section Envelope

open Dispatchers.Invoke (marshal quote)

abbrev Field := String × Dispatchers.Invoke.Value

theorem quote_eq (s : String) : quote s = marshalQuote s.toList := by
  unfold quote marshalQuote escapeWith isMarkup
  simp only [Bool.or_eq_true,decide_eq_true_eq,or_assoc]

theorem toString_int (n : ℤ) : (toString n).toList = Binary64.signed (n < 0) (Nat.toDigits 10 n.natAbs) := by
  cases n with
  | ofNat n =>
    have hneg : decide (Int.ofNat n < 0) = false := by simp
    rw [hneg]
    exact Nat.toList_repr
  | negSucc n =>
    have hneg : decide (Int.negSucc n < 0) = true := by simp [Int.negSucc_lt_zero]
    have hrepr : toString (Int.negSucc n) = "-" ++ Nat.repr (n+1) := rfl
    rw [hneg,hrepr,String.toList_append,Nat.toList_repr]
    rfl

def digitParts (n : ℕ) : Binary64.Parts := ⟨Nat.toDigits 10 n,[],none⟩

theorem digitParts_valid (n : ℕ) : (digitParts n).Valid where
  digits c hc := by
    simp only [digitParts,List.append_nil] at hc
    exact (Binary64.isNumberChar_of_mem_toDigits hc).2
  ne_nil := Nat.toDigits_ne_nil
  lead h := by
    rcases Nat.eq_zero_or_pos n with rfl | hpos
    · rfl
    · exact absurd h (Binary64.head_toDigits hpos)

def intLiteral (n : ℤ) : Literal := (digitParts n.natAbs).literal (n < 0)

theorem classify_int (n : ℤ) : classify ((toString n).toList.map Char.toNat) = some (.num (intLiteral n)) := by
  rw [toString_int]
  have hparts := Binary64.number_parts (digitParts_valid n.natAbs) (n < 0)
  rw [Binary64.Parts.text,digitParts,Binary64.Parts.tail,if_pos rfl,List.nil_append,List.append_nil] at hparts
  exact Binary64.classify_number hparts

theorem int_text (n : ℤ) : NumberText (toString n).toList := by
  rw [toString_int]
  obtain ⟨c,t,hcons⟩ := List.exists_cons_of_ne_nil (Nat.toDigits_ne_nil (b := 10) (n := n.natAbs))
  have hdigits : ∀ d ∈ Nat.toDigits 10 n.natAbs, isNumberChar d = true ∧ d.isDigit = true :=
    fun d hd => Binary64.isNumberChar_of_mem_toDigits hd
  cases decide (n < 0) with
  | false => exact ⟨⟨c,t,hcons,.inl (hdigits c (by rw [hcons]; simp)).2⟩,fun d hd => (hdigits d hd).1⟩
  | true =>
    refine ⟨⟨'-',_,rfl,.inr rfl⟩,fun d hd => ?_⟩
    rcases List.mem_cons.mp hd with rfl | hd
    · rfl
    · exact (hdigits d hd).1

/-- How `json.Marshal` writes the fields of a job. -/
def fieldPrinter : Printer GoString ℤ where
  string := marshalQuote
  number n := (toString n).toList
  string_safe := safe_marshalQuote
  number_text := int_text

def fieldReading : Reading fieldPrinter (fun c => units c.toNat) where
  items := marshalItems fun c => units c.toNat
  literal := intLiteral
  plain := plain_units
  string := coding_units.lex_marshalQuote
  number := classify_int

def valueDocument : Dispatchers.Invoke.Value → Json GoString ℤ
  | .text s => .str s.toList
  | .int n => .num n

def document (fields : List Field) : Json GoString ℤ := .obj (fields.map fun f => (f.1.toList,valueDocument f.2))

def fieldText (f : Field) : List Char :=
  quoted (marshalQuote f.1.toList) ++ ':' :: print fieldPrinter (valueDocument f.2)

def sorted (fields : List Field) : List Field := fields.insertionSort fun a b => a.1 ≤ b.1

theorem encode_eq_print (v : Dispatchers.Invoke.Value) : v.encode = print fieldPrinter (valueDocument v) := by
  cases v with
  | text s => simp [Dispatchers.Invoke.Value.encode,valueDocument,print,quoted,fieldPrinter,quote_eq]
  | int n => rfl

theorem print_document (fields : List Field) :
    print fieldPrinter (document fields) = '\x7b' :: [','].intercalate (fields.map fieldText) ++ ['\x7d'] := by
  rw [document,print,printMembers_eq,List.map_map]
  rfl

theorem marshal_eq (fields : List Field) :
    marshal fields = Hex.utf8 (String.ofList (print fieldPrinter (document (sorted fields)))) := by
  have hfield : ∀ f : Field, '"' :: quote f.1 ++ ['"',':'] ++ f.2.encode = fieldText f := by
    intro f
    rw [encode_eq_print,quote_eq,fieldText]
    simp [quoted]
  rw [print_document]
  unfold marshal sorted
  simp only [hfield]

def scriptValue : Dispatchers.Invoke.Value → Value
  | .text s => .str (js s)
  | .int n => .num (Double.ofLiteral (intLiteral n))

theorem jsonParse_document (fields : List Field) :
    jsonParse ((print fieldPrinter (document fields)).map Char.toNat) =
      some (.obj (fields.map fun f => (js f.1,scriptValue f.2))) := by
  have hcodes : ((print fieldPrinter (document fields)).map Char.toNat).flatMap units =
      (print fieldPrinter (document fields)).flatMap fun c => units c.toNat := List.flatMap_map _ _ _
  unfold jsonParse
  rw [hcodes,fieldReading.parse_print,Option.bind_eq_bind,Option.bind_some,convert_total,Reading.raw,map_map,document,
    map,mapMembers_eq,List.map_map]
  congr 3
  funext f
  have hstring : ∀ s : GoString, jsString (fieldReading.items s) = utf16 s := jsString_marshalItems
  rcases f with ⟨k,s | n⟩
  · simp only [Function.comp_apply,valueDocument,map,hstring,scriptValue,js]
  · simp only [Function.comp_apply,valueDocument,map,hstring,scriptValue,js]
    rfl

end Envelope

section Damage

theorem whole_append (m : List Bool) (s t : List Char) :
    Whole m (s ++ t) ↔ Whole m s ∧ Whole (m.drop (encode s).length) t := by
  rw [← damage_eq_iff,← damage_eq_iff,← damage_eq_iff,damage_append]
  constructor
  · intro h
    have hle := (length_damage m s).1
    have hle' := (length_damage (m.drop (encode s).length) t).1
    have hlength := congrArg List.length h
    rw [List.length_append,List.length_append] at hlength
    exact List.append_inj h (by omega)
  · rintro ⟨hs,ht⟩
    rw [hs,ht]

theorem damage_ascii (m : List Bool) {s : List Char} (h : Ascii s) : damage m s = s :=
  damage_of_whole (whole_ascii m h)

theorem ascii_append {s t : GoString} (hs : Ascii s) (ht : Ascii t) : Ascii (s ++ t) := by
  intro c hc
  rcases List.mem_append.mp hc with hc | hc
  · exact hs c hc
  · exact ht c hc

theorem ascii_hexDigit : ∀ n < 16, (Hex.digit n).toNat < 0x80 := by decide

theorem ascii_unicodeEscape (n : ℕ) : Ascii (unicodeEscape n) := by
  intro c hc
  simp only [unicodeEscape,List.mem_cons,List.not_mem_nil,or_false] at hc
  rcases hc with rfl | rfl | rfl | rfl | rfl | rfl
  · decide
  · decide
  all_goals exact ascii_hexDigit _ (Nat.mod_lt _ (by decide))

theorem escapeWith_cases (c : Char) : Ascii (escapeWith isMarkup c) ∨ escapeWith isMarkup c = [c] := by
  unfold escapeWith
  split_ifs
  · exact .inl (ascii_unicodeEscape _)
  · unfold escapeChar
    split_ifs
    all_goals first
      | exact .inr rfl
      | exact .inl (ascii_unicodeEscape _)
      | exact .inl (by decide)

/-- What a character arrives as: itself, or at least two replacements. -/
theorem damage_escapeWith (m : List Bool) (c : Char) :
    ∃ p, damage m (escapeWith isMarkup c) = marshalQuote p ∧ 1 ≤ p.length ∧
      (p.length = 1 → Whole m (escapeWith isMarkup c)) ∧ (Whole m (escapeWith isMarkup c) → p = [c]) := by
  have hself : marshalQuote [c] = escapeWith isMarkup c := List.flatMap_singleton _ _
  by_cases hwhole : Whole m (escapeWith isMarkup c)
  · exact ⟨[c],by rw [damage_of_whole hwhole,hself],le_refl _,fun _ => hwhole,fun _ => rfl⟩
  · have hsingle : escapeWith isMarkup c = [c] :=
      (escapeWith_cases c).resolve_left fun h => hwhole (whole_ascii m h)
    have hbroken : replacements (inner m c) ≠ 0 := by
      intro h
      rw [hsingle] at hwhole
      exact hwhole ⟨(replacements_eq_zero_iff _).mp h,trivial⟩
    have hone := replacements_ne_one (inner m c)
    refine ⟨List.replicate (replacements (inner m c)) (Char.ofNat replacement),?_,?_,?_,fun h => absurd h hwhole⟩
    · have hquote : ∀ k, marshalQuote (List.replicate k (Char.ofNat replacement)) =
          List.replicate k (Char.ofNat replacement) := by
        intro k
        induction k with
        | zero => rfl
        | succ k ih =>
          rw [List.replicate_succ,marshalQuote,List.flatMap_cons]
          exact congrArg (Char.ofNat replacement :: ·) ih
      rw [hquote,hsingle,damage,damageChar,if_neg hbroken,damage,List.append_nil]
    · rw [List.length_replicate]
      omega
    · rw [List.length_replicate]
      exact fun h => absurd h hone

/-- The text of a string arrives as the text of a string, which is the same exactly when no chunk begins inside one
of its characters. -/
theorem damage_marshalQuote (m : List Bool) (s : GoString) :
    ∃ t, damage m (marshalQuote s) = marshalQuote t ∧ (t = s ↔ Whole m (marshalQuote s)) := by
  suffices h : ∃ t, damage m (marshalQuote s) = marshalQuote t ∧ s.length ≤ t.length ∧
      (t.length = s.length → Whole m (marshalQuote s)) ∧ (Whole m (marshalQuote s) → t = s) by
    obtain ⟨t,ht,-,hwhole,hback⟩ := h
    exact ⟨t,ht,fun h => hwhole (congrArg List.length h),hback⟩
  induction s generalizing m with
  | nil => exact ⟨[],rfl,le_refl _,fun _ => trivial,fun _ => rfl⟩
  | cons c s ih =>
    obtain ⟨p,hp,hpos,hpwhole,hpback⟩ := damage_escapeWith m c
    obtain ⟨t,ht,hle,hwhole,hback⟩ := ih (m.drop (encode (escapeWith isMarkup c)).length)
    have hcons : marshalQuote (c :: s) = escapeWith isMarkup c ++ marshalQuote s := List.flatMap_cons
    have happend : marshalQuote (p ++ t) = marshalQuote p ++ marshalQuote t := List.flatMap_append
    refine ⟨p ++ t,by rw [hcons,damage_append,hp,ht,happend],by simp; omega,?_,?_⟩
    · rw [hcons,whole_append,List.length_append,List.length_cons]
      exact fun h => ⟨hpwhole (by omega),hwhole (by omega)⟩
    · rw [hcons,whole_append]
      rintro ⟨h₁,h₂⟩
      rw [hpback h₁,hback h₂]
      rfl

theorem ascii_marshalQuote {s : GoString} (h : Ascii s) : Ascii (marshalQuote s) := by
  intro d hd
  obtain ⟨c,hc,hd⟩ := List.mem_flatMap.mp hd
  rcases escapeWith_cases c with hascii | hsingle
  · exact hascii d hd
  · rw [hsingle,List.mem_singleton] at hd
    rw [hd]
    exact h c hc

/-- Only text that is not ASCII may change on the way. -/
def Arrived (f f' : Field) : Prop :=
  f'.1 = f.1 ∧ ∀ s, f.2 = .text s → Ascii s.toList → f'.2 = f.2

/-- The text of a string value, between what comes before and behind it. -/
theorem damage_text (m : List Bool) {left right : GoString} (hleft : Ascii left) (hright : Ascii right) (s : String) :
    ∃ t : String, damage m (left ++ marshalQuote s.toList ++ right) = left ++ marshalQuote t.toList ++ right ∧
      (t = s ↔ Whole (m.drop (encode left).length) (marshalQuote s.toList)) := by
  obtain ⟨t,ht,hiff⟩ := damage_marshalQuote (m.drop (encode left).length) s.toList
  refine ⟨String.ofList t,?_,?_⟩
  · rw [damage_append,damage_append,damage_ascii _ hleft,damage_ascii _ hright,ht,String.toList_ofList]
  · rw [← hiff,← String.toList_inj,String.toList_ofList]

theorem ascii_quoted {t : GoString} (h : Ascii t) : Ascii (quoted t) :=
  ascii_append (s := ['"']) (by decide) (ascii_append h (by decide))

theorem ascii_int (n : ℤ) : Ascii (toString n).toList := by
  intro c hc
  have h := lt_of_isWordCode (isWordCode_of_isNumberChar ((int_text n).all c hc))
  exact h

def keyText (k : String) : List Char := quoted (marshalQuote k.toList) ++ [':']

theorem ascii_keyText {k : String} (h : Ascii k.toList) : Ascii (keyText k) :=
  ascii_append (ascii_quoted (ascii_marshalQuote h)) (by decide)

theorem fieldText_text (k s : String) :
    fieldText (k,.text s) = (keyText k ++ ['"']) ++ marshalQuote s.toList ++ ['"'] := by
  simp [fieldText,keyText,valueDocument,print,quoted,fieldPrinter]

theorem fieldText_int (k : String) (n : ℤ) : fieldText (k,.int n) = keyText k ++ (toString n).toList := by
  simp [fieldText,keyText,valueDocument,print,fieldPrinter]

theorem damage_fieldText (m : List Bool) {f : Field} (hkey : Ascii f.1.toList) :
    ∃ f', damage m (fieldText f) = fieldText f' ∧ Arrived f f' := by
  obtain ⟨k,s | n⟩ := f
  · have hleft : Ascii (keyText k ++ ['"']) := ascii_append (ascii_keyText hkey) (by decide)
    obtain ⟨t,ht,hiff⟩ := damage_text m hleft (show Ascii ['"'] by decide) s
    refine ⟨(k,.text t),by rw [fieldText_text,ht,fieldText_text],rfl,?_⟩
    rintro s' hs' hascii
    obtain rfl : s = s' := by simpa using hs'
    rw [hiff.mpr (whole_ascii _ (ascii_marshalQuote hascii))]
  · refine ⟨(k,.int n),?_,rfl,fun _ _ _ => rfl⟩
    rw [fieldText_int,damage_ascii _ (ascii_append (ascii_keyText hkey) (ascii_int n))]

theorem damage_fields {t : Field → List Char} {fields : List Field}
    (h : ∀ m, ∀ f ∈ fields, ∃ f', damage m (t f) = t f' ∧ Arrived f f') (m : List Bool) :
    ∃ fields', damage m (fields.flatMap t) = fields'.flatMap t ∧ List.Forall₂ Arrived fields fields' := by
  induction fields generalizing m with
  | nil => exact ⟨[],rfl,.nil⟩
  | cons f fields ih =>
    obtain ⟨f',hf,harrived⟩ := h m f List.mem_cons_self
    obtain ⟨fields',hfields,hall⟩ := ih (fun m g hg => h m g (List.mem_cons_of_mem _ hg)) (m.drop (encode (t f)).length)
    exact ⟨f' :: fields',by rw [List.flatMap_cons,damage_append,hf,hfields,List.flatMap_cons],.cons harrived hall⟩

theorem damage_fields_before (m : List Bool) {fields : List Field} (h : ∀ f ∈ fields, Ascii f.1.toList) :
    ∃ fields', damage m (fields.flatMap fun f => fieldText f ++ [',']) =
        (fields'.flatMap fun f => fieldText f ++ [',']) ∧
      List.Forall₂ Arrived fields fields' := by
  refine damage_fields (fun m f hf => ?_) m
  obtain ⟨f',hf',harrived⟩ := damage_fieldText m (h f hf)
  exact ⟨f',by rw [damage_append,hf',damage_ascii _ (by decide)],harrived⟩

theorem damage_fields_after (m : List Bool) {fields : List Field} (h : ∀ f ∈ fields, Ascii f.1.toList) :
    ∃ fields', damage m (fields.flatMap fun f => ',' :: fieldText f) = (fields'.flatMap fun f => ',' :: fieldText f) ∧
      List.Forall₂ Arrived fields fields' := by
  refine damage_fields (fun m f hf => ?_) m
  obtain ⟨f',hf',harrived⟩ := damage_fieldText (m.drop (encode [',']).length) (h f hf)
  exact ⟨f',by rw [← List.singleton_append,damage_append,hf',damage_ascii _ (by decide),List.singleton_append],harrived⟩

/-- What stands before the characters of a name behind some fields. -/
def opening (before : List Field) : List Char :=
  '\x7b' :: before.flatMap (fun f => fieldText f ++ [',']) ++ (keyText "name" ++ ['"'])

def closing (after : List Field) : List Char := '"' :: after.flatMap (fun f => ',' :: fieldText f) ++ ['\x7d']

theorem print_split (before after : List Field) (name : String) :
    print fieldPrinter (document (before ++ ("name",.text name) :: after)) =
      opening before ++ marshalQuote name.toList ++ closing after := by
  have hintercalate : ∀ fs : List Field, [','].intercalate ((fs ++ ("name",.text name) :: after).map fieldText) =
      fs.flatMap (fun f => fieldText f ++ [',']) ++ fieldText ("name",.text name) ++
        after.flatMap fun f => ',' :: fieldText f := by
    intro fs
    induction fs with
    | nil => rw [List.nil_append,List.map_cons,intercalate_eq,List.flatMap_map]; rfl
    | cons f fs ih =>
      rw [List.cons_append,List.map_cons]
      have hne : (fs ++ ("name",.text name) :: after).map fieldText ≠ [] := by simp
      obtain ⟨x,xs,hcons⟩ := List.exists_cons_of_ne_nil hne
      rw [hcons,List.intercalate_cons_cons,← hcons,ih]
      simp
  rw [print_document,hintercalate,fieldText_text]
  simp [opening,closing]

/-- A job arrives as a job with the same fields, of which those that are not ASCII may have changed. -/
theorem damage_document (m : List Bool) {before after : List Field} {name : String}
    (h : ∀ f ∈ before ++ ("name",.text name) :: after, Ascii f.1.toList) :
    ∃ before' t after', damage m (print fieldPrinter (document (before ++ ("name",.text name) :: after))) =
        print fieldPrinter (document (before' ++ ("name",.text t) :: after')) ∧
      List.Forall₂ Arrived before before' ∧ List.Forall₂ Arrived after after' ∧
      (t = name ↔ Whole (m.drop (encode (opening before)).length) (marshalQuote name.toList)) := by
  obtain ⟨before',hbefore,hall⟩ := damage_fields_before (m.drop (encode ['\x7b']).length)
    fun f hf => h f (List.mem_append_left _ hf)
  obtain ⟨t,ht,hiff⟩ := damage_marshalQuote (m.drop (encode (opening before)).length) name.toList
  obtain ⟨after',hafter,hall'⟩ := damage_fields_after
    ((m.drop (encode (opening before ++ marshalQuote name.toList)).length).drop (encode ['"']).length)
    fun f hf => h f (List.mem_append_right _ (List.mem_cons_of_mem _ hf))
  have hopening : damage m (opening before) = opening before' := by
    unfold opening
    rw [← List.singleton_append,damage_append,damage_append,hbefore,damage_ascii _ (by decide),
      damage_ascii _ (by decide)]
    rfl
  have hclosing : damage (m.drop (encode (opening before ++ marshalQuote name.toList)).length) (closing after) =
      closing after' := by
    unfold closing
    rw [← List.singleton_append,damage_append,damage_append,hafter,damage_ascii _ (by decide),
      damage_ascii _ (by decide)]
    rfl
  refine ⟨before',String.ofList t,after',?_,hall,hall',?_⟩
  · rw [print_split,print_split,damage_append,damage_append,hopening,hclosing,ht,String.toList_ofList]
  · rw [← hiff,← String.toList_inj,String.toList_ofList]

end Damage

section Endpoint

/-- The fields of a captured job, which has a name and the bytes of its arguments. -/
inductive Captured (w : World) (vu : ℕ) : String → Bytes → List Field → Prop
  | cron (c : CronEvent) (args : Bytes) (h : fetchBody w c.args = .ok args) :
    Captured w vu c.jobName args (Dispatchers.Cron.payload w c vu)
  | queue (q : QueueEvent) (name : String) (args : Bytes) (hname : q.headers.lookup "job_name" = some name)
    (h : fetchBody w q.payload = .ok args) : Captured w vu name args (Dispatchers.Queue.payload w q vu)

/-- The request arrives at the path, is not refused, and carries the body in some chunks. -/
structure Delivered (body : Bytes) (token : Option String) (req : Request) : Prop where
  method : req.method = "POST"
  url : req.url = some invokePath
  accepted : refused token req = false
  chunks : req.chunks.flatten = body

/-- Wherever a handler is registered under the name, it runs, with the value. -/
def Runs (endpoint : Registry → Handled) (name : String) (v : Value) : Prop :=
  ∀ registry : Registry, (registry (js name)).isSome = true → (endpoint registry).ran = some (js name,some v)

/-- No chunk begins inside a character of the name. -/
def Unsplit (fields : List Field) (chunks : List Bytes) : Prop :=
  ∀ (before : List Field) (name : String) (after : List Field),
    sorted fields = before ++ ("name",.text name) :: after →
    Whole ((marks (chunks.map codes)).drop (encode (opening before)).length) (marshalQuote name.toList)

theorem captured_fields {w : World} {vu : ℕ} {name : String} {args : Bytes} {fields : List Field}
    (h : Captured w vu name args fields) (hname : name ≠ "") :
    ("name",.text name) ∈ fields ∧ ("args_base64",.text (Dispatchers.Invoke.encodeBase64 args)) ∈ fields ∧
      (fields.map Prod.fst).Nodup ∧ ∀ f ∈ fields, Ascii f.1.toList := by
  cases h with
  | cron c args h =>
    have hargs : fetchedBytes w c.args = args := by rw [fetchedBytes,h]
    refine ⟨by simp [Dispatchers.Cron.payload],by simp [Dispatchers.Cron.payload,hargs],?_,?_⟩
    · simp [Dispatchers.Cron.payload]
    · simp only [Dispatchers.Cron.payload,List.forall_mem_cons]
      exact ⟨by decide,by decide,by decide,by decide,by decide,nofun⟩
  | queue q name args hlookup h =>
    have hargs : fetchedBytes w q.payload = args := by rw [fetchedBytes,h]
    have hjob : Dispatchers.Queue.jobName q = name := by
      rw [Dispatchers.Queue.jobName,hlookup]
      exact if_neg hname
    refine ⟨by simp [Dispatchers.Queue.payload,hjob],by simp [Dispatchers.Queue.payload,hargs],?_,?_⟩
    · simp [Dispatchers.Queue.payload]
    · simp only [Dispatchers.Queue.payload,List.forall_mem_cons]
      exact ⟨by decide,by decide,by decide,by decide,by decide,by decide,by decide,nofun⟩

theorem mem_arrived {fields fields' : List Field} (h : List.Forall₂ Arrived fields fields') {k s : String}
    (hmem : (k,.text s) ∈ fields) (hascii : Ascii s.toList) : (k,.text s) ∈ fields' := by
  induction h with
  | nil => cases hmem
  | cons harrived _ ih =>
    rcases List.mem_cons.mp hmem with hf | hmem
    · obtain ⟨hkey,hvalue⟩ := harrived
      rw [← hf] at hkey hvalue
      rw [← Prod.ext hkey (hvalue s rfl hascii)]
      exact List.mem_cons_self
    · exact List.mem_cons_of_mem _ (ih hmem)

theorem keys_arrived {fields fields' : List Field} (h : List.Forall₂ Arrived fields fields') :
    fields'.map Prod.fst = fields.map Prod.fst := by
  induction h with
  | nil => rfl
  | cons harrived _ ih => rw [List.map_cons,List.map_cons,ih,harrived.1]

/-- A job as it arrives, with the name that is left of it. -/
theorem arrives {fields : List Field} (hascii : ∀ f ∈ fields, Ascii f.1.toList) {before after : List Field}
    {name : String} (hsplit : sorted fields = before ++ ("name",.text name) :: after) {chunks : List Bytes}
    (hchunks : chunks.flatten = Dispatchers.Invoke.marshal fields) :
    ∃ fields' t, rawText chunks = (print fieldPrinter (document fields')).map Char.toNat ∧
      fields'.map Prod.fst = (sorted fields).map Prod.fst ∧ ("name",.text t) ∈ fields' ∧
      (∀ s, ("args_base64",.text s) ∈ sorted fields → Ascii s.toList → ("args_base64",.text s) ∈ fields') ∧
      (t = name ↔ Whole ((marks (chunks.map codes)).drop (encode (opening before)).length)
        (marshalQuote name.toList)) := by
  have hmem : ∀ f ∈ before ++ ("name",.text name) :: after, Ascii f.1.toList :=
    fun f hf => hascii f ((List.mem_insertionSort _).mp (hsplit ▸ hf))
  have hflatten : (chunks.map codes).flatten = encode (print fieldPrinter (document (sorted fields))) := by
    have hcodes : (chunks.map codes).flatten = codes chunks.flatten := List.map_flatten.symm
    rw [hcodes,hchunks,marshal_eq]
    exact utf8_ofList _
  have hraw : rawText chunks = (chunks.map codes).flatMap bufferToString := (List.flatMap_map _ _ _).symm
  obtain ⟨before',t,after',hprint,hbefore,hafter,hiff⟩ := damage_document (marks (chunks.map codes)) hmem
  refine ⟨before' ++ ("name",.text t) :: after',t,?_,?_,by simp,fun s hs hs' => ?_,hiff⟩
  · rw [hraw,decode_chunks hflatten,hsplit,hprint]
  · rw [hsplit,List.map_append,List.map_cons,List.map_append,List.map_cons,keys_arrived hbefore,keys_arrived hafter]
  · rw [hsplit] at hs
    rcases List.mem_append.mp hs with hs | hs
    · exact List.mem_append_left _ (mem_arrived hbefore hs hs')
    · refine List.mem_append_right _ (List.mem_cons_of_mem _ ?_)
      rcases List.mem_cons.mp hs with hs | hs
      · simp at hs
      · exact mem_arrived hafter hs hs'

theorem js_injective : Function.Injective js := fun _ _ h => String.toList_inj.mp (utf16_injective h)

theorem lookup_fields {fields : List Field} (hkeys : (fields.map Prod.fst).Nodup) {k : String}
    {v : Dispatchers.Invoke.Value} (h : (k,v) ∈ fields) :
    property k (.obj (fields.map fun f => (js f.1,scriptValue f.2))) = some (scriptValue v) := by
  refine lookup_of_mem ?_ (List.mem_map.mpr ⟨(k,v),h,rfl⟩)
  rw [List.map_map]
  have hmap : Prod.fst ∘ (fun f : Field => (js f.1,scriptValue f.2)) = js ∘ Prod.fst := rfl
  rw [hmap,← List.map_map]
  exact hkeys.map js_injective

/-- The arguments come out of base64 as the value they were written for. -/
theorem decodeArgs_eq {body v : Value} {text : List Char} (hvalue : jsonParse (text.map Char.toNat) = some v)
    (h : property "args_base64" body =
      some (.str (js (Dispatchers.Invoke.encodeBase64 (Hex.utf8 (String.ofList text)))))) :
    decodeArgs body = some v := by
  have hb64 : js (Dispatchers.Invoke.encodeBase64 (Hex.utf8 (String.ofList text))) =
      utf16 (Dispatchers.Invoke.encodeToString (Hex.utf8 (String.ofList text))) := by
    rw [js,Dispatchers.Invoke.encodeBase64,String.toList_ofList]
  have hback := fromBase64_encodeToString (Hex.utf8 (String.ofList text))
  have hraw : bufferToString (codes (Hex.utf8 (String.ofList text))) = text.map Char.toNat := by
    have hcodes : codes (Hex.utf8 (String.ofList text)) = encode text := utf8_ofList text
    rw [hcodes,decode_encode]
  have hne : utf16 (Dispatchers.Invoke.encodeToString (Hex.utf8 (String.ofList text))) ≠ [] := by
    intro hnil
    rw [hnil] at hback
    rw [← hback] at hraw
    rw [← hraw] at hvalue
    cases hvalue
  rw [hb64] at h
  simp only [decodeArgs,h,if_neg hne,hback,hraw,hvalue]

theorem ran_end (fits : List Value → Bool) (registry : Registry) {raw : List ℕ} {body : Value} {name : JsString}
    (hbody : parsedText raw = some body) (hname : nameOf fits body = some name) :
    (serverEnd fits registry raw).ran = (middlewareEnd fits registry raw).ran ∧
      (serverEnd fits registry raw).ran =
        if name = [] then none else (registry name).map fun _ => (name,decodeArgs body) := by
  cases name with
  | nil => simp [serverEnd,middlewareEnd,hbody,hname,nameRequired]
  | cons x name =>
    cases hhandler : registry (x :: name) with
    | none => simp [serverEnd,middlewareEnd,hbody,hname,hhandler,unknownHandler]
    | some handler => simp [serverEnd,middlewareEnd,hbody,hname,hhandler]

/-- A handler that is looked up under some name runs for the captured name exactly when the two are the same. -/
theorem runs_iff {endpoint : Registry → Handled} {name t : String} {v : Value} (hname : name ≠ "")
    (h : ∀ registry, (endpoint registry).ran =
      if js t = [] then none else (registry (js t)).map fun _ => (js t,some v)) :
    Runs endpoint name v ↔ t = name := by
  have hne : js name ≠ [] := by
    rw [js,Ne,utf16_eq_nil,String.toList_eq_nil_iff]
    exact hname
  constructor
  · intro hruns
    have honly := hruns (fun n => if n = js name then some fun _ => .returned else none) (by simp)
    rw [h] at honly
    split_ifs at honly with hnil hsame
    · exact js_injective hsame
    · cases honly
  · rintro rfl registry hsome
    obtain ⟨handler,hhandler⟩ := Option.isSome_iff_exists.mp hsome
    rw [h,if_neg hne,hhandler]
    rfl

theorem split_unique {fields before after before' after' : List Field} (hkeys : (fields.map Prod.fst).Nodup)
    {k name name' : String} (h : fields = before ++ (k,.text name) :: after)
    (h' : fields = before' ++ (k,.text name') :: after') : before = before' ∧ name = name' := by
  have hlen : ∀ {before after : List Field} {name : String}, fields = before ++ (k,.text name) :: after →
      (fields.map Prod.fst).idxOf k = before.length := by
    intro before after name h
    rw [h,List.map_append,List.map_cons] at hkeys
    have hk : k ∉ before.map Prod.fst := fun hk =>
      (List.nodup_append.mp hkeys).2.2 k hk k List.mem_cons_self rfl
    rw [h,List.map_append,List.map_cons,List.idxOf_append_of_notMem hk,List.idxOf_cons_self]
    simp
  obtain ⟨hb,ha⟩ := List.append_inj (h.symm.trans h') ((hlen h).symm.trans (hlen h'))
  refine ⟨hb,?_⟩
  simpa using (List.cons.inj ha).1

/-- The endpoint looks up the captured name and calls the handler with the captured value exactly when no chunk of the
body begins inside a character of the name. -/
theorem job_round_trip_iff {w : World} {vu : ℕ} {name : String} {args : Bytes} {fields : List Field}
    (hjob : Captured w vu name args fields) (hname : name ≠ "") {text : List Char} {v : Value}
    (hargs : args = Hex.utf8 (String.ofList text)) (hvalue : jsonParse (text.map Char.toNat) = some v)
    {token : Option String} {req : Request} (hreq : Delivered (Dispatchers.Invoke.marshal fields) token req)
    (fits : List Value → Bool) :
    (Runs (fun registry => server fits token registry req) name v ↔ Unsplit fields req.chunks) ∧
      (Runs (fun registry => middleware fits token registry req) name v ↔ Unsplit fields req.chunks) := by
  obtain ⟨hmem,hmemArgs,hkeys,hascii⟩ := captured_fields hjob hname
  have hsortedKeys : ((sorted fields).map Prod.fst).Nodup :=
    ((List.perm_insertionSort _ fields).map Prod.fst).nodup_iff.mpr hkeys
  obtain ⟨before,after,hsplit⟩ := List.append_of_mem ((List.mem_insertionSort fun a b : Field => a.1 ≤ b.1).mpr hmem)
  obtain ⟨fields',t,hraw,hkeys',hmem',hargs',hiff⟩ := arrives hascii hsplit hreq.chunks
  have hnodup : (fields'.map Prod.fst).Nodup := hkeys' ▸ hsortedKeys
  have hunsplit : t = name ↔ Unsplit fields req.chunks := by
    rw [hiff]
    constructor
    · intro hwhole before' name' after' hsplit'
      obtain ⟨hb,hname'⟩ := split_unique hsortedKeys hsplit hsplit'
      rw [← hb,← hname']
      exact hwhole
    · exact fun h => h before name after hsplit
  have hbody : parsedText (rawText req.chunks) = some (.obj (fields'.map fun f => (js f.1,scriptValue f.2))) := by
    have hne : rawText req.chunks ≠ [] := by
      rw [hraw,print_document]
      simp
    rw [parsedText,if_neg hne,hraw,jsonParse_document]
  have hlookup : nameOf fits (.obj (fields'.map fun f => (js f.1,scriptValue f.2))) = some (js t) := by
    have hproperty : property "name" (.obj (fields'.map fun f => (js f.1,scriptValue f.2))) = some (.str (js t)) :=
      lookup_fields hnodup hmem'
    simp only [nameOf,hproperty,stringOf]
  have hdecoded : decodeArgs (.obj (fields'.map fun f => (js f.1,scriptValue f.2))) = some v := by
    refine decodeArgs_eq hvalue ?_
    rw [← hargs]
    refine lookup_fields hnodup (hargs' _ ((List.mem_insertionSort _).mpr hmemArgs) ?_)
    rw [Dispatchers.Invoke.encodeBase64,String.toList_ofList]
    exact ascii_encodeToString args
  have hend := fun registry => ran_end fits registry hbody hlookup
  simp only [hdecoded] at hend
  rw [← hunsplit]
  constructor
  · refine runs_iff hname fun registry => ?_
    rw [← (hend registry).2]
    simp [server,hreq.accepted,hreq.method,hreq.url]
  · refine runs_iff hname fun registry => ?_
    rw [← (hend registry).2,(hend registry).1]
    simp [middleware,hreq.accepted,hreq.method,hreq.url,isInvokePath_invokePath]

end Endpoint

/-- A run of a job without a body of its own in the blob store, and nothing around it. -/
def alone : World where
  blobs := none
  mutate body _ _ := .ok body
  newRequest _ _ := none
  applyAuth req := .ok req
  exchange _ := .error "connection refused"
  elapsedNs := 0
  openClient _ _ := none
  client := false
  emitEvent _ _ _ := (0,none)

def cronJob (name text : String) : CronEvent :=
  ⟨name,"node-cron",some ⟨some (.inline (Hex.utf8 text)),"application/json",0⟩,0,"success","schedule"⟩

def jobBody (name text : String) : Bytes :=
  Dispatchers.Invoke.marshal (Dispatchers.Cron.payload alone (cronJob name text) 0)

def divided (body : Bytes) (k : ℕ) : Request := ⟨"POST",some invokePath,none,[body.take k,body.drop k]⟩

theorem delivered_divided (body : Bytes) (k : ℕ) : Delivered body none (divided body k) where
  method := rfl
  url := rfl
  accepted := rfl
  chunks := by simp [divided]

theorem captured_cronJob (name text : String) :
    Captured alone 0 name (Hex.utf8 text) (Dispatchers.Cron.payload alone (cronJob name text) 0) :=
  .cron (cronJob name text) _ rfl

theorem job_round_trip_null :
    Runs (fun reg => server (fun _ => true) none reg (divided (jobBody "job" "null") 34)) "job" .null ∧
      Runs (fun reg => middleware (fun _ => true) none reg (divided (jobBody "job" "null") 34)) "job" .null := by
  have hunsplit : Unsplit (Dispatchers.Cron.payload alone (cronJob "job" "null") 0)
      (divided (jobBody "job" "null") 34).chunks := by
    intro before name after hsplit
    have hsorted : (("name",.text name) : Field) ∈
        sorted (Dispatchers.Cron.payload alone (cronJob "job" "null") 0) := by
      rw [hsplit]
      exact List.mem_append_right _ List.mem_cons_self
    have hmem := (List.mem_insertionSort _).mp hsorted
    have hname : name = "job" := by simpa [Dispatchers.Cron.payload,cronJob] using hmem
    rw [hname]
    exact whole_ascii _ (ascii_marshalQuote (by decide))
  have hargs : Hex.utf8 "null" = Hex.utf8 (String.ofList "null".toList) := rfl
  have hvalue : jsonParse ("null".toList.map Char.toNat) = some .null := rfl
  have h := job_round_trip_iff (captured_cronJob "job" "null") (by decide) hargs hvalue
    (delivered_divided (jobBody "job" "null") 34) fun _ => true
  exact ⟨h.1.mpr hunsplit,h.2.mpr hunsplit⟩

def accented : Registry := fun name => if name = js "é" then some fun _ => .returned else none

/-- The second chunk begins inside the name, which becomes two replacements. -/
theorem divided_name_unknown :
    Captured alone 0 "é" (Hex.utf8 "null") (Dispatchers.Cron.payload alone (cronJob "é" "null") 0) ∧
      Delivered (jobBody "é" "null") none (divided (jobBody "é" "null") 35) ∧ (accented (js "é")).isSome = true ∧
      (server (fun _ => true) none accented (divided (jobBody "é" "null") 35)).ran.isNone = true ∧
      (middleware (fun _ => true) none accented (divided (jobBody "é" "null") 35)).ran.isNone = true :=
  ⟨captured_cronJob "é" "null",delivered_divided _ 35,rfl,by decide +kernel,by decide +kernel⟩

end JobInvocation
end Clearvoiance
