import Clearvoiance.Binary64
import Clearvoiance.Hex

/-! Strings of JSON documents in the two languages.  A Go string is a sequence of code points: bytes
that are not UTF-8 and surrogates that are not paired are replaced when it is read.  A JavaScript
string is a sequence of UTF-16 units.  The two escape their strings alike but for U+2028 and U+2029,
which only Go escapes, and for lone surrogates, which Go does not have. -/
namespace Clearvoiance
namespace JsonStrings

open Json

/-- A UTF-8 decoder between two bytes: the bytes it still needs, those it has seen, the code point so
far, and the range of the next byte. -/
structure Utf8State where
  needed : ℕ
  seen : ℕ
  point : ℕ
  lower : ℕ
  upper : ℕ
  deriving DecidableEq

def idle : Utf8State := ⟨0,0,0,0x80,0xBF⟩

def replacement : ℕ := 0xFFFD

def startByte (b : ℕ) : List ℕ × Utf8State :=
  if b < 0x80 then ([b],idle)
  else if 0xC2 ≤ b ∧ b ≤ 0xDF then ([],⟨1,1,b-0xC0,0x80,0xBF⟩)
  else if 0xE0 ≤ b ∧ b ≤ 0xEF then
    ([],⟨2,1,b-0xE0,if b = 0xE0 then 0xA0 else 0x80,if b = 0xED then 0x9F else 0xBF⟩)
  else if 0xF0 ≤ b ∧ b ≤ 0xF4 then
    ([],⟨3,1,b-0xF0,if b = 0xF0 then 0x90 else 0x80,if b = 0xF4 then 0x8F else 0xBF⟩)
  else ([replacement],idle)

/-- What is put out for a sequence that breaks off; `bad` says how many replacements stand for the
bytes seen. -/
def flush (bad : ℕ → ℕ) (s : Utf8State) : List ℕ :=
  if s.needed = 0 then [] else List.replicate (bad s.seen) replacement

def nextByte (bad : ℕ → ℕ) (s : Utf8State) (b : ℕ) : List ℕ × Utf8State :=
  if s.needed = 0 then startByte b
  else if s.lower ≤ b ∧ b ≤ s.upper then
    if s.needed = 1 then ([64*s.point+(b-0x80)],idle)
    else ([],⟨s.needed-1,s.seen+1,64*s.point+(b-0x80),0x80,0xBF⟩)
  else (flush bad s ++ (startByte b).1,(startByte b).2)

def decodeFrom (bad : ℕ → ℕ) (s : Utf8State) : List ℕ → List ℕ
  | [] => flush bad s
  | b :: bs => (nextByte bad s b).1 ++ decodeFrom bad (nextByte bad s b).2 bs

/-- `Buffer.prototype.toString("utf-8")` as code points: one replacement for each broken sequence. -/
def bufferToString (bs : List ℕ) : List ℕ := decodeFrom (fun _ => 1) idle bs

def units (p : ℕ) : List ℕ := if p < 0x10000 then [p] else [0xD800+(p-0x10000)/0x400,0xDC00+(p-0x10000) % 0x400]

def isHigh (n : ℕ) : Bool := decide (0xD800 ≤ n) && decide (n < 0xDC00)

def isLow (n : ℕ) : Bool := decide (0xDC00 ≤ n) && decide (n < 0xE000)

def combine (hi lo : ℕ) : ℕ := 0x10000+(hi-0xD800)*0x400+(lo-0xDC00)

/-- The replacement for an escaped surrogate that did not find its partner. -/
def lone (hi : Option ℕ) : List ℕ := if hi.isSome then [replacement] else []

/-- `unquote` of Go's decoder, with the high surrogate of the escape before: every byte of a broken
sequence is replaced, and so is an escaped surrogate without its partner. -/
def unquote (s : Utf8State) (hi : Option ℕ) : List Item → List ℕ
  | [] => flush id s ++ lone hi
  | .raw b :: t => lone hi ++ (nextByte id s b).1 ++ unquote (nextByte id s b).2 none t
  | .esc n :: t =>
    if hi.isSome && isLow n then combine (hi.getD 0) n :: unquote idle none t
    else
      flush id s ++ lone hi ++
        if isHigh n then unquote idle (some n) t
        else (if isLow n then replacement else n) :: unquote idle none t

abbrev GoString := List Char

abbrev JsString := List UInt16

def goString (items : List Item) : GoString := (unquote idle none items).map Char.ofNat

def itemCode : Item → ℕ
  | .raw n => n
  | .esc n => n

def jsString (items : List Item) : JsString := items.map fun i => UInt16.ofNat (itemCode i)

def utf16 (s : GoString) : JsString := s.flatMap fun c => (units c.toNat).map UInt16.ofNat

def unicodeEscape (n : ℕ) : List Char :=
  ['\\','u',Hex.digit (n/4096 % 16),Hex.digit (n/256 % 16),Hex.digit (n/16 % 16),Hex.digit (n % 16)]

/-- The escapes of `JSON.stringify`, for a code point. -/
def escapeChar (c : Char) : List Char :=
  if c = '"' then ['\\','"']
  else if c = '\\' then ['\\','\\']
  else if c.toNat = 0x08 then ['\\','b']
  else if c.toNat = 0x0C then ['\\','f']
  else if c.toNat = 0x0A then ['\\','n']
  else if c.toNat = 0x0D then ['\\','r']
  else if c.toNat = 0x09 then ['\\','t']
  else if c.toNat < 0x20 then unicodeEscape c.toNat
  else [c]

def isSeparator (c : Char) : Bool := c.toNat = 0x2028 || c.toNat = 0x2029

/-- `appendString` of Go's encoder without HTML escapes. -/
def goQuote (s : GoString) : List Char :=
  s.flatMap fun c => if isSeparator c then unicodeEscape c.toNat else escapeChar c

/-- A unit on its own; a lone surrogate is escaped. -/
def quoteUnit (x : UInt16) : List Char :=
  if isHigh x.toNat || isLow x.toNat then unicodeEscape x.toNat else escapeChar (Char.ofNat x.toNat)

/-- `JSON.stringify` of a string, between the quotes. -/
def jsQuote : JsString → List Char
  | [] => []
  | [x] => quoteUnit x
  | x :: y :: t =>
    if isHigh x.toNat && isLow y.toNat then escapeChar (Char.ofNat (combine x.toNat y.toNat)) ++ jsQuote t
    else quoteUnit x ++ jsQuote (y :: t)

def hexDigitValue (c : Char) : ℕ := if c.isDigit then c.toNat-48 else c.toNat-87

def escapeValue (c : Char) : ℕ :=
  if c = 'b' then 0x08 else if c = 'f' then 0x0C else if c = 'n' then 0x0A else if c = 'r' then 0x0D
  else if c = 't' then 0x09 else c.toNat

/-- The UTF-16 units that an escaped text stands for. -/
def unescape : List Char → List ℕ
  | [] => []
  | c :: t =>
    if c = '\\' then
      match t with
      | [] => []
      | x :: t' =>
        if x = 'u' then
          match t' with
          | h1 :: h2 :: h3 :: h4 :: rest =>
            (4096*hexDigitValue h1+256*hexDigitValue h2+16*hexDigitValue h3+hexDigitValue h4) :: unescape rest
          | _ => []
        else escapeValue x :: unescape t'
    else units c.toNat ++ unescape t

theorem hexDigitValue_digit : ∀ n < 16, hexDigitValue (Hex.digit n) = n := by decide

theorem unescape_unicodeEscape {n : ℕ} (hn : n < 0x10000) (t : List Char) :
    unescape (unicodeEscape n ++ t) = n :: unescape t := by
  have h1 := hexDigitValue_digit (n/4096 % 16) (by omega)
  have h2 := hexDigitValue_digit (n/256 % 16) (by omega)
  have h3 := hexDigitValue_digit (n/16 % 16) (by omega)
  have h4 := hexDigitValue_digit (n % 16) (by omega)
  simp only [unicodeEscape,List.cons_append,List.nil_append,unescape,if_true,h1,h2,h3,h4]
  congr 1
  omega

theorem unescape_plain {c : Char} (hc : c ≠ '\\') (t : List Char) : unescape (c :: t) = units c.toNat ++ unescape t := by
  rw [unescape.eq_def]
  simp [hc]

theorem unescape_simple {c : Char} (hc : c ≠ 'u') (t : List Char) :
    unescape ('\\' :: c :: t) = escapeValue c :: unescape t := by
  rw [unescape.eq_def]
  simp [hc]

theorem unescape_escapeChar (c : Char) (t : List Char) :
    unescape (escapeChar c ++ t) = units c.toNat ++ unescape t := by
  unfold escapeChar
  split_ifs with hq hb h8 hC hA hD h9 hlow
  · subst hq
    exact unescape_simple (by decide) t
  · subst hb
    exact unescape_simple (by decide) t
  · rw [h8]
    exact unescape_simple (by decide) t
  · rw [hC]
    exact unescape_simple (by decide) t
  · rw [hA]
    exact unescape_simple (by decide) t
  · rw [hD]
    exact unescape_simple (by decide) t
  · rw [h9]
    exact unescape_simple (by decide) t
  · rw [unescape_unicodeEscape (by omega),units,if_pos (by omega)]
    rfl
  · exact unescape_plain hb t

@[simp] theorem unicodeEscape_length (n : ℕ) : (unicodeEscape n).length = 6 := rfl

theorem safe_unicodeEscape (n : ℕ) : Safe (unicodeEscape n) := by
  have hdigit : ∀ m < 16, Hex.digit m ≠ '"' ∧ Hex.digit m ≠ '\\' := by decide
  have h1 := hdigit (n/4096 % 16) (by omega)
  have h2 := hdigit (n/256 % 16) (by omega)
  have h3 := hdigit (n/16 % 16) (by omega)
  have h4 := hdigit (n % 16) (by omega)
  exact .escape (.plain h1.1 h1.2 (.plain h2.1 h2.2 (.plain h3.1 h3.2 (.plain h4.1 h4.2 .nil))))

theorem safe_escapeChar (c : Char) : Safe (escapeChar c) := by
  unfold escapeChar
  split_ifs with hq hb
  · exact .escape .nil
  · exact .escape .nil
  · exact .escape .nil
  · exact .escape .nil
  · exact .escape .nil
  · exact .escape .nil
  · exact .escape .nil
  · exact safe_unicodeEscape _
  · exact .plain hq hb .nil

theorem safe_goQuote (s : GoString) : Safe (goQuote s) := by
  induction s with
  | nil => exact .nil
  | cons c s ih =>
    simp only [goQuote,List.flatMap_cons] at ih ⊢
    refine Safe.append ?_ ih
    split_ifs
    · exact safe_unicodeEscape _
    · exact safe_escapeChar c

theorem safe_quoteUnit (x : UInt16) : Safe (quoteUnit x) := by
  unfold quoteUnit
  split_ifs
  · exact safe_unicodeEscape _
  · exact safe_escapeChar _

theorem safe_jsQuote (u : JsString) : Safe (jsQuote u) := by
  induction u using jsQuote.induct with
  | case1 => exact .nil
  | case2 x =>
    rw [jsQuote]
    exact safe_quoteUnit x
  | case3 x y t h ih =>
    rw [jsQuote,if_pos h]
    exact (safe_escapeChar _).append ih
  | case4 x y t h ih =>
    rw [jsQuote,if_neg h]
    exact (safe_quoteUnit x).append ih

theorem toNat_ofNat_of_valid {n : ℕ} (h : n.isValidChar) : (Char.ofNat n).toNat = n := by
  rw [Char.ofNat,dif_pos h]
  rfl

theorem unescape_goQuote (s : GoString) : unescape (goQuote s) = s.flatMap fun c => units c.toNat := by
  induction s with
  | nil => rfl
  | cons c s ih =>
    simp only [goQuote,List.flatMap_cons] at ih ⊢
    rw [← ih]
    split_ifs with hsep
    · have hc : c.toNat = 0x2028 ∨ c.toNat = 0x2029 := by simpa [isSeparator] using hsep
      rw [unescape_unicodeEscape (by omega),units,if_pos (by omega)]
      rfl
    · exact unescape_escapeChar c _

theorem unescape_quoteUnit (x : UInt16) (t : List Char) : unescape (quoteUnit x ++ t) = x.toNat :: unescape t := by
  have hx : x.toNat < 0x10000 := x.toNat_lt
  unfold quoteUnit
  split_ifs with hsur
  · exact unescape_unicodeEscape hx t
  · have hvalid : x.toNat.isValidChar := by
      simp only [isHigh,isLow,Bool.or_eq_true,Bool.and_eq_true,decide_eq_true_eq] at hsur
      unfold Nat.isValidChar
      omega
    rw [unescape_escapeChar,toNat_ofNat_of_valid hvalid,units,if_pos hx]
    rfl

theorem units_combine {hi lo : ℕ} (hh : isHigh hi = true) (hl : isLow lo = true) : units (combine hi lo) = [hi,lo] := by
  simp only [isHigh,isLow,Bool.and_eq_true,decide_eq_true_eq] at hh hl
  have hbig : ¬ combine hi lo < 0x10000 := by
    unfold combine
    omega
  have h1 : 0xD800+(combine hi lo-0x10000)/0x400 = hi := by
    unfold combine
    omega
  have h2 : 0xDC00+(combine hi lo-0x10000) % 0x400 = lo := by
    unfold combine
    omega
  rw [units,if_neg hbig,h1,h2]

theorem combine_valid {hi lo : ℕ} (hh : isHigh hi = true) (hl : isLow lo = true) : (combine hi lo).isValidChar := by
  simp only [isHigh,isLow,Bool.and_eq_true,decide_eq_true_eq] at hh hl
  right
  unfold combine
  omega

theorem unescape_jsQuote (u : JsString) : unescape (jsQuote u) = u.map UInt16.toNat := by
  induction u using jsQuote.induct with
  | case1 => rfl
  | case2 x =>
    have := unescape_quoteUnit x []
    simpa [jsQuote,unescape] using this
  | case3 x y t h ih =>
    rw [Bool.and_eq_true] at h
    rw [jsQuote,if_pos (by rw [h.1,h.2]; rfl),unescape_escapeChar,ih,toNat_ofNat_of_valid (combine_valid h.1 h.2),
      units_combine h.1 h.2]
    rfl
  | case4 x y t h ih => rw [jsQuote,if_neg h,unescape_quoteUnit,ih]; rfl

theorem isHigh_of_valid {n : ℕ} (h : n.isValidChar) : isHigh n = false ∧ isLow n = false := by
  unfold Nat.isValidChar at h
  simp only [isHigh,isLow,Bool.and_eq_false_iff,decide_eq_false_iff_not]
  omega

theorem jsQuote_cons {x : UInt16} (hx : isHigh x.toNat = false) (u : JsString) :
    jsQuote (x :: u) = quoteUnit x ++ jsQuote u := by
  cases u with
  | nil => simp [jsQuote]
  | cons y u =>
    rw [jsQuote,if_neg]
    simp [hx]

/-- A character is one unit that is no surrogate, or a pair of surrogates. -/
theorem units_cases (c : Char) :
    (∃ x : UInt16, (units c.toNat).map UInt16.ofNat = [x] ∧ x.toNat = c.toNat ∧ isHigh x.toNat = false ∧
      isLow x.toNat = false) ∨
    ∃ x y : UInt16, (units c.toNat).map UInt16.ofNat = [x,y] ∧ combine x.toNat y.toNat = c.toNat ∧
      isHigh x.toNat = true ∧ isLow y.toNat = true := by
  have hvalid : c.toNat.isValidChar := c.valid
  by_cases hsmall : c.toNat < 0x10000
  · have hx : (UInt16.ofNat c.toNat).toNat = c.toNat := by
      rw [UInt16.toNat_ofNat']
      exact Nat.mod_eq_of_lt hsmall
    have hsur := isHigh_of_valid hvalid
    refine .inl ⟨UInt16.ofNat c.toNat,?_,hx,?_,?_⟩
    · rw [units,if_pos hsmall,List.map_singleton]
    · rw [hx,hsur.1]
    · rw [hx,hsur.2]
  · have hlt : c.toNat < 0x110000 := by
      unfold Nat.isValidChar at hvalid
      omega
    have h1 : (UInt16.ofNat (0xD800+(c.toNat-0x10000)/0x400)).toNat = 0xD800+(c.toNat-0x10000)/0x400 := by
      rw [UInt16.toNat_ofNat']
      exact Nat.mod_eq_of_lt (by omega)
    have h2 : (UInt16.ofNat (0xDC00+(c.toNat-0x10000) % 0x400)).toNat = 0xDC00+(c.toNat-0x10000) % 0x400 := by
      rw [UInt16.toNat_ofNat']
      exact Nat.mod_eq_of_lt (by omega)
    refine .inr ⟨UInt16.ofNat (0xD800+(c.toNat-0x10000)/0x400),UInt16.ofNat (0xDC00+(c.toNat-0x10000) % 0x400),?_,?_,?_,?_⟩
    · rw [units,if_neg hsmall,List.map_cons,List.map_singleton]
    · rw [h1,h2]
      unfold combine
      omega
    · rw [h1]
      simp only [isHigh,Bool.and_eq_true,decide_eq_true_eq]
      omega
    · rw [h2]
      simp only [isLow,Bool.and_eq_true,decide_eq_true_eq]
      omega

theorem jsQuote_units (c : Char) (u : JsString) :
    jsQuote ((units c.toNat).map UInt16.ofNat ++ u) = escapeChar c ++ jsQuote u := by
  rcases units_cases c with ⟨x,hu,hx,hhigh,hlow⟩ | ⟨x,y,hu,hback,hhigh,hlow⟩
  · rw [hu,List.singleton_append,jsQuote_cons hhigh,quoteUnit,hhigh,hlow,hx]
    simp [Char.ofNat_toNat]
  · rw [hu,List.cons_append,List.singleton_append,jsQuote,hhigh,hlow,hback,Char.ofNat_toNat]
    rfl

theorem jsQuote_utf16 (s : GoString) : jsQuote (utf16 s) = s.flatMap escapeChar := by
  induction s with
  | nil => rfl
  | cons c s ih =>
    simp only [utf16,List.flatMap_cons] at ih ⊢
    rw [jsQuote_units,ih]

theorem utf16_toNat (s : GoString) : (utf16 s).map UInt16.toNat = s.flatMap fun c => units c.toNat := by
  rw [← unescape_jsQuote,jsQuote_utf16]
  induction s with
  | nil => rfl
  | cons c s ih => rw [List.flatMap_cons,List.flatMap_cons,unescape_escapeChar,ih]

/-- A string whose units are those of the Go string, without the separators that only Go escapes. -/
def SameString (s : GoString) (u : JsString) : Prop := u = utf16 s ∧ ∀ c ∈ s, isSeparator c = false

theorem escapeChar_separator {c : Char} (h : isSeparator c = true) : escapeChar c = [c] := by
  have hc : c.toNat = 0x2028 ∨ c.toNat = 0x2029 := by simpa [isSeparator] using h
  have hq : c ≠ '"' := by
    rintro rfl
    revert hc
    decide
  have hb : c ≠ '\\' := by
    rintro rfl
    revert hc
    decide
  unfold escapeChar
  rw [if_neg hq,if_neg hb,if_neg (by omega),if_neg (by omega),if_neg (by omega),if_neg (by omega),if_neg (by omega),
    if_neg (by omega)]

theorem length_le_goQuote (s : GoString) : (s.flatMap escapeChar).length ≤ (goQuote s).length := by
  induction s with
  | nil => simp [goQuote]
  | cons c s ih =>
    simp only [goQuote,List.flatMap_cons,List.length_append] at ih ⊢
    split_ifs with hsep
    · rw [escapeChar_separator hsep]
      simp only [unicodeEscape_length,List.length_cons,List.length_nil]
      omega
    · omega

theorem goQuote_eq_escape_iff (s : GoString) :
    goQuote s = s.flatMap escapeChar ↔ ∀ c ∈ s, isSeparator c = false := by
  induction s with
  | nil => simp [goQuote]
  | cons c s ih =>
    have hle := length_le_goQuote s
    simp only [goQuote,List.flatMap_cons] at ih hle ⊢
    cases hsep : isSeparator c with
    | false =>
      rw [if_neg (by decide),List.append_cancel_left_eq,ih]
      simp [hsep]
    | true =>
      refine iff_of_false ?_ ?_
      · intro h
        have hlen := congrArg List.length h
        rw [if_pos rfl,escapeChar_separator hsep] at hlen
        simp only [List.length_append,unicodeEscape_length,List.length_cons,List.length_nil] at hlen
        omega
      · intro h
        rw [h c (by simp)] at hsep
        cases hsep

/-- The two languages write a string alike exactly when it is the same string without separators. -/
theorem quote_eq_iff (s : GoString) (u : JsString) : goQuote s = jsQuote u ↔ SameString s u := by
  constructor
  · intro h
    have hu : u = utf16 s := by
      have hunits := congrArg unescape h
      rw [unescape_goQuote,unescape_jsQuote,← utf16_toNat] at hunits
      exact (List.map_injective_iff.mpr (fun a b hab => UInt16.toNat_inj.mp hab) hunits).symm
    refine ⟨hu,?_⟩
    rw [hu,jsQuote_utf16] at h
    exact (goQuote_eq_escape_iff s).mp h
  · rintro ⟨rfl,hsep⟩
    rw [jsQuote_utf16]
    exact (goQuote_eq_escape_iff s).mpr hsep

/-- Go writes the sign of a negative zero. -/
def goNumber (x : Binary64) : List Char := Binary64.signed x.neg x.magnitude

/-- JavaScript does not. -/
def jsNumber (x : Binary64) : List Char := Binary64.signed (x.neg && x.mant ≠ 0) x.magnitude

def SameNumber (x y : Binary64) : Prop := x.neg = (y.neg && decide (y.mant ≠ 0)) ∧ x.magnitude = y.magnitude

theorem number_eq_iff (x y : Binary64) : goNumber x = jsNumber y ↔ SameNumber x y :=
  Binary64.signed_eq_iff _ _ x y

def goPrinter : Printer GoString Binary64 where
  string := goQuote
  number := goNumber
  string_safe := safe_goQuote
  number_text x := Binary64.signed_text _ x

def jsPrinter : Printer JsString Binary64 where
  string := jsQuote
  number := jsNumber
  string_safe := safe_jsQuote
  number_text x := Binary64.signed_text _ x

end JsonStrings
end Clearvoiance
