import Clearvoiance.EscapedText
import Clearvoiance.NumberReading

/-! Text as `json.Marshal` writes it.  Besides quotes, backslashes and control characters it escapes what a browser
could take for markup, and the two separators of lines. -/
namespace Clearvoiance
namespace JsonStrings

open Json Utf8Text

/-- What only `json.Marshal` escapes. -/
def isMarkup (c : Char) : Bool := c = '<' || c = '>' || c = '&' || isSeparator c

/-- `appendString` of Go's encoder, between the quotes. -/
def marshalQuote (s : GoString) : List Char := s.flatMap (escapeWith isMarkup)

theorem isMarkup_lt {c : Char} (h : isMarkup c = true) : c.toNat < 0x10000 := by
  simp only [isMarkup,isSeparator,Bool.or_eq_true,decide_eq_true_eq] at h
  rcases h with ((rfl | rfl) | rfl) | h | h
  · decide
  · decide
  · decide
  · omega
  · omega

theorem safe_escapeWith (f : Char → Bool) (c : Char) : Safe (escapeWith f c) := by
  unfold escapeWith
  split_ifs
  · exact safe_unicodeEscape _
  · exact safe_escapeChar c

theorem safe_marshalQuote (s : GoString) : Safe (marshalQuote s) := by
  induction s with
  | nil => exact .nil
  | cons c s ih =>
    rw [marshalQuote,List.flatMap_cons]
    exact (safe_escapeWith _ c).append ih

def marshalItems (code : Char → List ℕ) (s : GoString) : List Item := s.flatMap (charItems code isMarkup)

theorem Coding.lex_marshalQuote {code : Char → List ℕ} (hcode : Coding code) (s : GoString) (acc : List Item)
    (rest : List ℕ) :
    lex (.str acc) ((marshalQuote s).flatMap code ++ rest) =
      lex (.str ((marshalItems code s).reverse ++ acc)) rest := by
  induction s generalizing acc with
  | nil => rfl
  | cons c s ih =>
    simp only [marshalQuote,marshalItems,List.flatMap_cons,List.flatMap_append,List.append_assoc] at ih ⊢
    rw [hcode.lex_escapeWith fun _ h => isMarkup_lt h,ih]
    simp

/-- A written Go string stands for the bytes of the string. -/
theorem exactString_marshalItems (s : GoString) : exactString (marshalItems encodeChar s) = encode s := by
  induction s with
  | nil => rfl
  | cons c s ih =>
    rw [marshalItems,List.flatMap_cons,encode_cons,← ih,charItems]
    split_ifs
    · exact exactString_point c _
    · exact exactString_raws _ _

theorem isEscaped_lt {c : Char} (h : isEscaped c = true) : c.toNat < 0x80 := by
  simp only [isEscaped,Bool.or_eq_true,decide_eq_true_eq] at h
  rcases h with (rfl | rfl) | h
  · decide
  · decide
  · omega

theorem jsString_charItems (c : Char) :
    jsString (charItems (fun c => units c.toNat) isMarkup c) = (units c.toNat).map UInt16.ofNat := by
  unfold charItems
  split_ifs with h
  · have hlt : c.toNat < 0x10000 := by
      rcases Bool.or_eq_true_iff.mp h with h | h
      · exact isMarkup_lt h
      · exact (isEscaped_lt h).trans (by decide)
    rw [units,if_pos hlt]
    rfl
  · rw [jsString,List.map_map]
    rfl

theorem jsString_marshalItems (s : GoString) : jsString (marshalItems (fun c => units c.toNat) s) = utf16 s := by
  induction s with
  | nil => rfl
  | cons c s ih =>
    rw [marshalItems,List.flatMap_cons,jsString,List.map_append,utf16,List.flatMap_cons]
    exact congrArg₂ (· ++ ·) (jsString_charItems c) ih

section Units

variable (f : Char → Bool) (code : Char → List ℕ)

/-- `quoteUnit` with further characters escaped. -/
def quoteUnitWith (x : UInt16) : List Char :=
  if isHigh x.toNat || isLow x.toNat then unicodeEscape x.toNat else escapeWith f (Char.ofNat x.toNat)

/-- `jsQuote` with further characters escaped. -/
def jsQuoteWith : JsString → List Char
  | [] => []
  | [x] => quoteUnitWith f x
  | x :: y :: t =>
    if isHigh x.toNat && isLow y.toNat then escapeWith f (Char.ofNat (combine x.toNat y.toNat)) ++ jsQuoteWith t
    else quoteUnitWith f x ++ jsQuoteWith (y :: t)

/-- What a unit on its own is lexed to. -/
def unitItems (x : UInt16) : List Item :=
  if isHigh x.toNat || isLow x.toNat then [.esc x.toNat] else charItems code f (Char.ofNat x.toNat)

def jsItems : JsString → List Item
  | [] => []
  | [x] => unitItems f code x
  | x :: y :: t =>
    if isHigh x.toNat && isLow y.toNat then charItems code f (Char.ofNat (combine x.toNat y.toNat)) ++ jsItems t
    else unitItems f code x ++ jsItems (y :: t)

theorem jsQuoteWith_false (u : JsString) : jsQuoteWith (fun _ => false) u = jsQuote u := by
  have hunit : ∀ x, quoteUnitWith (fun _ => false) x = quoteUnit x := fun _ => rfl
  have hchar : ∀ c, escapeWith (fun _ => false) c = escapeChar c := fun _ => rfl
  induction u using jsQuote.induct with
  | case1 => rfl
  | case2 x => exact hunit x
  | case3 x y t h ih => rw [jsQuote,jsQuoteWith,if_pos h,if_pos h,hchar,ih]
  | case4 x y t h ih => rw [jsQuote,jsQuoteWith,if_neg h,if_neg h,hunit,ih]

theorem safe_quoteUnitWith (x : UInt16) : Safe (quoteUnitWith f x) := by
  unfold quoteUnitWith
  split_ifs
  · exact safe_unicodeEscape _
  · exact safe_escapeWith f _

theorem safe_jsQuoteWith (u : JsString) : Safe (jsQuoteWith f u) := by
  induction u using jsQuote.induct with
  | case1 => exact .nil
  | case2 x =>
    rw [jsQuoteWith]
    exact safe_quoteUnitWith f x
  | case3 x y t h ih =>
    rw [jsQuoteWith,if_pos h]
    exact (safe_escapeWith f _).append ih
  | case4 x y t h ih =>
    rw [jsQuoteWith,if_neg h]
    exact (safe_quoteUnitWith f x).append ih

variable {f code}

theorem Coding.lex_quoteUnitWith (hcode : Coding code) (hf : ∀ c, f c = true → c.toNat < 0x10000) (x : UInt16)
    (acc : List Item) (rest : List ℕ) :
    lex (.str acc) ((quoteUnitWith f x).flatMap code ++ rest) =
      lex (.str ((unitItems f code x).reverse ++ acc)) rest := by
  unfold quoteUnitWith unitItems
  split_ifs
  · rw [hcode.lex_unicodeEscape x.toNat_lt]
    rfl
  · rw [hcode.lex_escapeWith hf]

theorem Coding.lex_jsQuoteWith (hcode : Coding code) (hf : ∀ c, f c = true → c.toNat < 0x10000) (u : JsString)
    (acc : List Item) (rest : List ℕ) :
    lex (.str acc) ((jsQuoteWith f u).flatMap code ++ rest) = lex (.str ((jsItems f code u).reverse ++ acc)) rest := by
  induction u using jsQuote.induct generalizing acc with
  | case1 => rfl
  | case2 x =>
    rw [jsQuoteWith,jsItems]
    exact hcode.lex_quoteUnitWith hf x acc rest
  | case3 x y t h ih =>
    rw [jsQuoteWith,jsItems,if_pos h,if_pos h,List.flatMap_append,List.append_assoc,hcode.lex_escapeWith hf,ih]
    simp
  | case4 x y t h ih =>
    rw [jsQuoteWith,jsItems,if_neg h,if_neg h,List.flatMap_append,List.append_assoc,hcode.lex_quoteUnitWith hf,ih]
    simp

theorem jsString_unitItems (x : UInt16) : jsString (unitItems isMarkup (fun c => units c.toNat) x) = [x] := by
  unfold unitItems
  split_ifs with h
  · simp [jsString,itemCode]
  · have hvalid : x.toNat.isValidChar := by
      have hlt := x.toNat_lt
      simp only [isHigh,isLow,Bool.or_eq_true,Bool.and_eq_true,decide_eq_true_eq] at h
      unfold Nat.isValidChar
      omega
    rw [jsString_charItems,toNat_ofNat_of_valid hvalid,units,if_pos x.toNat_lt]
    simp

theorem jsString_jsItems (u : JsString) : jsString (jsItems isMarkup (fun c => units c.toNat) u) = u := by
  induction u using jsQuote.induct with
  | case1 => rfl
  | case2 x =>
    rw [jsItems]
    exact jsString_unitItems x
  | case3 x y t h ih =>
    have hpair := h
    rw [Bool.and_eq_true] at hpair
    have hchar : jsString (charItems (fun c => units c.toNat) isMarkup (Char.ofNat (combine x.toNat y.toNat))) =
        [x,y] := by
      rw [jsString_charItems,toNat_ofNat_of_valid (combine_valid hpair.1 hpair.2),units_combine hpair.1 hpair.2]
      simp
    rw [jsItems,if_pos h,jsString,List.map_append]
    exact congrArg₂ (· ++ ·) hchar ih
  | case4 x y t h ih =>
    rw [jsItems,if_neg h,jsString,List.map_append]
    exact congrArg₂ (· ++ ·) (jsString_unitItems x) ih

end Units

end JsonStrings
end Clearvoiance
