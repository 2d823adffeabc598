import Clearvoiance.JsonRoundTrip
import Clearvoiance.Utf8Text

/-! The inside of a string literal is lexed back to the characters it was written for, each as an escape or as the
codes of the character itself. -/
namespace Clearvoiance
namespace JsonStrings

open Json Utf8Text

/-- A coding that leaves ASCII alone and uses no ASCII for other characters. -/
structure Coding (code : Char → List ℕ) : Prop where
  plain : Plain code
  high : ∀ c : Char, 0x80 ≤ c.toNat → ∀ n ∈ code c, 0x80 ≤ n

theorem coding_encodeChar : Coding encodeChar where
  plain c hc := encodePoint_plain hc
  high c hc n hn := by
    unfold encodeChar encodePoint at hn
    rw [if_neg (by omega)] at hn
    split_ifs at hn <;> simp only [List.mem_cons,List.not_mem_nil,or_false] at hn <;> omega

theorem coding_units : Coding fun c => units c.toNat where
  plain c hc := if_pos (by omega)
  high c hc n hn := by
    simp only [units] at hn
    split_ifs at hn <;> simp only [List.mem_cons,List.not_mem_nil,or_false] at hn <;> omega

theorem plain_units : Plain fun c => units c.toNat := coding_units.plain

def isEscaped (c : Char) : Bool := c = '"' || c = '\\' || c.toNat < 0x20

def charItems (code : Char → List ℕ) (f : Char → Bool) (c : Char) : List Item :=
  if f c || isEscaped c then [.esc c.toNat] else (code c).map .raw

/-- A character with some further characters escaped by their numbers. -/
def escapeWith (f : Char → Bool) (c : Char) : List Char := if f c then unicodeEscape c.toNat else escapeChar c

theorem lex_silent {s t : LexState} {n : ℕ} (h : lexStep s n = some (t,[])) (ns : List ℕ) :
    lex s (n :: ns) = lex t ns := by
  rw [lex,h]
  simp

theorem lex_raws {ns : List ℕ} (hns : ∀ n ∈ ns, n ≠ 0x22 ∧ n ≠ 0x5C ∧ 0x20 ≤ n) (acc : List Item) (rest : List ℕ) :
    lex (.str acc) (ns ++ rest) = lex (.str ((ns.map .raw).reverse ++ acc)) rest := by
  induction ns generalizing acc with
  | nil => rfl
  | cons n ns ih =>
    obtain ⟨hq,hb,hlow⟩ := hns n (by simp)
    have hstep : lexStep (.str acc) n = some (.str (.raw n :: acc),[]) := by
      rw [lexStep,if_neg hq,if_neg hb,if_neg (by omega)]
    rw [List.cons_append,lex_silent hstep,ih fun m hm => hns m (by simp [hm])]
    simp

theorem lex_simple {n c : ℕ} (hn : simpleEscape n = some c) (hu : n ≠ 0x75) (acc : List Item) (rest : List ℕ) :
    lex (.str acc) (0x5C :: n :: rest) = lex (.str (.esc c :: acc)) rest := by
  have hescape : lexStep (.escape acc) n = some (.str (.esc c :: acc),[]) := by
    rw [lexStep,if_neg hu,hn]
    rfl
  rw [lex_silent rfl,lex_silent hescape]

theorem hexValue_digit : ∀ n < 16, hexValue (Hex.digit n).toNat = some n := by decide

theorem hexDigit_lt : ∀ n < 16, (Hex.digit n).toNat < 0x80 := by decide

theorem lexStep_digit {n count : ℕ} (hn : n < 16) (hcount : count ≠ 3) (acc : List Item) (value : ℕ) :
    lexStep (.unicode acc count value) (Hex.digit n).toNat = some (.unicode acc (count+1) (16*value+n),[]) := by
  rw [lexStep,hexValue_digit n hn]
  simp [hcount]

theorem lexStep_lastDigit {n : ℕ} (hn : n < 16) (acc : List Item) (value : ℕ) :
    lexStep (.unicode acc 3 value) (Hex.digit n).toNat = some (.str (.esc (16*value+n) :: acc),[]) := by
  rw [lexStep,hexValue_digit n hn]
  simp

variable {code : Char → List ℕ}

theorem Coding.lex_unicodeEscape (hcode : Coding code) {n : ℕ} (hn : n < 0x10000) (acc : List Item) (rest : List ℕ) :
    lex (.str acc) ((unicodeEscape n).flatMap code ++ rest) = lex (.str (.esc n :: acc)) rest := by
  have hdigit : ∀ m, code (Hex.digit (m % 16)) = [(Hex.digit (m % 16)).toNat] :=
    fun m => hcode.plain _ (hexDigit_lt _ (by omega))
  have hstart : code '\\' = [0x5C] ∧ code 'u' = [0x75] := ⟨hcode.plain _ (by decide),hcode.plain _ (by decide)⟩
  have hvalue : 16*(16*(16*(16*0+n/4096 % 16)+n/256 % 16)+n/16 % 16)+n % 16 = n := by omega
  simp only [unicodeEscape,List.flatMap_cons,List.flatMap_nil,hstart,hdigit,List.cons_append,
    List.nil_append]
  rw [lex_silent rfl,lex_silent (t := .unicode acc 0 0) rfl]
  rw [lex_silent (lexStep_digit (by omega) (by decide) _ _),lex_silent (lexStep_digit (by omega) (by decide) _ _),
    lex_silent (lexStep_digit (by omega) (by decide) _ _),lex_silent (lexStep_lastDigit (by omega) _ _),hvalue]

theorem Coding.lex_escapeChar (hcode : Coding code) (c : Char) (acc : List Item) (rest : List ℕ) :
    lex (.str acc) ((escapeChar c).flatMap code ++ rest) =
      lex (.str ((charItems code (fun _ => false) c).reverse ++ acc)) rest := by
  have hb : code '\\' = [0x5C] := hcode.plain _ (by decide)
  have hsimple : ∀ x : Char, x.toNat < 0x80 → x.toNat ≠ 0x75 → simpleEscape x.toNat = some c.toNat →
      isEscaped c = true → lex (.str acc) (['\\',x].flatMap code ++ rest) =
        lex (.str ((charItems code (fun _ => false) c).reverse ++ acc)) rest := by
    intro x hx hu hs hc
    simp only [List.flatMap_cons,List.flatMap_nil,hb,hcode.plain x hx,List.append_nil,List.cons_append,
      List.nil_append]
    rw [lex_simple hs hu,charItems,hc]
    rfl
  unfold escapeChar
  split_ifs with hq hbs h8 hC hA hD h9 hlow
  · exact hsimple '"' (by decide) (by decide) (by rw [hq]; decide) (by rw [hq]; decide)
  · exact hsimple '\\' (by decide) (by decide) (by rw [hbs]; decide) (by rw [hbs]; decide)
  · exact hsimple 'b' (by decide) (by decide) (by rw [h8]; decide) (by simp [isEscaped,h8])
  · exact hsimple 'f' (by decide) (by decide) (by rw [hC]; decide) (by simp [isEscaped,hC])
  · exact hsimple 'n' (by decide) (by decide) (by rw [hA]; decide) (by simp [isEscaped,hA])
  · exact hsimple 'r' (by decide) (by decide) (by rw [hD]; decide) (by simp [isEscaped,hD])
  · exact hsimple 't' (by decide) (by decide) (by rw [h9]; decide) (by simp [isEscaped,h9])
  · have hc : isEscaped c = true := by simp [isEscaped,hlow]
    rw [hcode.lex_unicodeEscape (by omega),charItems,hc]
    rfl
  · have hc : isEscaped c = false := by simp [isEscaped,hq,hbs,hlow]
    rw [charItems,hc]
    simp only [List.flatMap_cons,List.flatMap_nil,List.append_nil,Bool.or_self,Bool.false_eq_true,if_false]
    refine lex_raws (fun n hn => ?_) acc rest
    by_cases hascii : c.toNat < 0x80
    · rw [hcode.plain c hascii,List.mem_singleton] at hn
      subst hn
      refine ⟨fun h => hq (Char.toNat_inj.mp h),fun h => hbs (Char.toNat_inj.mp h),by omega⟩
    · have := hcode.high c (by omega) n hn
      omega

theorem Coding.lex_escapeWith (hcode : Coding code) {f : Char → Bool} (hf : ∀ c, f c = true → c.toNat < 0x10000)
    (c : Char) (acc : List Item) (rest : List ℕ) :
    lex (.str acc) ((escapeWith f c).flatMap code ++ rest) = lex (.str ((charItems code f c).reverse ++ acc)) rest := by
  unfold escapeWith
  split_ifs with h
  · rw [hcode.lex_unicodeEscape (hf c h),charItems,h]
    rfl
  · rw [hcode.lex_escapeChar,charItems,charItems]
    simp [h]

end JsonStrings
end Clearvoiance
