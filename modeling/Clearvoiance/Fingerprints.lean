import Clearvoiance.ControlPlane
import Clearvoiance.Sha1
import Clearvoiance.Utf16
import Mathlib.Data.List.TakeWhile

/-! The grouping keys of a query's text.  The SDK keeps the text itself with its literals replaced, at most
200 units of it; the observer keeps 16 digits of a hash of the text with its literals replaced.  The two
keys of one text are different unless the text is such a key already. -/
namespace Clearvoiance
namespace Fingerprints

open Hex JsonStrings

section Sdk

/-- `\s` of a JavaScript regular expression, and what `trim` removes. -/
def white (n : ℕ) : Bool :=
  (9 ≤ n && n ≤ 13) || n == 0x20 || n == 0xa0 || n == 0x1680 || (0x2000 ≤ n && n ≤ 0x200a) || n == 0x2028 ||
    n == 0x2029 || n == 0x202f || n == 0x205f || n == 0x3000 || n == 0xfeff

/-- `\d` -/
def digitCode (n : ℕ) : Bool := 0x30 ≤ n && n ≤ 0x39

/-- `\w` -/
def wordCode (n : ℕ) : Bool := digitCode n || (0x41 ≤ n && n ≤ 0x5a) || (0x61 ≤ n && n ≤ 0x7a) || n == 0x5f

/-- What `.` does not match. -/
def lineTerminator (n : ℕ) : Bool := n == 0x0a || n == 0x0d || n == 0x2028 || n == 0x2029

def isSpace (x : UInt16) : Bool := white x.toNat

def isDigit (x : UInt16) : Bool := digitCode x.toNat

def isWord (x : UInt16) : Bool := wordCode x.toNat

def mark : UInt16 := unitOf '?'

def semicolon : UInt16 := unitOf ';'

def trim (s : JsString) : JsString := ((s.dropWhile isSpace).reverse.dropWhile isSpace).reverse

/-- `replace(/;\s*$/g, "")` -/
def dropSemicolon : JsString → JsString
  | [] => []
  | x :: s => if x = semicolon ∧ s.all isSpace = true then [] else x :: dropSemicolon s

/-- What follows the literal `'([^']|'')*'` behind its first quote: the last quote that is not one of a
pair ends it, and where only pairs are left the first of the last pair does. -/
def closeSingle : JsString → Option JsString
  | [] => none
  | [x] => if x = unitOf '\'' then some [] else none
  | x :: y :: s =>
    if x = unitOf '\'' then if y = unitOf '\'' then (closeSingle s).or (some (y :: s)) else some (y :: s)
    else closeSingle (y :: s)

/-- What follows `"(?:[^"\\]|\\.)*"` behind its first quote. -/
def closeDouble : JsString → Option JsString
  | [] => none
  | [x] => if x = unitOf '"' then some [] else none
  | x :: y :: s =>
    if x = unitOf '"' then some (y :: s)
    else if x = unitOf '\\' then if lineTerminator y.toNat then none else closeDouble s
    else closeDouble (y :: s)

/-- Replaces the texts between a quote and what closes it; `n` is at least the length of the text. -/
def replaceQuoted (quote : UInt16) (close : JsString → Option JsString) : ℕ → JsString → JsString
  | 0, s => s
  | _+1, [] => []
  | n+1, x :: s =>
    if x = quote then
      match close s with
      | some rest => mark :: replaceQuoted quote close n rest
      | none => x :: replaceQuoted quote close n s
    else x :: replaceQuoted quote close n s

def startsWord (s : JsString) : Bool := (s.head?.map isWord).getD false

/-- `replace(/\b\d+\b/g, "?")`; `inWord` says whether the unit before is one of a word. -/
def replaceNumbers : ℕ → Bool → JsString → JsString
  | 0, _, s => s
  | _+1, _, [] => []
  | n+1, inWord, x :: s =>
    if !inWord && isDigit x && !startsWord (s.dropWhile isDigit) then
      mark :: replaceNumbers n true (s.dropWhile isDigit)
    else x :: replaceNumbers n (isWord x) s

/-- `replace(/\s+/g, " ")`; `inSpace` says whether the unit before is white. -/
def collapse : Bool → JsString → JsString
  | _, [] => []
  | inSpace, x :: s =>
    if isSpace x then if inSpace then collapse true s else unitOf ' ' :: collapse true s
    else x :: collapse false s

def replaceLiterals (s : JsString) : JsString :=
  let s := replaceQuoted (unitOf '\'') closeSingle s.length s
  let s := replaceQuoted (unitOf '"') closeDouble s.length s
  replaceNumbers s.length false s

def sqlFingerprint (sql : JsString) : JsString :=
  if sql = [] then []
  else
    let s := dropSemicolon (trim sql)
    let s := replaceLiterals s
    let s := trim (collapse false s)
    if 200 < s.length then s.take 200 else s

end Sdk

section Observer

/-- What follows a string literal behind its first quote. -/
def skipLiteral : GoString → GoString
  | [] => []
  | [_] => []
  | c :: d :: s => if c = '\'' then if d = '\'' then skipLiteral s else d :: s else skipLiteral (d :: s)

def isDecimal (c : Char) : Bool := digitCode c.toNat

def isNumeral (c : Char) : Bool := c = '.' || isDecimal c

/-- `n` is at least the length of the text. -/
def stripLiterals : ℕ → GoString → GoString
  | 0, s => s
  | _+1, [] => []
  | n+1, c :: s =>
    if c = '\'' then '?' :: stripLiterals n (skipLiteral s)
    else if isDecimal c then '?' :: stripLiterals n (s.dropWhile isNumeral)
    else c :: stripLiterals n s

def fields (s : GoString) : List GoString := (s.splitOnP ControlPlane.isSpace).filter (· ≠ [])

/-- The first 16 digits of the hash of a text with its white space reduced to single blanks. -/
def key (s : GoString) : GoString :=
  (encodeToString (Sha1.sum (utf8 (String.ofList ([' '].intercalate (fields s)))))).take 16

def fingerprint (query : GoString) : GoString := key (stripLiterals query.length query)

end Observer

section Words

def White (s : JsString) : Prop := ∀ x ∈ s, isSpace x = true

theorem White.append {a b : JsString} (ha : White a) (hb : White b) : White (a ++ b) := by
  intro x hx
  rcases List.mem_append.mp hx with hx | hx
  · exact ha x hx
  · exact hb x hx

def hexCode (n : ℕ) : Bool := digitCode n || (0x61 ≤ n && n ≤ 0x66)

/-- A word of 16 hexadecimal digits that is no decimal number, in units. -/
structure HexUnits (h : JsString) : Prop where
  length : h.length = 16
  hex : ∀ x ∈ h, hexCode x.toNat = true
  letter : ∃ x ∈ h, isDigit x = false

theorem hexCode_bounds {n : ℕ} (h : hexCode n = true) : (0x30 ≤ n ∧ n ≤ 0x39) ∨ (0x61 ≤ n ∧ n ≤ 0x66) := by
  simpa [hexCode,digitCode] using h

theorem white_bounds {n : ℕ} (h : white n = true) :
    n ≤ 0x20 ∨ n = 0xa0 ∨ n = 0x1680 ∨ (0x2000 ≤ n ∧ n ≤ 0x205f) ∨ n = 0x3000 ∨ n = 0xfeff := by
  simp only [white,Bool.or_eq_true,Bool.and_eq_true,decide_eq_true_eq,beq_iff_eq] at h
  omega

theorem white_false_of_hex {n : ℕ} (h : hexCode n = true) : white n = false := by
  rw [Bool.eq_false_iff]
  intro hw
  have := hexCode_bounds h
  have := white_bounds hw
  omega

theorem word_of_hex {n : ℕ} (h : hexCode n = true) : wordCode n = true := by
  have := hexCode_bounds h
  simp only [wordCode,digitCode,Bool.or_eq_true,Bool.and_eq_true,decide_eq_true_eq,beq_iff_eq]
  omega

theorem digit_false_of_white {n : ℕ} (h : white n = true) : digitCode n = false := by
  rw [Bool.eq_false_iff]
  intro hd
  simp only [digitCode,Bool.and_eq_true,decide_eq_true_eq] at hd
  have := white_bounds h
  omega

theorem hexCode_unitOf : ∀ c ∈ ['?',';','\'','"',' '], hexCode (unitOf c).toNat = false := by
  simp only [List.forall_mem_cons,List.not_mem_nil,false_imp_iff,implies_true]
  decide

theorem isSpace_unitOf : ∀ c ∈ ['?',';','\'','"'], isSpace (unitOf c) = false := by
  simp only [List.forall_mem_cons,List.not_mem_nil,false_imp_iff,implies_true]
  decide

theorem not_mem_of_hex {h : JsString} (hh : ∀ x ∈ h, hexCode x.toNat = true) {c : Char} (hc : c ∈ ['?',';','\'','"',' ']) :
    unitOf c ∉ h := by
  intro hmem
  have h1 := hh _ hmem
  rw [hexCode_unitOf c hc] at h1
  cases h1

theorem not_mem_of_white {s : JsString} (hs : White s) {c : Char} (hc : c ∈ ['?',';','\'','"']) : unitOf c ∉ s := by
  intro hmem
  have h1 := hs _ hmem
  rw [isSpace_unitOf c hc] at h1
  cases h1

/-- A word between white units has none of the characters that are replaced or cut off. -/
theorem not_mem_padded {a h b : JsString} (ha : White a) (hh : ∀ x ∈ h, hexCode x.toNat = true) (hb : White b) {c : Char}
    (hc : c ∈ ['?',';','\'','"']) : unitOf c ∉ a ++ (h ++ b) := by
  rw [List.mem_append,List.mem_append,not_or,not_or]
  have hc' : c ∈ ['?',';','\'','"',' '] := by
    rw [show ['?',';','\'','"',' '] = ['?',';','\'','"'] ++ [' '] from rfl]
    exact List.mem_append_left _ hc
  exact ⟨not_mem_of_white ha hc,not_mem_of_hex hh hc',not_mem_of_white hb hc⟩

theorem takeWhile_white (s : JsString) : White (s.takeWhile isSpace) := fun _ hx => List.mem_takeWhile_imp hx

theorem trim_split (s : JsString) : ∃ a b, White a ∧ White b ∧ s = a ++ (trim s ++ b) := by
  refine ⟨s.takeWhile isSpace,((s.dropWhile isSpace).reverse.takeWhile isSpace).reverse,takeWhile_white s,?_,?_⟩
  · intro x hx
    exact takeWhile_white _ x (List.mem_reverse.mp hx)
  · rw [trim,← List.reverse_append,List.takeWhile_append_dropWhile,List.reverse_reverse,
      List.takeWhile_append_dropWhile]

theorem trim_padded {a w b : JsString} (ha : White a) (hb : White b) {x y : UInt16} (hfirst : w.head? = some x)
    (hx : isSpace x = false) (hlast : w.getLast? = some y) (hy : isSpace y = false) : trim (a ++ (w ++ b)) = w := by
  obtain ⟨v,rfl⟩ : ∃ v, w = x :: v := List.head?_eq_some_iff.mp hfirst
  have hfront : (a ++ ((x :: v) ++ b)).dropWhile isSpace = (x :: v) ++ b := by
    rw [List.dropWhile_append_of_pos ha,List.cons_append,List.dropWhile_cons_of_neg (by rw [hx]; decide)]
  obtain ⟨u,hu⟩ : ∃ u, (x :: v).reverse = y :: u := by
    apply List.head?_eq_some_iff.mp
    rw [List.head?_reverse,hlast]
  have hback : ((x :: v) ++ b).reverse.dropWhile isSpace = (x :: v).reverse := by
    rw [List.reverse_append,List.dropWhile_append_of_pos fun z hz => hb z (List.mem_reverse.mp hz),hu,
      List.dropWhile_cons_of_neg (by rw [hy]; decide)]
  rw [trim,hfront,hback,List.reverse_reverse]

theorem dropSemicolon_cases (s : JsString) :
    dropSemicolon s = s ∨ ∃ b, White b ∧ s = dropSemicolon s ++ semicolon :: b := by
  induction s with
  | nil => exact .inl rfl
  | cons x s ih =>
    unfold dropSemicolon
    split_ifs with h
    · exact .inr ⟨s,fun y hy => List.all_eq_true.mp h.2 y hy,by rw [h.1]; rfl⟩
    · rcases ih with ih | ⟨b,hb,hs⟩
      · exact .inl (by rw [ih])
      · exact .inr ⟨b,hb,by rw [List.cons_append,← hs]⟩

theorem dropSemicolon_plain {s : JsString} (h : semicolon ∉ s) : dropSemicolon s = s := by
  rcases dropSemicolon_cases s with hs | ⟨b,-,hs⟩
  · exact hs
  · exact absurd (by rw [hs]; simp) h

theorem dropSemicolon_append {s b : JsString} (h : semicolon ∉ s) (hb : White b) :
    dropSemicolon (s ++ semicolon :: b) = s := by
  induction s with
  | nil =>
    rw [List.nil_append,dropSemicolon,if_pos ⟨rfl,List.all_eq_true.mpr hb⟩]
  | cons x s ih =>
    rw [List.mem_cons,not_or] at h
    rw [List.cons_append,dropSemicolon,if_neg fun hx => h.1 hx.1.symm,ih h.2]

section Quoted

variable {quote : UInt16} {close : JsString → Option JsString}

theorem replaceQuoted_unmarked (n : ℕ) {s : JsString} (h : mark ∉ replaceQuoted quote close n s) :
    replaceQuoted quote close n s = s := by
  induction n generalizing s with
  | zero => rfl
  | succ n ih =>
    cases s with
    | nil => rfl
    | cons x s =>
      unfold replaceQuoted at h ⊢
      split_ifs at h ⊢
      · cases hc : close s with
        | none =>
          rw [hc] at h
          rw [ih fun hm => h (List.mem_cons_of_mem _ hm)]
        | some rest =>
          rw [hc] at h
          exact absurd List.mem_cons_self h
      · rw [ih fun hm => h (List.mem_cons_of_mem _ hm)]

theorem replaceQuoted_plain (n : ℕ) {s : JsString} (h : quote ∉ s) : replaceQuoted quote close n s = s := by
  induction n generalizing s with
  | zero => rfl
  | succ n ih =>
    cases s with
    | nil => rfl
    | cons x s =>
      rw [List.mem_cons,not_or] at h
      rw [replaceQuoted,if_neg (Ne.symm h.1),ih h.2]

end Quoted

theorem replaceNumbers_unmarked (n : ℕ) (inWord : Bool) {s : JsString} (h : mark ∉ replaceNumbers n inWord s) :
    replaceNumbers n inWord s = s := by
  induction n generalizing s inWord with
  | zero => rfl
  | succ n ih =>
    cases s with
    | nil => rfl
    | cons x s =>
      unfold replaceNumbers at h ⊢
      split_ifs at h ⊢
      · exact absurd List.mem_cons_self h
      · rw [ih _ fun hm => h (List.mem_cons_of_mem _ hm)]

theorem replaceNumbers_plain (n : ℕ) (inWord : Bool) {s : JsString} (h : ∀ x ∈ s, isDigit x = false) :
    replaceNumbers n inWord s = s := by
  induction n generalizing s inWord with
  | zero => rfl
  | succ n ih =>
    cases s with
    | nil => rfl
    | cons x s =>
      rw [replaceNumbers,h x List.mem_cons_self,Bool.and_false,Bool.false_and,if_neg (by decide),
        ih _ fun y hy => h y (List.mem_cons_of_mem _ hy)]

theorem replaceNumbers_inWord (n : ℕ) {w b : JsString} (hw : ∀ x ∈ w, isWord x = true) (hb : ∀ x ∈ b, isDigit x = false) :
    replaceNumbers n true (w ++ b) = w ++ b := by
  induction w generalizing n with
  | nil => exact replaceNumbers_plain n true hb
  | cons x w ih =>
    cases n with
    | zero => rfl
    | succ n =>
      rw [List.cons_append,replaceNumbers,Bool.not_true,Bool.false_and,Bool.false_and,if_neg (by decide),
        hw x List.mem_cons_self,ih n fun y hy => hw y (List.mem_cons_of_mem _ hy)]

theorem replaceNumbers_word (n : ℕ) {w b : JsString} (hw : ∀ x ∈ w, isWord x = true) (hletter : ∃ x ∈ w, isDigit x = false)
    (hb : ∀ x ∈ b, isDigit x = false) : replaceNumbers n false (w ++ b) = w ++ b := by
  cases n with
  | zero => rfl
  | succ n =>
    cases w with
    | nil => simp at hletter
    | cons x w =>
      have hrest := replaceNumbers_inWord n (fun y hy => hw y (List.mem_cons_of_mem _ hy)) hb
      have hstart : (!false && isDigit x && !startsWord ((w ++ b).dropWhile isDigit)) = false := by
        cases hx : isDigit x with
        | false => rfl
        | true =>
          obtain ⟨z,hz,hdz⟩ := hletter
          have hzw : z ∈ w := by
            rcases List.mem_cons.mp hz with rfl | hz
            · rw [hx] at hdz
              cases hdz
            · exact hz
          have hne : w.dropWhile isDigit ≠ [] := by
            intro hnil
            have := List.dropWhile_eq_nil_iff.mp hnil z hzw
            rw [hdz] at this
            cases this
          obtain ⟨y,t,hyt⟩ := List.exists_cons_of_ne_nil hne
          have hy : isWord y = true := by
            apply hw y
            apply List.mem_cons_of_mem
            exact (List.dropWhile_sublist isDigit).subset (by rw [hyt]; exact List.mem_cons_self)
          have hdrop : (w ++ b).dropWhile isDigit = y :: t ++ b := by
            rw [List.dropWhile_append,hyt]
            rfl
          rw [hdrop,startsWord,List.cons_append,List.head?_cons,Option.map_some,hy]
          rfl
      rw [List.cons_append,replaceNumbers,hstart,if_neg (by decide),hw x List.mem_cons_self,hrest]

theorem isWord_false_of_white {x : UInt16} (hx : isSpace x = true) : isWord x = false := by
  have hbounds := white_bounds (show white x.toNat = true from hx)
  unfold isWord
  rw [Bool.eq_false_iff]
  intro hw
  simp only [wordCode,digitCode,Bool.or_eq_true,Bool.and_eq_true,decide_eq_true_eq,beq_iff_eq] at hw
  omega

theorem mark_mem_of_decimal {a h b : JsString} (ha : White a) (hh : ∀ x ∈ h, isDigit x = true) (hne : h ≠ []) (hb : White b)
    {n : ℕ} (hn : (a ++ (h ++ b)).length ≤ n) : mark ∈ replaceNumbers n false (a ++ (h ++ b)) := by
  induction a generalizing n with
  | nil =>
    obtain ⟨x,t,rfl⟩ := List.exists_cons_of_ne_nil hne
    cases n with
    | zero => simp at hn
    | succ n =>
      have hdrop : (t ++ b).dropWhile isDigit = b := by
        rw [List.dropWhile_append_of_pos fun y hy => hh y (List.mem_cons_of_mem _ hy)]
        cases b with
        | nil => rfl
        | cons y b =>
          have hy : isDigit y = false := digit_false_of_white (hb y List.mem_cons_self)
          rw [List.dropWhile_cons_of_neg (by rw [hy]; decide)]
      have hword : startsWord b = false := by
        cases b with
        | nil => rfl
        | cons y b =>
          exact isWord_false_of_white (hb y List.mem_cons_self)
      rw [List.nil_append,List.cons_append,replaceNumbers,hdrop,hword,hh x List.mem_cons_self]
      exact List.mem_cons_self
  | cons x a ih =>
    cases n with
    | zero => simp at hn
    | succ n =>
      have hx : isSpace x = true := ha x List.mem_cons_self
      have hdigit : isDigit x = false := digit_false_of_white hx
      have hword : isWord x = false := isWord_false_of_white hx
      have hlen : (a ++ (h ++ b)).length ≤ n := by
        simp only [List.cons_append,List.length_cons] at hn
        omega
      rw [List.cons_append,replaceNumbers,hdigit,Bool.and_false,Bool.false_and,if_neg (by decide),hword]
      exact List.mem_cons_of_mem _ (ih (fun y hy => ha y (List.mem_cons_of_mem _ hy)) hlen)

end Words

section Collapse

theorem white_of_collapse {inSpace : Bool} {t : JsString} (h : White (collapse inSpace t)) : White t := by
  induction t generalizing inSpace with
  | nil => exact h
  | cons y t ih =>
    unfold collapse at h
    intro x hx
    split_ifs at h with hy hin
    · rcases List.mem_cons.mp hx with rfl | hx
      · exact hy
      · exact ih h x hx
    · rcases List.mem_cons.mp hx with rfl | hx
      · exact hy
      · exact ih (fun z hz => h z (List.mem_cons_of_mem _ hz)) x hx
    · exact absurd (h y List.mem_cons_self) hy

theorem collapse_white (inSpace : Bool) {t : JsString} (h : White t) : White (collapse inSpace t) := by
  induction t generalizing inSpace with
  | nil => exact h
  | cons y t ih =>
    have ht : White t := fun x hx => h x (List.mem_cons_of_mem _ hx)
    rw [collapse,if_pos (h y List.mem_cons_self)]
    split_ifs
    · exact ih _ ht
    · intro x hx
      rcases List.mem_cons.mp hx with rfl | hx
      · decide
      · exact ih _ ht x hx

theorem collapse_word {w b : JsString} (hw : ∀ x ∈ w, isSpace x = false) :
    collapse false (w ++ b) = w ++ collapse false b := by
  induction w with
  | nil => rfl
  | cons x w ih =>
    rw [List.cons_append,collapse,if_neg (by rw [hw x List.mem_cons_self]; decide),
      ih fun y hy => hw y (List.mem_cons_of_mem _ hy),List.cons_append]

theorem word_of_collapse {w b t : JsString} (hw : ∀ x ∈ w, isSpace x = false) (hb : White b)
    (h : collapse false t = w ++ b) : ∃ b', White b' ∧ t = w ++ b' := by
  induction w generalizing t with
  | nil => exact ⟨t,white_of_collapse (by rw [h]; exact hb),rfl⟩
  | cons x w ih =>
    cases t with
    | nil => cases h
    | cons y t =>
      have hx := hw x List.mem_cons_self
      by_cases hy : isSpace y = true
      · rw [collapse,if_pos hy,if_neg (by decide)] at h
        obtain ⟨rfl,-⟩ := List.cons.inj h
        exact absurd hx (by decide)
      · rw [collapse,if_neg hy] at h
        obtain ⟨rfl,htail⟩ := List.cons.inj h
        obtain ⟨b',hb',rfl⟩ := ih (fun z hz => hw z (List.mem_cons_of_mem _ hz)) htail
        exact ⟨b',hb',rfl⟩

/-- A word that is left between blanks stood between white units. -/
theorem padded_of_collapse {inSpace : Bool} {a w b t : JsString} (ha : White a) (hw : ∀ x ∈ w, isSpace x = false)
    (hne : w ≠ []) (hb : White b) (h : collapse inSpace t = a ++ (w ++ b)) :
    ∃ a' b', White a' ∧ White b' ∧ t = a' ++ (w ++ b') := by
  induction t generalizing inSpace a with
  | nil =>
    have hnil : w = [] := (List.append_eq_nil_iff.mp (List.append_eq_nil_iff.mp h.symm).2).1
    exact absurd hnil hne
  | cons y t ih =>
    unfold collapse at h
    split_ifs at h with hy hin
    · obtain ⟨a',b',ha',hb',rfl⟩ := ih ha h
      refine ⟨y :: a',b',?_,hb',rfl⟩
      exact fun x hx => (List.mem_cons.mp hx).elim (fun e => e ▸ hy) (ha' x)
    · cases a with
      | nil =>
        obtain ⟨x,w,rfl⟩ := List.exists_cons_of_ne_nil hne
        obtain ⟨rfl,-⟩ := List.cons.inj h
        exact absurd (hw _ List.mem_cons_self) (by decide)
      | cons z a =>
        obtain ⟨rfl,htail⟩ := List.cons.inj h
        obtain ⟨a',b',ha',hb',rfl⟩ := ih (fun x hx => ha x (List.mem_cons_of_mem _ hx)) htail
        refine ⟨y :: a',b',?_,hb',rfl⟩
        exact fun x hx => (List.mem_cons.mp hx).elim (fun e => e ▸ hy) (ha' x)
    · cases a with
      | cons z a =>
        obtain ⟨rfl,-⟩ := List.cons.inj h
        exact absurd (ha _ List.mem_cons_self) hy
      | nil =>
        obtain ⟨x,w,rfl⟩ := List.exists_cons_of_ne_nil hne
        obtain ⟨rfl,htail⟩ := List.cons.inj h
        obtain ⟨b',hb',rfl⟩ := word_of_collapse (fun z hz => hw z (List.mem_cons_of_mem _ hz)) hb htail
        exact ⟨[],b',by simp [White],hb',rfl⟩

end Collapse

section SdkKey

def Ending (r : JsString) : Prop := White r ∨ ∃ b b', White b ∧ White b' ∧ r = b ++ semicolon :: b'

variable {h : JsString}

theorem HexUnits.not_space (hh : HexUnits h) : ∀ x ∈ h, isSpace x = false := fun x hx => white_false_of_hex (hh.hex x hx)

theorem HexUnits.ne_nil (hh : HexUnits h) : h ≠ [] := by
  rintro rfl
  have := hh.length
  simp at this

theorem HexUnits.trim_padded (hh : HexUnits h) {a b : JsString} (ha : White a) (hb : White b) : trim (a ++ (h ++ b)) = h := by
  have hfirst := List.head?_eq_some_head hh.ne_nil
  have hlast := List.getLast?_eq_some_getLast hh.ne_nil
  exact Fingerprints.trim_padded ha hb hfirst (hh.not_space _ (List.head_mem _)) hlast (hh.not_space _ (List.getLast_mem _))

theorem HexUnits.dropSemicolon_trim (hh : HexUnits h) {a r : JsString} (ha : White a) (hr : Ending r) :
    ∃ b, White b ∧ dropSemicolon (trim (a ++ (h ++ r))) = h ++ b := by
  have hsemi : ∀ b, White b → semicolon ∉ h ++ b := fun b hb => not_mem_padded (a := []) (by simp [White]) hh.hex hb (by simp)
  rcases hr with hr | ⟨b,b',hb,hb',rfl⟩
  · refine ⟨[],by simp [White],?_⟩
    rw [hh.trim_padded ha hr,List.append_nil,dropSemicolon_plain]
    simpa using hsemi [] (by simp [White])
  · have hfirst := List.head?_eq_some_head hh.ne_nil
    have htrim : trim (a ++ ((h ++ b ++ [semicolon]) ++ b')) = h ++ b ++ [semicolon] := by
      refine Fingerprints.trim_padded ha hb' (x := h.head hh.ne_nil) (y := semicolon) ?_ (hh.not_space _ (List.head_mem _)) ?_
        (isSpace_unitOf ';' (by simp))
      · rw [List.append_assoc,List.head?_append_of_ne_nil _ hh.ne_nil,hfirst]
      · rw [List.getLast?_append]
        rfl
    have hshape : a ++ (h ++ (b ++ semicolon :: b')) = a ++ ((h ++ b ++ [semicolon]) ++ b') := by simp
    refine ⟨b,hb,?_⟩
    rw [hshape,htrim,dropSemicolon_append (hsemi b hb) (by simp [White])]

/-- The literals of a text that is a word with a letter. -/
theorem HexUnits.replaceLiterals_eq (hh : HexUnits h) {b : JsString} (hb : White b) : replaceLiterals (h ++ b) = h ++ b := by
  have hnot : ∀ c ∈ ['?',';','\'','"'], unitOf c ∉ h ++ b := fun c hc => not_mem_padded (a := []) (by simp [White]) hh.hex hb hc
  unfold replaceLiterals
  dsimp only
  rw [replaceQuoted_plain _ (hnot '\'' (by simp)),replaceQuoted_plain _ (hnot '"' (by simp)),
    replaceNumbers_word _ (fun x hx => word_of_hex (hh.hex x hx)) hh.letter fun x hx => digit_false_of_white (hb x hx)]

theorem replaceLiterals_unmarked {t : JsString} (ht : mark ∉ replaceLiterals t) :
    replaceLiterals t = t ∧ replaceNumbers t.length false t = t := by
  unfold replaceLiterals at ht ⊢
  dsimp only at ht ⊢
  have h3 := replaceNumbers_unmarked _ _ ht
  have h2 := replaceQuoted_unmarked _ (by rwa [h3] at ht)
  have h1 := replaceQuoted_unmarked _ (by rwa [h3,h2] at ht)
  rw [h1] at h2
  rw [h1,h2] at h3
  rw [h1,h2,h3]
  exact ⟨rfl,rfl⟩

/-- A text whose key is a word of 16 digits is this word, with white units around it and at most one
semicolon behind it, and the word is no decimal number. -/
theorem padded_of_sqlFingerprint {u : JsString} (hlen : h.length = 16) (hhex : ∀ x ∈ h, hexCode x.toNat = true)
    (heq : sqlFingerprint u = h) : HexUnits h ∧ ∃ a r, White a ∧ Ending r ∧ u = a ++ (h ++ r) := by
  have hne : h ≠ [] := by
    rintro rfl
    cases hlen
  have hspace : ∀ x ∈ h, isSpace x = false := fun x hx => white_false_of_hex (hhex x hx)
  unfold sqlFingerprint at heq
  dsimp only at heq
  split_ifs at heq with hnil hlong
  · exact absurd heq.symm hne
  · have hcut := congrArg List.length heq
    rw [List.length_take,hlen] at hcut
    omega
  obtain ⟨a₂,b₂,ha₂,hb₂,hc⟩ := trim_split (collapse false (replaceLiterals (dropSemicolon (trim u))))
  rw [heq] at hc
  obtain ⟨a₁,b₁,ha₁,hb₁,hlit⟩ := padded_of_collapse ha₂ hspace hne hb₂ hc
  have hmark : mark ∉ replaceLiterals (dropSemicolon (trim u)) := by
    rw [hlit]
    exact not_mem_padded ha₁ hhex hb₁ (by simp)
  obtain ⟨hsame,hnumbers⟩ := replaceLiterals_unmarked hmark
  rw [hlit] at hsame
  have hword : HexUnits h := by
    refine ⟨hlen,hhex,?_⟩
    by_contra hdec
    have hdigits : ∀ x ∈ h, isDigit x = true := by
      intro x hx
      by_contra hx'
      exact hdec ⟨x,hx,by simpa using hx'⟩
    have hm := mark_mem_of_decimal ha₁ hdigits hne hb₁ le_rfl
    rw [hsame,hnumbers,← hsame] at hm
    exact not_mem_padded ha₁ hhex hb₁ (by simp) hm
  obtain ⟨a₀,b₀,ha₀,hb₀,hu⟩ := trim_split u
  refine ⟨hword,a₀ ++ a₁,?_⟩
  rcases dropSemicolon_cases (trim u) with hdrop | ⟨b,hb,hdrop⟩
  · refine ⟨b₁ ++ b₀,ha₀.append ha₁,.inl (hb₁.append hb₀),?_⟩
    rw [hu,← hdrop,← hsame]
    simp
  · refine ⟨b₁ ++ semicolon :: (b ++ b₀),ha₀.append ha₁,.inr ⟨b₁,b ++ b₀,hb₁,hb.append hb₀,rfl⟩,?_⟩
    rw [hu,hdrop,← hsame]
    simp

theorem HexUnits.sqlFingerprint_padded (hh : HexUnits h) {a r : JsString} (ha : White a) (hr : Ending r) :
    sqlFingerprint (a ++ (h ++ r)) = h := by
  obtain ⟨b,hb,hdrop⟩ := hh.dropSemicolon_trim ha hr
  have hnil : a ++ (h ++ r) ≠ [] := by
    rw [Ne,List.append_eq_nil_iff,List.append_eq_nil_iff]
    rintro ⟨-,rfl,-⟩
    exact hh.ne_nil rfl
  have hlen := hh.length
  unfold sqlFingerprint
  dsimp only
  rw [if_neg hnil,hdrop,hh.replaceLiterals_eq hb,collapse_word hh.not_space]
  have htrim := hh.trim_padded (a := []) (by simp [White]) (collapse_white false hb)
  rw [List.nil_append] at htrim
  rw [htrim,if_neg (by omega)]

/-- The SDK's key is a given word of 16 digits exactly when the text is this word, with white units around
it and at most one semicolon behind it, and it is no decimal number. -/
theorem sqlFingerprint_eq_iff {u : JsString} (hlen : h.length = 16) (hhex : ∀ x ∈ h, hexCode x.toNat = true) :
    sqlFingerprint u = h ↔ HexUnits h ∧ ∃ a r, White a ∧ Ending r ∧ u = a ++ (h ++ r) := by
  constructor
  · exact padded_of_sqlFingerprint hlen hhex
  · rintro ⟨hh,a,r,ha,hr,rfl⟩
    exact hh.sqlFingerprint_padded ha hr

end SdkKey

section ObserverKey

def Blank (s : GoString) : Prop := ∀ c ∈ s, white c.toNat = true

def Closing (r : GoString) : Prop := Blank r ∨ ∃ b b', Blank b ∧ Blank b' ∧ r = b ++ ';' :: b'

/-- A word of 16 hexadecimal digits that is no decimal number. -/
structure HexWord (w : GoString) : Prop where
  length : w.length = 16
  hex : ∀ c ∈ w, hexCode c.toNat = true
  letter : ∃ c ∈ w, isDecimal c = false

/-- The word with a question mark for each run of decimal digits. -/
def marks : Bool → GoString → GoString
  | _, [] => []
  | inNumber, c :: s =>
    if isDecimal c then if inNumber then marks true s else '?' :: marks true s else c :: marks false s

theorem hex_facts {c : Char} (h : hexCode c.toNat = true) : c.toNat < 0x80 ∧ c ≠ '\'' ∧ c ≠ '.' := by
  have hb := hexCode_bounds h
  refine ⟨by omega,?_,?_⟩
  · rintro rfl
    revert hb
    decide
  · rintro rfl
    revert hb
    decide

theorem marks_true (w : GoString) : marks true w = marks false (w.dropWhile isDecimal) := by
  induction w with
  | nil => rfl
  | cons c w ih =>
    by_cases hc : isDecimal c = true
    · rw [List.dropWhile_cons_of_pos hc,marks,if_pos hc,if_pos rfl,ih]
    · rw [List.dropWhile_cons_of_neg hc,marks,marks,if_neg hc,if_neg hc]

def Inert (s : GoString) : Prop := ∀ c ∈ s, c ≠ '\'' ∧ isNumeral c = false

theorem Inert.digit {s : GoString} (h : Inert s) {c : Char} (hc : c ∈ s) : isDecimal c = false := by
  have := (h c hc).2
  unfold isNumeral at this
  exact (Bool.or_eq_false_iff.mp this).2

theorem inert_of_blank {s : GoString} (h : Blank s) : Inert s := by
  intro c hc
  have hb := white_bounds (h c hc)
  refine ⟨?_,?_⟩
  · rintro rfl
    revert hb
    decide
  · unfold isNumeral isDecimal
    rw [digit_false_of_white (h c hc),Bool.or_false,decide_eq_false_iff_not]
    rintro rfl
    revert hb
    decide

theorem inert_of_closing {r : GoString} (h : Closing r) : Inert r := by
  rcases h with h | ⟨b,b',hb,hb',rfl⟩
  · exact inert_of_blank h
  · intro c hc
    rcases List.mem_append.mp hc with hc | hc
    · exact inert_of_blank hb c hc
    · rcases List.mem_cons.mp hc with rfl | hc
      · decide
      · exact inert_of_blank hb' c hc

theorem stripLiterals_append {l : GoString} (hl : Inert l) (n : ℕ) (t : GoString) :
    stripLiterals (l.length+n) (l ++ t) = l ++ stripLiterals n t := by
  induction l with
  | nil => rw [List.length_nil,Nat.zero_add]; rfl
  | cons c l ih =>
    rw [List.length_cons,Nat.add_right_comm,List.cons_append,stripLiterals,if_neg (hl c List.mem_cons_self).1,
      hl.digit List.mem_cons_self,if_neg (by decide),ih fun d hd => hl d (List.mem_cons_of_mem _ hd),List.cons_append]

theorem stripLiterals_inert {s : GoString} (hs : Inert s) {n : ℕ} (hn : s.length ≤ n) : stripLiterals n s = s := by
  have h := stripLiterals_append hs (n-s.length) []
  rw [List.append_nil,Nat.add_sub_cancel' hn] at h
  rw [h]
  cases n-s.length <;> simp [stripLiterals]

theorem dropWhile_numeral {w r : GoString} (hw : ∀ c ∈ w, hexCode c.toNat = true) (hr : Inert r) :
    (w ++ r).dropWhile isNumeral = w.dropWhile isDecimal ++ r := by
  induction w with
  | nil =>
    cases r with
    | nil => rfl
    | cons c r =>
      rw [List.nil_append,List.dropWhile_cons_of_neg (by rw [(hr c List.mem_cons_self).2]; decide)]
      rfl
  | cons c w ih =>
    have hdot := (hex_facts (hw c List.mem_cons_self)).2.2
    have hsame : isNumeral c = isDecimal c := by simp [isNumeral,hdot]
    by_cases hc : isDecimal c = true
    · rw [List.cons_append,List.dropWhile_cons_of_pos (by rw [hsame]; exact hc),List.dropWhile_cons_of_pos hc,
        ih fun d hd => hw d (List.mem_cons_of_mem _ hd)]
    · rw [List.cons_append,List.dropWhile_cons_of_neg (by rw [hsame]; exact hc),List.dropWhile_cons_of_neg hc,List.cons_append]

theorem stripLiterals_word {w r : GoString} (hw : ∀ c ∈ w, hexCode c.toNat = true) (hr : Inert r) {n : ℕ}
    (hn : (w ++ r).length ≤ n) : stripLiterals n (w ++ r) = marks false w ++ r := by
  induction n generalizing w with
  | zero =>
    obtain ⟨rfl,rfl⟩ := List.append_eq_nil_iff.mp (List.length_eq_zero_iff.mp (Nat.le_zero.mp hn))
    rfl
  | succ n ih =>
    cases w with
    | nil => exact stripLiterals_inert hr hn
    | cons c w =>
      have hfacts := hex_facts (hw c List.mem_cons_self)
      have hw' : ∀ d ∈ w, hexCode d.toNat = true := fun d hd => hw d (List.mem_cons_of_mem _ hd)
      have hlen : (w ++ r).length ≤ n := by
        simp only [List.cons_append,List.length_cons] at hn
        omega
      by_cases hc : isDecimal c = true
      · have hdrop : ∀ d ∈ w.dropWhile isDecimal, hexCode d.toNat = true :=
          fun d hd => hw' d ((List.dropWhile_sublist _).subset hd)
        have hshort : (w.dropWhile isDecimal ++ r).length ≤ n := by
          have := List.length_dropWhile_le isDecimal w
          simp only [List.length_append] at hlen ⊢
          omega
        rw [List.cons_append,stripLiterals,if_neg hfacts.2.1,if_pos hc,dropWhile_numeral hw' hr,ih hdrop hshort,marks,
          if_pos hc,if_neg (by decide),marks_true,List.cons_append]
      · rw [List.cons_append,stripLiterals,if_neg hfacts.2.1,if_neg hc,ih hw' hlen,marks,if_neg hc,List.cons_append]

theorem key_hex (s : GoString) : (key s).length = 16 ∧ ∀ c ∈ key s, hexCode c.toNat = true := by
  refine ⟨?_,fun c hc => ?_⟩
  · rw [key,List.length_take,encodeToString_length,Sha1.sum_length]
    rfl
  · exact of_mem_encodeToString (P := fun c => hexCode c.toNat = true) (by decide) (List.mem_of_mem_take hc)

theorem ascii_of_hex {w : GoString} (hw : ∀ c ∈ w, hexCode c.toNat = true) : Ascii w := fun c hc => (hex_facts (hw c hc)).1

theorem hex_utf16 {w : GoString} (hw : ∀ c ∈ w, hexCode c.toNat = true) : ∀ x ∈ utf16 w, hexCode x.toNat = true := by
  intro x hx
  rw [utf16_ascii (ascii_of_hex hw)] at hx
  obtain ⟨c,hc,rfl⟩ := List.mem_map.mp hx
  rw [unitOf_toNat (ascii_of_hex hw c hc)]
  exact hw c hc

theorem hexUnits_utf16 {w : GoString} (hlen : w.length = 16) (hw : ∀ c ∈ w, hexCode c.toNat = true) :
    HexUnits (utf16 w) ↔ HexWord w := by
  have hunits := utf16_ascii (ascii_of_hex hw)
  have hdigit : ∀ c ∈ w, isDigit (unitOf c) = isDecimal c := by
    intro c hc
    rw [isDigit,isDecimal,unitOf_toNat (ascii_of_hex hw c hc)]
  constructor
  · intro h
    obtain ⟨x,hx,hletter⟩ := h.letter
    rw [hunits] at hx
    obtain ⟨c,hc,rfl⟩ := List.mem_map.mp hx
    exact ⟨hlen,hw,c,hc,by rw [← hdigit c hc]; exact hletter⟩
  · intro h
    obtain ⟨c,hc,hletter⟩ := h.letter
    refine ⟨by rw [hunits,List.length_map,hlen],hex_utf16 hw,unitOf c,?_,by rw [hdigit c hc]; exact hletter⟩
    rw [hunits]
    exact List.mem_map_of_mem hc

theorem exists_blank {s : JsString} (hs : White s) : ∃ l, Blank l ∧ s = utf16 l := by
  induction s with
  | nil => exact ⟨[],by simp [Blank],rfl⟩
  | cons x s ih =>
    obtain ⟨l,hl,rfl⟩ := ih fun y hy => hs y (List.mem_cons_of_mem _ hy)
    have hx : white x.toNat = true := hs x List.mem_cons_self
    have hb := white_bounds hx
    have hnat : (Char.ofNat x.toNat).toNat = x.toNat := toNat_ofNat_of_valid (by unfold Nat.isValidChar; omega)
    refine ⟨Char.ofNat x.toNat :: l,?_,?_⟩
    · intro c hc
      rcases List.mem_cons.mp hc with rfl | hc
      · rw [hnat]
        exact hx
      · exact hl c hc
    · rw [utf16_cons,hnat,units,if_pos (by omega),List.map_singleton,UInt16.ofNat_toNat,List.singleton_append]

theorem white_utf16 {l : GoString} (hl : Blank l) : White (utf16 l) := by
  induction l with
  | nil => simp [White]
  | cons c l ih =>
    have hc : white c.toNat = true := hl c List.mem_cons_self
    have hb := white_bounds hc
    rw [utf16_cons,units,if_pos (by omega),List.map_singleton,List.singleton_append]
    intro x hx
    rcases List.mem_cons.mp hx with rfl | hx
    · rw [isSpace,UInt16.toNat_ofNat',Nat.mod_eq_of_lt (by omega)]
      exact hc
    · exact ih (fun d hd => hl d (List.mem_cons_of_mem _ hd)) x hx

theorem utf16_semicolon (b b' : GoString) : utf16 (b ++ ';' :: b') = utf16 b ++ semicolon :: utf16 b' := by
  rw [utf16_append,← List.singleton_append,utf16_append,utf16_singleton (by decide)]
  rfl

theorem exists_closing {s : JsString} (hs : Ending s) : ∃ r, Closing r ∧ s = utf16 r := by
  rcases hs with hs | ⟨b,b',hb,hb',rfl⟩
  · obtain ⟨r,hr,rfl⟩ := exists_blank hs
    exact ⟨r,.inl hr,rfl⟩
  · obtain ⟨t,ht,rfl⟩ := exists_blank hb
    obtain ⟨t',ht',rfl⟩ := exists_blank hb'
    exact ⟨t ++ ';' :: t',.inr ⟨t,t',ht,ht',rfl⟩,(utf16_semicolon t t').symm⟩

theorem ending_utf16 {r : GoString} (hr : Closing r) : Ending (utf16 r) := by
  rcases hr with hr | ⟨b,b',hb,hb',rfl⟩
  · exact .inl (white_utf16 hr)
  · exact .inr ⟨utf16 b,utf16 b',white_utf16 hb,white_utf16 hb',utf16_semicolon b b'⟩

theorem fingerprint_padded {l w r : GoString} (hl : Blank l) (hw : ∀ c ∈ w, hexCode c.toNat = true) (hr : Closing r) :
    fingerprint (l ++ (w ++ r)) = key (l ++ (marks false w ++ r)) := by
  rw [fingerprint,List.length_append,stripLiterals_append (inert_of_blank hl),
    stripLiterals_word hw (inert_of_closing hr) le_rfl]

/-- The two keys of a text are equal exactly when the text is one word of 16 hexadecimal digits, with blanks
around it and at most one semicolon behind it, that is the first 16 of the 40 digits of the hash of itself with
question marks for its numbers. -/
theorem fingerprints_agree_iff (s : GoString) :
    sqlFingerprint (utf16 s) = utf16 (fingerprint s) ↔
      ∃ l w r, s = l ++ (w ++ r) ∧ Blank l ∧ Closing r ∧ HexWord w ∧ key (l ++ (marks false w ++ r)) = w := by
  constructor
  · intro h
    have hkey : (fingerprint s).length = 16 ∧ ∀ c ∈ fingerprint s, hexCode c.toNat = true := key_hex _
    obtain ⟨hlen,hhex⟩ := hkey
    have hunits : (utf16 (fingerprint s)).length = 16 := by
      rw [utf16_ascii (ascii_of_hex hhex),List.length_map]
      exact hlen
    obtain ⟨hword,a,b,ha,hb,hs⟩ := (sqlFingerprint_eq_iff hunits (hex_utf16 hhex)).mp h
    obtain ⟨l,hl,rfl⟩ := exists_blank ha
    obtain ⟨r,hr,rfl⟩ := exists_closing hb
    rw [← utf16_append,← utf16_append] at hs
    have htext := utf16_injective hs
    refine ⟨l,fingerprint s,r,htext,hl,hr,(hexUnits_utf16 hlen hhex).mp hword,?_⟩
    rw [← fingerprint_padded hl hhex hr,← htext]
  · rintro ⟨l,w,r,rfl,hl,hr,hw,hkey⟩
    have hunits : (utf16 w).length = 16 := by
      rw [utf16_ascii (ascii_of_hex hw.hex),List.length_map,hw.length]
    rw [fingerprint_padded hl hw.hex hr,hkey,sqlFingerprint_eq_iff hunits (hex_utf16 hw.hex)]
    refine ⟨(hexUnits_utf16 hw.length hw.hex).mpr hw,utf16 l,utf16 r,white_utf16 hl,ending_utf16 hr,?_⟩
    rw [utf16_append,utf16_append]

/-- The keys of one statement. -/
theorem select_keys_differ :
    sqlFingerprint (utf16 "SELECT 1".toList) = utf16 "SELECT ?".toList ∧
    fingerprint "SELECT 1".toList = "d41673f80456e405".toList ∧
    sqlFingerprint (utf16 "SELECT 1".toList) ≠ utf16 (fingerprint "SELECT 1".toList) := by
  decide +kernel

end ObserverKey

end Fingerprints
end Clearvoiance
