import Mathlib.Data.List.Sort
import Mathlib.Tactic

/-! JSON documents over any type of strings and numbers: the grammar of RFC 8259 as a lexer and a
stack machine, member lists brought into order, and printing.  Two printers give the same text
exactly for documents that are alike member by member. -/
namespace Clearvoiance

inductive Json (σ ν : Type)
  | null
  | bool (b : Bool)
  | num (n : ν)
  | str (s : σ)
  | arr (vs : List (Json σ ν))
  | obj (ms : List (σ × Json σ ν))

namespace Json

/-- One element of a string literal: a code of the text itself, or the code an escape stands for. -/
inductive Item
  | raw (n : ℕ)
  | esc (n : ℕ)
  deriving DecidableEq

/-- A number literal, `coeff * 10^exp10` up to its sign. -/
structure Literal where
  neg : Bool
  coeff : ℕ
  exp10 : ℤ
  deriving DecidableEq

inductive Token
  | lbrace
  | rbrace
  | lbracket
  | rbracket
  | colon
  | comma
  | null
  | bool (b : Bool)
  | num (l : Literal)
  | str (items : List Item)
  deriving DecidableEq

def isSpace (n : ℕ) : Bool := n = 0x20 || n = 0x09 || n = 0x0A || n = 0x0D

def isDigit (n : ℕ) : Bool := decide (0x30 ≤ n) && decide (n ≤ 0x39)

def isLetter (n : ℕ) : Bool := decide (0x41 ≤ n) && decide (n ≤ 0x5A) || decide (0x61 ≤ n) && decide (n ≤ 0x7A)

/-- Codes of numbers and of the words `null`, `true` and `false`. -/
def isWordCode (n : ℕ) : Bool := isDigit n || isLetter n || n = 0x2B || n = 0x2D || n = 0x2E

def hexValue (n : ℕ) : Option ℕ :=
  if isDigit n then some (n-0x30)
  else if 0x61 ≤ n ∧ n ≤ 0x66 then some (n-0x57)
  else if 0x41 ≤ n ∧ n ≤ 0x46 then some (n-0x37)
  else none

/-- The code after a backslash, and what it stands for. -/
def simpleEscapes : List (ℕ × ℕ) :=
  [(0x22,0x22),(0x5C,0x5C),(0x2F,0x2F),(0x62,0x08),(0x66,0x0C),(0x6E,0x0A),(0x72,0x0D),(0x74,0x09)]

def simpleEscape (n : ℕ) : Option ℕ := (simpleEscapes.find? fun e => e.1 = n).map Prod.snd

def punctuation (n : ℕ) : Option Token :=
  if n = 0x7B then some .lbrace else if n = 0x7D then some .rbrace
  else if n = 0x5B then some .lbracket else if n = 0x5D then some .rbracket
  else if n = 0x3A then some .colon else if n = 0x2C then some .comma else none

def decimal (ds : List ℕ) : ℕ := ds.foldl (fun v d => 10*v+(d-0x30)) 0

def fraction : List ℕ → Option (List ℕ × List ℕ)
  | 0x2E :: w => if w.takeWhile isDigit = [] then none else some (w.takeWhile isDigit,w.dropWhile isDigit)
  | w => some ([],w)

def exponentDigits (neg : Bool) (w : List ℕ) : Option ℤ :=
  if w = [] || !w.all isDigit then none else some (if neg then -decimal w else decimal w)

def exponent : List ℕ → Option ℤ
  | [] => some 0
  | e :: w =>
    if e = 0x65 || e = 0x45 then
      match w with
      | 0x2B :: w => exponentDigits false w
      | 0x2D :: w => exponentDigits true w
      | w => exponentDigits false w
    else none

def number (w : List ℕ) : Option Literal := do
  let neg := w.head? = some 0x2D
  let w := if neg then w.drop 1 else w
  let int := w.takeWhile isDigit
  if int = [] || (int.head? = some 0x30 && int.length ≠ 1) then none
  let (frac,w) ← fraction (w.dropWhile isDigit)
  let exp ← exponent w
  return ⟨neg,decimal (int ++ frac),exp-frac.length⟩

def classify (w : List ℕ) : Option Token :=
  if w = [0x6E,0x75,0x6C,0x6C] then some .null
  else if w = [0x74,0x72,0x75,0x65] then some (.bool true)
  else if w = [0x66,0x61,0x6C,0x73,0x65] then some (.bool false)
  else (number w).map .num

/-- Where the lexer is; what it has read of a token is kept in reverse. -/
inductive LexState
  | idle
  | word (w : List ℕ)
  | str (items : List Item)
  | escape (items : List Item)
  | unicode (items : List Item) (count value : ℕ)
  deriving DecidableEq

def lexIdle (n : ℕ) : Option (LexState × List Token) :=
  if isSpace n then some (.idle,[])
  else if n = 0x22 then some (.str [],[])
  else if isWordCode n then some (.word [n],[])
  else (punctuation n).map fun t => (.idle,[t])

def lexStep : LexState → ℕ → Option (LexState × List Token)
  | .idle,n => lexIdle n
  | .word w,n =>
    if isWordCode n then some (.word (n :: w),[])
    else do
      let t ← classify w.reverse
      let (s,ts) ← lexIdle n
      return (s,t :: ts)
  | .str items,n =>
    if n = 0x22 then some (.idle,[.str items.reverse])
    else if n = 0x5C then some (.escape items,[])
    else if n < 0x20 then none
    else some (.str (.raw n :: items),[])
  | .escape items,n =>
    if n = 0x75 then some (.unicode items 0 0,[]) else (simpleEscape n).map fun c => (.str (.esc c :: items),[])
  | .unicode items count value,n => do
    let d ← hexValue n
    if count = 3 then return (.str (.esc (16*value+d) :: items),[]) else return (.unicode items (count+1) (16*value+d),[])

def lex : LexState → List ℕ → Option (List Token)
  | .idle,[] => some []
  | .word w,[] => (classify w.reverse).map fun t => [t]
  | _,[] => none
  | s,n :: ns => do
    let (s,ts) ← lexStep s n
    let rest ← lex s ns
    return ts ++ rest

inductive Expect
  | value
  | valueOrClose
  | key
  | keyOrClose
  | colon
  | separator
  deriving DecidableEq

/-- An array or object that is still open, with its last element first. -/
inductive Frame (σ ν : Type)
  | arr (vs : List (Json σ ν))
  | obj (ms : List (σ × Json σ ν))
  | member (ms : List (σ × Json σ ν)) (key : σ)

inductive ParseState (σ ν : Type)
  | want (e : Expect) (stack : List (Frame σ ν))
  | done (v : Json σ ν)

def complete {σ ν : Type} (v : Json σ ν) : List (Frame σ ν) → Option (ParseState σ ν)
  | [] => some (.done v)
  | .arr vs :: st => some (.want .separator (.arr (v :: vs) :: st))
  | .member ms k :: st => some (.want .separator (.obj ((k,v) :: ms) :: st))
  | .obj _ :: _ => none

abbrev Raw := Json (List Item) Literal

def startValue (st : List (Frame (List Item) Literal)) : Token → Option (ParseState (List Item) Literal)
  | .null => complete .null st
  | .bool b => complete (.bool b) st
  | .num l => complete (.num l) st
  | .str items => complete (.str items) st
  | .lbracket => some (.want .valueOrClose (.arr [] :: st))
  | .lbrace => some (.want .keyOrClose (.obj [] :: st))
  | _ => none

def parseStep : ParseState (List Item) Literal → Token → Option (ParseState (List Item) Literal)
  | .want .value st,t => startValue st t
  | .want .valueOrClose (.arr _ :: st),.rbracket => complete (.arr []) st
  | .want .valueOrClose st,t => startValue st t
  | .want .keyOrClose (.obj _ :: st),.rbrace => complete (.obj []) st
  | .want .keyOrClose (.obj ms :: st),.str k => some (.want .colon (.member ms k :: st))
  | .want .key (.obj ms :: st),.str k => some (.want .colon (.member ms k :: st))
  | .want .colon st,.colon => some (.want .value st)
  | .want .separator (.arr vs :: st),.comma => some (.want .value (.arr vs :: st))
  | .want .separator (.arr vs :: st),.rbracket => complete (.arr vs.reverse) st
  | .want .separator (.obj ms :: st),.comma => some (.want .key (.obj ms :: st))
  | .want .separator (.obj ms :: st),.rbrace => complete (.obj ms.reverse) st
  | _,_ => none

/-- A text of codes as a document, or `none` if it is not JSON. -/
def parse (text : List ℕ) : Option Raw := do
  let tokens ← lex .idle text
  match ← tokens.foldlM parseStep (.want .value []) with
  | .done v => some v
  | .want .. => none

variable {σ τ ν μ : Type}

mutual

def depth : Json σ ν → ℕ
  | .arr vs => depthList vs+1
  | .obj ms => depthMembers ms+1
  | _ => 0
termination_by structural v => v

def depthList : List (Json σ ν) → ℕ
  | [] => 0
  | v :: vs => max (depth v) (depthList vs)
termination_by structural vs => vs

def depthMembers : List (σ × Json σ ν) → ℕ
  | [] => 0
  | (_,v) :: ms => max (depth v) (depthMembers ms)
termination_by structural ms => ms

end

mutual

/-- The same document with other strings and numbers, unless a number has no counterpart. -/
def convert (f : σ → τ) (g : ν → Option (Json τ μ)) : Json σ ν → Option (Json τ μ)
  | .null => some .null
  | .bool b => some (.bool b)
  | .num n => g n
  | .str s => some (.str (f s))
  | .arr vs => (convertList f g vs).map .arr
  | .obj ms => (convertMembers f g ms).map .obj
termination_by structural v => v

def convertList (f : σ → τ) (g : ν → Option (Json τ μ)) : List (Json σ ν) → Option (List (Json τ μ))
  | [] => some []
  | v :: vs => do
    let w ← convert f g v
    let ws ← convertList f g vs
    return w :: ws
termination_by structural vs => vs

def convertMembers (f : σ → τ) (g : ν → Option (Json τ μ)) : List (σ × Json σ ν) → Option (List (τ × Json τ μ))
  | [] => some []
  | (k,v) :: ms => do
    let w ← convert f g v
    let ns ← convertMembers f g ms
    return (f k,w) :: ns
termination_by structural ms => ms

end

/-- Of the members with one key only the last is kept. -/
def lastWins [DecidableEq σ] (ms : List (σ × Json σ ν)) : List (σ × Json σ ν) :=
  ms.foldr (fun m out => if m.1 ∈ out.map Prod.fst then out else m :: out) []

def sortMembers (lt : σ → σ → Bool) (ms : List (σ × Json σ ν)) : List (σ × Json σ ν) :=
  ms.insertionSort fun a b => lt b.1 a.1 = false

mutual

/-- Every object without repeated keys and with its members in order. -/
def arrange [DecidableEq σ] (lt : σ → σ → Bool) : Json σ ν → Json σ ν
  | .arr vs => .arr (arrangeList lt vs)
  | .obj ms => .obj (sortMembers lt (lastWins (arrangeMembers lt ms)))
  | .null => .null
  | .bool b => .bool b
  | .num n => .num n
  | .str s => .str s
termination_by structural v => v

def arrangeList [DecidableEq σ] (lt : σ → σ → Bool) : List (Json σ ν) → List (Json σ ν)
  | [] => []
  | v :: vs => arrange lt v :: arrangeList lt vs
termination_by structural vs => vs

def arrangeMembers [DecidableEq σ] (lt : σ → σ → Bool) : List (σ × Json σ ν) → List (σ × Json σ ν)
  | [] => []
  | (k,v) :: ms => (k,arrange lt v) :: arrangeMembers lt ms
termination_by structural ms => ms

end

/-- The inside of a string literal: no quote and no backslash but in an escape. -/
inductive Safe : List Char → Prop
  | nil : Safe []
  | plain {c : Char} {t : List Char} (hq : c ≠ '"') (hb : c ≠ '\\') (ht : Safe t) : Safe (c :: t)
  | escape {c : Char} {t : List Char} (ht : Safe t) : Safe ('\\' :: c :: t)

def isNumberChar (c : Char) : Bool := c.isDigit || c = '-' || c = '+' || c = '.' || c = 'e'

/-- Codes of a number, the first of them a digit or a sign. -/
structure NumberText (t : List Char) : Prop where
  start : ∃ c t', t = c :: t' ∧ (c.isDigit = true ∨ c = '-')
  all : ∀ c ∈ t, isNumberChar c = true

/-- How strings (between the quotes) and numbers are written. -/
structure Printer (σ ν : Type) where
  string : σ → List Char
  number : ν → List Char
  string_safe : ∀ s, Safe (string s)
  number_text : ∀ n, NumberText (number n)

def quoted (t : List Char) : List Char := '"' :: t ++ ['"']

mutual

def print (p : Printer σ ν) : Json σ ν → List Char
  | .null => ['n','u','l','l']
  | .bool true => ['t','r','u','e']
  | .bool false => ['f','a','l','s','e']
  | .num n => p.number n
  | .str s => quoted (p.string s)
  | .arr vs => '[' :: [','].intercalate (printList p vs) ++ [']']
  | .obj ms => Char.ofNat 0x7B :: [','].intercalate (printMembers p ms) ++ [Char.ofNat 0x7D]
termination_by structural v => v

def printList (p : Printer σ ν) : List (Json σ ν) → List (List Char)
  | [] => []
  | v :: vs => print p v :: printList p vs
termination_by structural vs => vs

def printMembers (p : Printer σ ν) : List (σ × Json σ ν) → List (List Char)
  | [] => []
  | (k,v) :: ms => (quoted (p.string k) ++ ':' :: print p v) :: printMembers p ms
termination_by structural ms => ms

end

mutual

/-- Documents of one shape with related strings and numbers. -/
def Alike (rs : σ → τ → Prop) (rn : ν → μ → Prop) : Json σ ν → Json τ μ → Prop
  | .null,.null => True
  | .bool a,.bool b => a = b
  | .num x,.num y => rn x y
  | .str s,.str t => rs s t
  | .arr vs,.arr ws => AlikeList rs rn vs ws
  | .obj ms,.obj ns => AlikeMembers rs rn ms ns
  | _,_ => False
termination_by structural v => v

def AlikeList (rs : σ → τ → Prop) (rn : ν → μ → Prop) : List (Json σ ν) → List (Json τ μ) → Prop
  | [],[] => True
  | v :: vs,w :: ws => Alike rs rn v w ∧ AlikeList rs rn vs ws
  | _,_ => False
termination_by structural vs => vs

def AlikeMembers (rs : σ → τ → Prop) (rn : ν → μ → Prop) : List (σ × Json σ ν) → List (τ × Json τ μ) → Prop
  | [],[] => True
  | (k,v) :: ms,(l,w) :: ns => rs k l ∧ Alike rs rn v w ∧ AlikeMembers rs rn ms ns
  | _,_ => False
termination_by structural ms => ms

end

theorem Safe.append {t t' : List Char} (ht : Safe t) (ht' : Safe t') : Safe (t ++ t') := by
  induction ht with
  | nil => exact ht'
  | plain hq hb _ ih => exact .plain hq hb ih
  | escape _ ih => exact .escape ih

/-- A string literal ends at the first quote outside an escape. -/
theorem Safe.cancel {t t' r r' : List Char} (ht : Safe t) (ht' : Safe t') (h : t ++ '"' :: r = t' ++ '"' :: r') :
    t = t' ∧ r = r' := by
  induction ht generalizing t' with
  | nil =>
    cases ht' with
    | nil => simpa using h
    | plain hq =>
      simp only [List.nil_append,List.cons_append,List.cons.injEq] at h
      exact absurd h.1.symm hq
    | escape => simp at h
  | plain hq hb _ ih =>
    cases ht' with
    | nil =>
      simp only [List.nil_append,List.cons_append,List.cons.injEq] at h
      exact absurd h.1 hq
    | plain _ _ ht' =>
      simp only [List.cons_append,List.cons.injEq] at h
      obtain ⟨rfl,h⟩ := h
      obtain ⟨rfl,hr⟩ := ih ht' h
      exact ⟨rfl,hr⟩
    | escape =>
      simp only [List.cons_append,List.cons.injEq] at h
      exact absurd h.1 hb
  | escape _ ih =>
    cases ht' with
    | nil => simp at h
    | plain _ hb =>
      simp only [List.cons_append,List.cons.injEq] at h
      exact absurd h.1.symm hb
    | escape ht' =>
      simp only [List.cons_append,List.cons.injEq,true_and] at h
      obtain ⟨rfl,h⟩ := h
      obtain ⟨rfl,hr⟩ := ih ht' h
      exact ⟨rfl,hr⟩

/-- A text that does not go on with a number. -/
def Stop (r : List Char) : Prop := ∀ c t, r = c :: t → isNumberChar c = false

theorem takeWhile_number {t r : List Char} (ht : NumberText t) (hr : Stop r) :
    (t ++ r).takeWhile isNumberChar = t := by
  rw [List.takeWhile_append_of_pos ht.all]
  cases r with
  | nil => simp
  | cons c r => simp [hr c r rfl]

theorem NumberText.cancel {t t' r r' : List Char} (ht : NumberText t) (ht' : NumberText t') (hr : Stop r)
    (hr' : Stop r') (h : t ++ r = t' ++ r') : t = t' ∧ r = r' := by
  have heq : t = t' := by
    rw [← takeWhile_number ht hr,h,takeWhile_number ht' hr']
  subst heq
  exact ⟨rfl,List.append_cancel_left h⟩

def kindOf (c : Char) : ℕ :=
  if c = 'n' then 0 else if c = 't' then 1 else if c = 'f' then 2 else if c = '"' then 3
  else if c = '[' then 4 else if c = Char.ofNat 0x7B then 5 else if isNumberChar c then 6 else 7

def kind : Json σ ν → ℕ
  | .null => 0
  | .bool true => 1
  | .bool false => 2
  | .str _ => 3
  | .arr _ => 4
  | .obj _ => 5
  | .num _ => 6

theorem kindOf_number {c : Char} (h : c.isDigit = true ∨ c = '-') : kindOf c = 6 := by
  have hnum : isNumberChar c = true := by
    rcases h with h | h <;> simp [isNumberChar,h]
  have hne : ∀ d : Char, isNumberChar d = false → c ≠ d := by
    rintro d hd rfl
    rw [hnum] at hd
    cases hd
  simp [kindOf,hnum,hne 'n' (by decide),hne 't' (by decide),hne 'f' (by decide),hne '"' (by decide),
    hne '[' (by decide),hne (Char.ofNat 0x7B) (by decide)]

theorem print_start (p : Printer σ ν) (v : Json σ ν) : ∃ c t, print p v = c :: t ∧ kindOf c = kind v := by
  cases v with
  | null => exact ⟨'n',_,by rw [print],rfl⟩
  | bool b =>
    cases b
    · exact ⟨'f',_,by rw [print],rfl⟩
    · exact ⟨'t',_,by rw [print],rfl⟩
  | num n =>
    obtain ⟨c,t,ht,hc⟩ := (p.number_text n).start
    exact ⟨c,t,by rw [print,ht],kindOf_number hc⟩
  | str s => exact ⟨'"',_,by rw [print,quoted]; rfl,rfl⟩
  | arr vs => exact ⟨'[',_,by rw [print]; rfl,rfl⟩
  | obj ms => exact ⟨Char.ofNat 0x7B,_,by rw [print]; rfl,rfl⟩

theorem kind_eq {p : Printer σ ν} {p' : Printer τ μ} {v : Json σ ν} {w : Json τ μ} {r r' : List Char}
    (h : print p v ++ r = print p' w ++ r') : kind v = kind w := by
  obtain ⟨c,t,hv,hc⟩ := print_start p v
  obtain ⟨d,u,hw,hd⟩ := print_start p' w
  rw [hv,hw,List.cons_append,List.cons_append,List.cons.injEq] at h
  rw [← hc,← hd,h.1]

theorem print_ne_close {p : Printer σ ν} {v : Json σ ν} {r r' : List Char} {c : Char} (hc : kindOf c = 7) :
    c :: r ≠ print p v ++ r' := by
  obtain ⟨d,t,hv,hd⟩ := print_start p v
  intro h
  rw [hv,List.cons_append,List.cons.injEq] at h
  rw [← h.1,hc] at hd
  cases v with
  | bool b => cases b <;> cases hd
  | _ => cases hd

theorem stop_of_kind {c : Char} (hc : kindOf c = 7) (r : List Char) : Stop (c :: r) := by
  rintro d t h
  obtain ⟨rfl,-⟩ := List.cons.inj h
  by_contra hnum
  simp only [Bool.not_eq_false] at hnum
  unfold kindOf at hc
  split_ifs at hc <;> omega

theorem stop_nil : Stop [] := by
  rintro c t h
  cases h

/-- The pieces after the first, each behind a comma. -/
def more : List (List Char) → List Char
  | [] => []
  | piece :: pieces => ',' :: [','].intercalate (piece :: pieces)

theorem intercalate_cons (piece : List Char) (pieces : List (List Char)) :
    [','].intercalate (piece :: pieces) = piece ++ more pieces := by
  cases pieces with
  | nil => simp [more]
  | cons piece' pieces => simp [more]

theorem stop_more (pieces : List (List Char)) {close : Char} (hclose : kindOf close = 7) (r : List Char) :
    Stop (more pieces ++ close :: r) := by
  cases pieces with
  | nil => exact stop_of_kind hclose r
  | cons piece pieces => exact stop_of_kind rfl _

section Cancel

variable {rs : σ → τ → Prop} {rn : ν → μ → Prop} (p : Printer σ ν) (p' : Printer τ μ)

mutual

theorem print_cancel (hs : ∀ s t, p.string s = p'.string t → rs s t) (hn : ∀ x y, p.number x = p'.number y → rn x y)
    (v : Json σ ν) (w : Json τ μ) (r r' : List Char) (hr : Stop r) (hr' : Stop r')
    (h : print p v ++ r = print p' w ++ r') : Alike rs rn v w ∧ r = r' := by
  have hkind := kind_eq h
  cases v with
  | null =>
    cases w with
    | bool b => cases b <;> cases hkind
    | null => simpa [print,Alike] using h
    | _ => cases hkind
  | bool b =>
    cases w with
    | bool b' =>
      obtain rfl : b = b' := by
        cases b <;> cases b' <;> first | rfl | cases hkind
      cases b <;> simpa [print,Alike] using h
    | _ => cases b <;> cases hkind
  | num x =>
    cases w with
    | num y =>
      rw [print,print] at h
      obtain ⟨heq,hrest⟩ := (p.number_text x).cancel (p'.number_text y) hr hr' h
      exact ⟨hn x y heq,hrest⟩
    | bool b => cases b <;> cases hkind
    | _ => cases hkind
  | str s =>
    cases w with
    | str t =>
      simp only [print,quoted,List.cons_append,List.append_assoc,List.nil_append,List.cons.injEq,true_and] at h
      obtain ⟨heq,hrest⟩ := (p.string_safe s).cancel (p'.string_safe t) h
      exact ⟨hs s t heq,hrest⟩
    | bool b => cases b <;> cases hkind
    | _ => cases hkind
  | arr vs =>
    cases w with
    | arr ws =>
      simp only [print,List.cons_append,List.append_assoc,List.nil_append,List.cons.injEq,true_and] at h
      exact printList_cancel hs hn vs ws r r' h
    | bool b => cases b <;> cases hkind
    | _ => cases hkind
  | obj ms =>
    cases w with
    | obj ns =>
      simp only [print,List.cons_append,List.append_assoc,List.nil_append,List.cons.injEq,true_and] at h
      exact printMembers_cancel hs hn ms ns r r' h
    | bool b => cases b <;> cases hkind
    | _ => cases hkind
termination_by structural v

theorem printList_cancel (hs : ∀ s t, p.string s = p'.string t → rs s t)
    (hn : ∀ x y, p.number x = p'.number y → rn x y) (vs : List (Json σ ν)) (ws : List (Json τ μ)) (r r' : List Char)
    (h : [','].intercalate (printList p vs) ++ ']' :: r = [','].intercalate (printList p' ws) ++ ']' :: r') :
    AlikeList rs rn vs ws ∧ r = r' := by
  cases vs with
  | nil =>
    cases ws with
    | nil => simpa [printList,AlikeList] using h
    | cons w ws =>
      simp only [printList,intercalate_cons,List.append_assoc] at h
      exact absurd h (print_ne_close rfl)
  | cons v vs =>
    cases ws with
    | nil =>
      simp only [printList,intercalate_cons,List.append_assoc] at h
      exact absurd h.symm (print_ne_close rfl)
    | cons w ws =>
      simp only [printList,intercalate_cons,List.append_assoc] at h
      obtain ⟨hv,hrest⟩ := print_cancel hs hn v w _ _ (stop_more _ rfl r) (stop_more _ rfl r') h
      cases vs with
      | nil =>
        cases ws with
        | nil =>
          refine ⟨⟨hv,by simp [AlikeList]⟩,?_⟩
          simpa [printList,more] using hrest
        | cons w' ws => simp [printList,more] at hrest
      | cons v' vs =>
        cases ws with
        | nil => simp [printList,more] at hrest
        | cons w' ws =>
          simp only [printList,more,List.cons_append,List.cons.injEq,true_and] at hrest
          obtain ⟨hvs,hr⟩ := printList_cancel hs hn (v' :: vs) (w' :: ws) r r' hrest
          exact ⟨⟨hv,hvs⟩,hr⟩
termination_by structural vs

theorem printMembers_cancel (hs : ∀ s t, p.string s = p'.string t → rs s t)
    (hn : ∀ x y, p.number x = p'.number y → rn x y) (ms : List (σ × Json σ ν)) (ns : List (τ × Json τ μ))
    (r r' : List Char)
    (h : [','].intercalate (printMembers p ms) ++ Char.ofNat 0x7D :: r =
      [','].intercalate (printMembers p' ns) ++ Char.ofNat 0x7D :: r') :
    AlikeMembers rs rn ms ns ∧ r = r' := by
  cases ms with
  | nil =>
    cases ns with
    | nil => simpa [printMembers,AlikeMembers] using h
    | cons n ns =>
      simp only [printMembers,intercalate_cons,quoted,List.cons_append] at h
      simp at h
  | cons m ms =>
    obtain ⟨k,v⟩ := m
    cases ns with
    | nil =>
      simp only [printMembers,intercalate_cons,quoted,List.cons_append] at h
      simp at h
    | cons n ns =>
      obtain ⟨l,w⟩ := n
      simp only [printMembers,intercalate_cons,quoted,List.cons_append,List.append_assoc,List.nil_append,
        List.cons.injEq,true_and] at h
      obtain ⟨hk,h⟩ := (p.string_safe k).cancel (p'.string_safe l) h
      obtain ⟨hv,hrest⟩ := print_cancel hs hn v w _ _ (stop_more _ rfl r) (stop_more _ rfl r') (List.cons.inj h).2
      cases ms with
      | nil =>
        cases ns with
        | nil =>
          refine ⟨⟨hs k l hk,hv,by simp [AlikeMembers]⟩,?_⟩
          simpa [printMembers,more] using hrest
        | cons n' ns => simp [printMembers,more] at hrest
      | cons m' ms =>
        cases ns with
        | nil => simp [printMembers,more] at hrest
        | cons n' ns =>
          simp only [printMembers,more,List.cons_append,List.cons.injEq,true_and] at hrest
          obtain ⟨hms,hr⟩ := printMembers_cancel hs hn (m' :: ms) (n' :: ns) r r' hrest
          exact ⟨⟨hs k l hk,hv,hms⟩,hr⟩
termination_by structural ms

end

mutual

theorem print_congr (hs : ∀ s t, rs s t → p.string s = p'.string t) (hn : ∀ x y, rn x y → p.number x = p'.number y)
    (v : Json σ ν) (w : Json τ μ) (h : Alike rs rn v w) : print p v = print p' w := by
  cases v with
  | null =>
    cases w with
    | null => rw [print,print]
    | _ => simp [Alike] at h
  | bool b =>
    cases w with
    | bool b' =>
      obtain rfl : b = b' := by simpa [Alike] using h
      cases b <;> rw [print,print]
    | _ => simp [Alike] at h
  | num x =>
    cases w with
    | num y => rw [print,print,hn x y h]
    | _ => simp [Alike] at h
  | str s =>
    cases w with
    | str t => rw [print,print,hs s t h]
    | _ => simp [Alike] at h
  | arr vs =>
    cases w with
    | arr ws => rw [print,print,printList_congr hs hn vs ws h]
    | _ => simp [Alike] at h
  | obj ms =>
    cases w with
    | obj ns => rw [print,print,printMembers_congr hs hn ms ns h]
    | _ => simp [Alike] at h
termination_by structural v

theorem printList_congr (hs : ∀ s t, rs s t → p.string s = p'.string t)
    (hn : ∀ x y, rn x y → p.number x = p'.number y) (vs : List (Json σ ν)) (ws : List (Json τ μ))
    (h : AlikeList rs rn vs ws) : printList p vs = printList p' ws := by
  cases vs with
  | nil =>
    cases ws with
    | nil => rfl
    | cons w ws => simp [AlikeList] at h
  | cons v vs =>
    cases ws with
    | nil => simp [AlikeList] at h
    | cons w ws => rw [printList,printList,print_congr hs hn v w h.1,printList_congr hs hn vs ws h.2]
termination_by structural vs

theorem printMembers_congr (hs : ∀ s t, rs s t → p.string s = p'.string t)
    (hn : ∀ x y, rn x y → p.number x = p'.number y) (ms : List (σ × Json σ ν)) (ns : List (τ × Json τ μ))
    (h : AlikeMembers rs rn ms ns) : printMembers p ms = printMembers p' ns := by
  cases ms with
  | nil =>
    cases ns with
    | nil => rfl
    | cons n ns => simp [AlikeMembers] at h
  | cons m ms =>
    obtain ⟨k,v⟩ := m
    cases ns with
    | nil => simp [AlikeMembers] at h
    | cons n ns =>
      obtain ⟨l,w⟩ := n
      rw [printMembers,printMembers,hs k l h.1,print_congr hs hn v w h.2.1,printMembers_congr hs hn ms ns h.2.2]
termination_by structural ms

end

/-- Two printers write the same text exactly for documents that are alike. -/
theorem print_eq_iff (hs : ∀ s t, p.string s = p'.string t ↔ rs s t) (hn : ∀ x y, p.number x = p'.number y ↔ rn x y)
    (v : Json σ ν) (w : Json τ μ) : print p v = print p' w ↔ Alike rs rn v w := by
  constructor
  · intro h
    have h' : print p v ++ [] = print p' w ++ [] := by rw [h]
    exact (print_cancel p p' (fun s t => (hs s t).mp) (fun x y => (hn x y).mp) v w [] [] stop_nil stop_nil h').1
  · exact print_congr p p' (fun s t => (hs s t).mpr) (fun x y => (hn x y).mpr) v w

end Cancel

end Json
end Clearvoiance
