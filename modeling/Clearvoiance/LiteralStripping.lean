import Clearvoiance.Fingerprints
import Clearvoiance.RuneFields

/-! The fingerprint of a query whose literals and white space vary.  The stripper walks over the bytes of the query
with indices; every literal leaves one question mark, whatever it contains. -/
namespace Clearvoiance
namespace LiteralStripping

open Hex RuneFields

def quote : UInt8 := 0x27

def mark : UInt8 := 0x3F

def point : UInt8 := 0x2E

def isDigit (c : UInt8) : Bool := 0x30 ≤ c.toNat && c.toNat ≤ 0x39

def isNumeral (c : UInt8) : Bool := c = point || isDigit c

/-- Where the stripper is: in front of a byte, in a string literal, or in a number. -/
inductive Pc
  | scan (i : ℕ)
  | literal (j : ℕ)
  | numeral (i : ℕ)
  deriving DecidableEq

/-- The place, and what has been written to the builder. -/
structure State where
  pc : Pc
  out : Bytes
  deriving DecidableEq

/-- `panic` stands for an index out of range. -/
inductive Outcome
  | running (st : State)
  | done (out : Bytes)
  | panic
  deriving DecidableEq

/-- One turn of a loop of `stripLiterals`. -/
def step (s : Bytes) (st : State) : Outcome :=
  match st.pc with
  | .scan i =>
    if i < s.length then
      match s[i]? with
      | none => .panic
      | some c =>
        if c = quote then .running ⟨.literal (i+1),st.out⟩
        else if isDigit c then .running ⟨.numeral i,st.out⟩
        else .running ⟨.scan (i+1),st.out ++ [c]⟩
    else .done st.out
  | .literal j =>
    if j < s.length then
      match s[j]? with
      | none => .panic
      | some c =>
        if c = quote then
          if j+1 < s.length then
            match s[j+1]? with
            | none => .panic
            | some d =>
              if d = quote then .running ⟨.literal (j+2),st.out⟩ else .running ⟨.scan (j+1),st.out ++ [mark]⟩
          else .running ⟨.scan (j+1),st.out ++ [mark]⟩
        else .running ⟨.literal (j+1),st.out⟩
    else .running ⟨.scan (j+1),st.out ++ [mark]⟩
  | .numeral i =>
    if i < s.length then
      match s[i]? with
      | none => .panic
      | some c =>
        if isNumeral c then .running ⟨.numeral (i+1),st.out⟩ else .running ⟨.scan i,st.out ++ [mark]⟩
    else .running ⟨.scan i,st.out ++ [mark]⟩

def run (s : Bytes) : ℕ → State → Outcome
  | 0, st => .running st
  | n+1, st =>
    match step s st with
    | .running st' => run s n st'
    | o => o

def stripLiterals (s : Bytes) : Outcome := run s (3*s.length+1) ⟨.scan 0,[]⟩

def fingerprint (query : Bytes) : Option (List Char) :=
  match stripLiterals query with
  | .done cleaned => some ((encodeToString (Sha1.sum ([0x20].intercalate (fields cleaned)))).take 16)
  | .running _ | .panic => none

section Stripped

/-- What follows a string literal behind its first quote. -/
def behindLiteral : Bytes → Bytes
  | [] => []
  | [_] => []
  | c :: d :: s => if c = quote then if d = quote then behindLiteral s else d :: s else behindLiteral (d :: s)

theorem length_behindLiteral (s : Bytes) : (behindLiteral s).length ≤ s.length := by
  induction s using behindLiteral.induct with
  | case1 => exact le_rfl
  | case2 => exact Nat.zero_le _
  | case3 s ih =>
    rw [behindLiteral,if_pos rfl,if_pos rfl]
    exact ih.trans (by simp only [List.length_cons]; omega)
  | case4 d s hd =>
    rw [behindLiteral,if_pos rfl,if_neg hd]
    simp
  | case5 c d s hc ih =>
    rw [behindLiteral,if_neg hc]
    exact ih.trans (Nat.le_succ _)

/-- The text with its literals replaced, by the literals that it consists of. -/
def stripped : Bytes → Bytes
  | [] => []
  | c :: s =>
    if c = quote then mark :: stripped (behindLiteral s)
    else if isDigit c then mark :: stripped (s.dropWhile isNumeral)
    else c :: stripped s
termination_by s => s.length
decreasing_by
  · have := length_behindLiteral s
    simp only [List.length_cons]
    omega
  · have := List.length_dropWhile_le isNumeral s
    simp only [List.length_cons]
    omega
  · simp

@[simp] theorem stripped_nil : stripped [] = [] := by rw [stripped]

theorem stripped_quote (s : Bytes) : stripped (quote :: s) = mark :: stripped (behindLiteral s) := by
  rw [stripped,if_pos rfl]

theorem digit_ne_quote {c : UInt8} (h : isDigit c = true) : c ≠ quote := by
  rintro rfl
  revert h
  decide

theorem stripped_digit {c : UInt8} (h : isDigit c = true) (s : Bytes) :
    stripped (c :: s) = mark :: stripped (s.dropWhile isNumeral) := by
  rw [stripped,if_neg (digit_ne_quote h),if_pos h]

/-- A byte that neither begins a string literal nor a number. -/
def Plain (c : UInt8) : Prop := c ≠ quote ∧ isDigit c = false

theorem stripped_plain {c : UInt8} (h : Plain c) (s : Bytes) : stripped (c :: s) = c :: stripped s := by
  rw [stripped,if_neg h.1,h.2,if_neg Bool.false_ne_true]

theorem stripped_text {t : Bytes} (h : ∀ c ∈ t, Plain c) (s : Bytes) : stripped (t ++ s) = t ++ stripped s := by
  induction t with
  | nil => rfl
  | cons c t ih =>
    obtain ⟨hc,ht⟩ := List.forall_mem_cons.mp h
    rw [List.cons_append,stripped_plain hc,ih ht,List.cons_append]

theorem plain_mark : Plain mark := ⟨by decide,rfl⟩

theorem plain_of_mem_stripped (s : Bytes) : ∀ c ∈ stripped s, Plain c := by
  induction s using stripped.induct with
  | case1 => simp
  | case2 s ih =>
    rw [stripped_quote]
    exact List.forall_mem_cons.mpr ⟨plain_mark,ih⟩
  | case3 c s hc hd ih =>
    rw [stripped_digit hd]
    exact List.forall_mem_cons.mpr ⟨plain_mark,ih⟩
  | case4 c s hc hd ih =>
    have hplain : Plain c := ⟨hc,Bool.not_eq_true _ ▸ hd⟩
    rw [stripped_plain hplain]
    exact List.forall_mem_cons.mpr ⟨hplain,ih⟩

end Stripped

section Loops

variable {s : Bytes}

def pending (s : Bytes) (st : State) : Bytes :=
  match st.pc with
  | .scan i => st.out ++ stripped (s.drop i)
  | .literal j => st.out ++ mark :: stripped (behindLiteral (s.drop j))
  | .numeral i => st.out ++ mark :: stripped ((s.drop i).dropWhile isNumeral)

/-- The turns that are left at most; a number is entered in front of its first digit. -/
def weight (s : Bytes) (st : State) : ℕ :=
  match st.pc with
  | .scan i => 3*(s.length-i)+1
  | .literal j => 3*(s.length-j)+2
  | .numeral i => 3*(s.length-i)+if (s.drop i).head?.any isNumeral then 0 else 2

theorem drop_at {i : ℕ} (hi : i < s.length) : ∃ c, s[i]? = some c ∧ s.drop i = c :: s.drop (i+1) :=
  ⟨s[i],List.getElem?_eq_getElem hi,List.drop_eq_getElem_cons hi⟩

theorem weight_pos (s : Bytes) (st : State) : 0 < weight s st := by
  obtain ⟨pc,out⟩ := st
  cases pc with
  | scan i => exact Nat.succ_pos _
  | literal j => exact Nat.succ_pos _
  | numeral i =>
    simp only [weight]
    split_ifs with h
    · have hi : i < s.length := by
        by_contra hge
        rw [List.drop_eq_nil_of_le (not_lt.mp hge)] at h
        simp at h
      omega
    · omega

/-- A turn is no panic, keeps what the builder will hold, and leaves fewer turns. -/
theorem step_spec (s : Bytes) (st : State) :
    (∃ st', step s st = .running st' ∧ pending s st' = pending s st ∧ weight s st' < weight s st) ∨
      step s st = .done (pending s st) := by
  obtain ⟨pc,out⟩ := st
  cases pc with
  | scan i =>
    by_cases hi : i < s.length
    · obtain ⟨c,hc,hdrop⟩ := drop_at hi
      by_cases hq : c = quote
      · refine .inl ⟨⟨.literal (i+1),out⟩,by simp only [step,if_pos hi,hc,if_pos hq],?_,?_⟩
        · simp only [pending,hdrop,hq,stripped_quote]
        · simp only [weight]
          omega
      · by_cases hd : isDigit c = true
        · have hnum : isNumeral c = true := by simp [isNumeral,hd]
          refine .inl ⟨⟨.numeral i,out⟩,by simp only [step,if_pos hi,hc,if_neg hq,if_pos hd],?_,?_⟩
          · simp only [pending,hdrop,stripped_digit hd,List.dropWhile_cons_of_pos hnum]
          · simp only [weight,hdrop,List.head?_cons,Option.any_some,hnum,if_true]
            omega
        · have hplain : Plain c := ⟨hq,Bool.not_eq_true _ ▸ hd⟩
          refine .inl ⟨⟨.scan (i+1),out ++ [c]⟩,by simp only [step,if_pos hi,hc,if_neg hq,if_neg hd],?_,?_⟩
          · simp only [pending,hdrop,stripped_plain hplain,List.append_assoc,List.singleton_append]
          · simp only [weight]
            omega
    · refine .inr ?_
      simp only [step,hi,if_false,pending]
      rw [List.drop_eq_nil_of_le (not_lt.mp hi),stripped_nil,List.append_nil]
  | literal j =>
    by_cases hj : j < s.length
    · obtain ⟨c,hc,hdrop⟩ := drop_at hj
      by_cases hq : c = quote
      · by_cases hnext : j+1 < s.length
        · obtain ⟨d,hd,hdrop'⟩ := drop_at hnext
          by_cases hdq : d = quote
          · refine .inl ⟨⟨.literal (j+2),out⟩,?_,?_,?_⟩
            · simp only [step,if_pos hj,hc,if_pos hq,if_pos hnext,hd,if_pos hdq]
            · simp only [pending,hdrop,hdrop',behindLiteral,if_pos hq,if_pos hdq]
            · simp only [weight]
              omega
          · refine .inl ⟨⟨.scan (j+1),out ++ [mark]⟩,?_,?_,?_⟩
            · simp only [step,if_pos hj,hc,if_pos hq,if_pos hnext,hd,if_neg hdq]
            · simp only [pending,hdrop,hdrop',behindLiteral,if_pos hq,if_neg hdq,List.append_assoc,
                List.singleton_append]
            · simp only [weight]
              omega
        · refine .inl ⟨⟨.scan (j+1),out ++ [mark]⟩,by simp only [step,if_pos hj,hc,if_pos hq,if_neg hnext],?_,?_⟩
          · have hnil := List.drop_eq_nil_of_le (not_lt.mp hnext)
            simp only [pending,hdrop,hnil,behindLiteral,List.append_assoc,List.singleton_append]
          · simp only [weight]
            omega
      · refine .inl ⟨⟨.literal (j+1),out⟩,by simp only [step,if_pos hj,hc,if_neg hq],?_,?_⟩
        · simp only [pending,hdrop]
          cases hrest : s.drop (j+1) with
          | nil => rfl
          | cons d t => rw [behindLiteral,if_neg hq]
        · simp only [weight]
          omega
    · refine .inl ⟨⟨.scan (j+1),out ++ [mark]⟩,by simp only [step,if_neg hj],?_,?_⟩
      · have hnil := List.drop_eq_nil_of_le (not_lt.mp hj)
        have hnil' := List.drop_eq_nil_of_le (show s.length ≤ j+1 by omega)
        simp only [pending,hnil,hnil',behindLiteral,List.append_assoc,List.singleton_append]
      · simp only [weight]
        omega
  | numeral i =>
    by_cases hi : i < s.length
    · obtain ⟨c,hc,hdrop⟩ := drop_at hi
      by_cases hnum : isNumeral c = true
      · refine .inl ⟨⟨.numeral (i+1),out⟩,by simp only [step,if_pos hi,hc,if_pos hnum],?_,?_⟩
        · simp only [pending,hdrop,List.dropWhile_cons_of_pos hnum]
        · simp only [weight,hdrop,List.head?_cons,Option.any_some,hnum,if_true]
          split_ifs <;> omega
      · refine .inl ⟨⟨.scan i,out ++ [mark]⟩,by simp only [step,if_pos hi,hc,if_neg hnum],?_,?_⟩
        · simp only [pending,hdrop,List.dropWhile_cons_of_neg hnum,List.append_assoc,List.singleton_append]
        · simp only [weight,hdrop,List.head?_cons,Option.any_some,hnum]
          simp
    · have hnil := List.drop_eq_nil_of_le (not_lt.mp hi)
      refine .inl ⟨⟨.scan i,out ++ [mark]⟩,by simp only [step,if_neg hi],?_,?_⟩
      · simp only [pending,hnil,List.dropWhile_nil,List.append_assoc,List.singleton_append]
      · simp only [weight,hnil,List.head?_nil,Option.any_none]
        simp

theorem run_spec {n : ℕ} {st : State} (h : weight s st ≤ n) : run s n st = .done (pending s st) := by
  induction n generalizing st with
  | zero =>
    have := weight_pos s st
    omega
  | succ n ih =>
    rcases step_spec s st with ⟨st',hstep,hpending,hweight⟩ | hstep
    · rw [run,hstep]
      simp only
      rw [ih (by omega),hpending]
    · rw [run,hstep]

/-- The loops come to an end and leave the text with its literals replaced. -/
theorem stripLiterals_eq (s : Bytes) : stripLiterals s = .done (stripped s) := by
  rw [stripLiterals,run_spec (by simp [weight])]
  simp [pending]

end Loops

section Templates

/-- A string literal is given by its contents, a number by its digits and points. -/
inductive Piece
  | text (t : Bytes)
  | literal (content : Bytes)
  | numeral (digits : Bytes)
  deriving DecidableEq

def doubled (content : Bytes) : Bytes := content.flatMap fun c => if c = quote then [quote,quote] else [c]

def Piece.bytes : Piece → Bytes
  | .text t => t
  | .literal content => quote :: (doubled content ++ [quote])
  | .numeral digits => digits

def Piece.isText : Piece → Bool
  | .text _ => true
  | .literal _ | .numeral _ => false

def Piece.Valid : Piece → Prop
  | .text t => t ≠ [] ∧ ∀ c ∈ t, Plain c
  | .literal _ => True
  | .numeral digits => ∃ d ds, digits = d :: ds ∧ isDigit d = true ∧ ∀ c ∈ ds, isNumeral c = true

def bytesOf (ps : List Piece) : Bytes := ps.flatMap Piece.bytes

structure Template (ps : List Piece) : Prop where
  valid : ∀ p ∈ ps, p.Valid
  alternating : ps.IsChain fun p q => p.isText ≠ q.isText

inductive Respaced : Bytes → Bytes → Prop
  | nil : Respaced [] []
  | keep (c : UInt8) {s t : Bytes} : Respaced s t → Respaced (c :: s) (c :: t)
  | blank {r r' s t : Bytes} : Blank r → Blank r' → r ≠ [] → r' ≠ [] → Respaced s t → Respaced (r ++ s) (r' ++ t)

/-- The other pieces may be replaced by any of their kind. -/
inductive Piece.Replaces : Piece → Piece → Prop
  | text {t t' : Bytes} : Respaced t t' → Replaces (.text t) (.text t')
  | literal (content content' : Bytes) : Replaces (.literal content) (.literal content')
  | numeral (digits digits' : Bytes) : Replaces (.numeral digits) (.numeral digits')

namespace Respaced

variable {s t s' t' : Bytes}

theorem append (h : Respaced s t) (h' : Respaced s' t') : Respaced (s ++ s') (t ++ t') := by
  induction h with
  | nil => exact h'
  | keep c _ ih => exact .keep c ih
  | blank hr hr' hne hne' _ ih =>
    rw [List.append_assoc,List.append_assoc]
    exact .blank hr hr' hne hne' ih

theorem refl (s : Bytes) : Respaced s s := by
  induction s with
  | nil => exact .nil
  | cons c s ih => exact .keep c ih

theorem fields_eq (h : Respaced s t) (w : Bytes) : fields (w ++ s) = fields (w ++ t) := by
  induction h generalizing w with
  | nil => rfl
  | @keep c s t _ ih =>
    have hnext := ih (w ++ [c])
    rwa [List.append_assoc,List.append_assoc,List.singleton_append,List.singleton_append] at hnext
  | blank hr hr' hne hne' _ ih =>
    rw [fields_blank hr hne,fields_blank hr' hne']
    exact congrArg _ (ih [])

end Respaced

theorem blank_bytes {r : Bytes} (hr : Blank r) : ∀ b ∈ r, isNumeral b = false := by
  obtain ⟨cs,hcs,rfl⟩ := hr
  intro b hb
  obtain ⟨c,hc,hb⟩ := List.mem_flatMap.mp hb
  have hspace := hcs c hc
  have hcode : b.toNat ∈ Utf8Text.encodeChar c := by
    rw [← Utf8Text.utf8EncodeChar_toNat]
    exact List.mem_map_of_mem hb
  have hlarge : 0x80 ≤ b.toNat ∨ b.toNat = c.toNat ∧ c.toNat < 0x80 := by
    unfold Utf8Text.encodeChar Utf8Text.encodePoint at hcode
    split_ifs at hcode
    all_goals
      simp only [List.mem_cons,List.not_mem_nil,or_false] at hcode
      omega
  have hsmall : c.toNat < 0x80 → c.toNat ≤ 0x20 := by
    intro hlt
    simp only [ControlPlane.isSpace,Bool.or_eq_true,Bool.and_eq_true,decide_eq_true_eq,beq_iff_eq] at hspace
    omega
  have hpoint : b ≠ point := by
    rintro rfl
    have : point.toNat = 0x2E := rfl
    omega
  simp only [isNumeral,isDigit,hpoint,decide_false,Bool.false_or,Bool.and_eq_false_iff,decide_eq_false_iff_not]
  omega

/-- What a number takes of the text behind it are points, the same in both texts. -/
theorem dropWhile_respaced {t t' : Bytes} (h : Respaced t t') (hplain : ∀ c ∈ t, Plain c)
    (hplain' : ∀ c ∈ t', Plain c) :
    (∀ s s', (t ++ s).dropWhile isNumeral = s.dropWhile isNumeral ∧
      (t' ++ s').dropWhile isNumeral = s'.dropWhile isNumeral) ∨
    ∃ u u', Respaced u u' ∧ (∀ c ∈ u, Plain c) ∧ (∀ c ∈ u', Plain c) ∧
      ∀ s s', (t ++ s).dropWhile isNumeral = u ++ s ∧ (t' ++ s').dropWhile isNumeral = u' ++ s' := by
  induction h with
  | nil => exact .inl fun _ _ => ⟨rfl,rfl⟩
  | @keep c s t hrest ih =>
    obtain ⟨hc,hs⟩ := List.forall_mem_cons.mp hplain
    obtain ⟨-,ht⟩ := List.forall_mem_cons.mp hplain'
    by_cases hnum : isNumeral c = true
    · simp only [List.cons_append,List.dropWhile_cons_of_pos hnum]
      exact ih hs ht
    · exact .inr ⟨_,_,.keep c hrest,hplain,hplain',fun _ _ => ⟨List.dropWhile_cons_of_neg hnum,
        List.dropWhile_cons_of_neg hnum⟩⟩
  | @blank r r' s t hr hr' hne hne' hrest _ =>
    refine .inr ⟨_,_,.blank hr hr' hne hne' hrest,hplain,hplain',fun _ _ => ⟨?_,?_⟩⟩
    · obtain ⟨b,r,rfl⟩ := List.exists_cons_of_ne_nil hne
      exact List.dropWhile_cons_of_neg (by rw [blank_bytes hr b List.mem_cons_self]; decide)
    · obtain ⟨b,r,rfl⟩ := List.exists_cons_of_ne_nil hne'
      exact List.dropWhile_cons_of_neg (by rw [blank_bytes hr' b List.mem_cons_self]; decide)

theorem behindLiteral_doubled (content : Bytes) {s : Bytes} (hs : s.head? ≠ some quote) :
    behindLiteral (doubled content ++ quote :: s) = s := by
  induction content with
  | nil =>
    cases s with
    | nil => rfl
    | cons d s =>
      have hd : d ≠ quote := fun h => hs (by rw [h]; rfl)
      rw [doubled,List.flatMap_nil,List.nil_append,behindLiteral,if_pos rfl,if_neg hd]
  | cons c content ih =>
    have hcons : doubled (c :: content) = (if c = quote then [quote,quote] else [c]) ++ doubled content :=
      List.flatMap_cons
    rw [hcons,List.append_assoc]
    split_ifs with hc
    · rw [List.cons_append,List.singleton_append,behindLiteral,if_pos rfl,if_pos rfl,ih]
    · obtain ⟨d,rest,hrest⟩ : ∃ d rest, doubled content ++ quote :: s = d :: rest :=
        List.exists_cons_of_ne_nil (by simp)
      rw [hrest] at ih
      rw [List.singleton_append,hrest,behindLiteral,if_neg hc,ih]

theorem stripped_literal (content : Bytes) {s : Bytes} (hs : s.head? ≠ some quote) :
    stripped ((Piece.literal content).bytes ++ s) = mark :: stripped s := by
  rw [Piece.bytes,List.cons_append,List.append_assoc,List.singleton_append,stripped_quote,
    behindLiteral_doubled content hs]

theorem dropWhile_numeral {digits : Bytes} (h : (Piece.numeral digits).Valid) (s : Bytes) :
    (digits ++ s).dropWhile isNumeral = s.dropWhile isNumeral := by
  obtain ⟨d,ds,rfl,hd,hds⟩ := h
  apply List.dropWhile_append_of_pos
  refine List.forall_mem_cons.mpr ⟨?_,hds⟩
  simp [isNumeral,hd]

theorem stripped_numeral {digits : Bytes} (h : (Piece.numeral digits).Valid) (s : Bytes) :
    stripped (digits ++ s) = mark :: stripped (s.dropWhile isNumeral) := by
  have hdrop := dropWhile_numeral h s
  obtain ⟨d,ds,rfl,hd,hds⟩ := h
  have hnum : isNumeral d = true := by simp [isNumeral,hd]
  rw [List.cons_append,List.dropWhile_cons_of_pos hnum] at hdrop
  rw [List.cons_append,stripped_digit hd,hdrop]

theorem dropWhile_quote (content s : Bytes) :
    ((Piece.literal content).bytes ++ s).dropWhile isNumeral = (Piece.literal content).bytes ++ s :=
  List.dropWhile_cons_of_neg (by decide)

theorem head_bytesOf {content : Bytes} {ps : List Piece} (h : Template (.literal content :: ps)) :
    (bytesOf ps).head? ≠ some quote := by
  cases ps with
  | nil => simp [bytesOf]
  | cons p ps =>
    have hp : p.isText = true := by
      have hne := (List.isChain_cons_cons.mp h.alternating).1
      simpa [Piece.isText] using hne
    have hvalid := h.valid p (List.mem_cons_of_mem _ List.mem_cons_self)
    cases p with
    | text t =>
      obtain ⟨hne,hplain⟩ := hvalid
      obtain ⟨c,t,rfl⟩ := List.exists_cons_of_ne_nil hne
      intro hhead
      exact (hplain c List.mem_cons_self).1 (Option.some.inj hhead)
    | literal => simp [Piece.isText] at hp
    | numeral => simp [Piece.isText] at hp

theorem Template.tail {p : Piece} {ps : List Piece} (h : Template (p :: ps)) : Template ps :=
  ⟨fun q hq => h.valid q (List.mem_cons_of_mem _ hq),h.alternating.tail⟩

/-- What is left of two templates of one kind differs in white space only, also behind a number that takes the points
which follow it. -/
theorem respaced_stripped {ps ps' : List Piece} (hsame : List.Forall₂ Piece.Replaces ps ps') (h : Template ps)
    (h' : Template ps') :
    Respaced (stripped (bytesOf ps)) (stripped (bytesOf ps')) ∧
      Respaced (stripped ((bytesOf ps).dropWhile isNumeral)) (stripped ((bytesOf ps').dropWhile isNumeral)) := by
  induction hsame with
  | nil => exact ⟨by simpa [bytesOf] using .nil,by simpa [bytesOf] using .nil⟩
  | @cons p p' ps ps' hp _ ih =>
    obtain ⟨hstripped,hdropped⟩ := ih h.tail h'.tail
    have hcons : ∀ (q : Piece) qs, bytesOf (q :: qs) = q.bytes ++ bytesOf qs := fun _ _ => List.flatMap_cons
    have hvalid := h.valid p List.mem_cons_self
    have hvalid' := h'.valid p' List.mem_cons_self
    rw [hcons,hcons]
    cases hp with
    | text hspaced =>
      refine ⟨?_,?_⟩
      · rw [Piece.bytes,Piece.bytes,stripped_text hvalid.2,stripped_text hvalid'.2]
        exact hspaced.append hstripped
      · rcases dropWhile_respaced hspaced hvalid.2 hvalid'.2 with hall | ⟨u,u',hu,hplain,hplain',hsome⟩
        · obtain ⟨hl,hr⟩ := hall (bytesOf ps) (bytesOf ps')
          rw [Piece.bytes,Piece.bytes,hl,hr]
          exact hdropped
        · obtain ⟨hl,hr⟩ := hsome (bytesOf ps) (bytesOf ps')
          rw [Piece.bytes,Piece.bytes,hl,hr,stripped_text hplain,stripped_text hplain']
          exact hu.append hstripped
    | literal content content' =>
      have hmark : Respaced (stripped ((Piece.literal content).bytes ++ bytesOf ps))
          (stripped ((Piece.literal content').bytes ++ bytesOf ps')) := by
        rw [stripped_literal content (head_bytesOf h),stripped_literal content' (head_bytesOf h')]
        exact .keep mark hstripped
      rw [dropWhile_quote,dropWhile_quote]
      exact ⟨hmark,hmark⟩
    | numeral digits digits' =>
      rw [Piece.bytes,Piece.bytes,stripped_numeral hvalid,stripped_numeral hvalid',dropWhile_numeral hvalid,
        dropWhile_numeral hvalid']
      exact ⟨.keep mark hdropped,hdropped⟩

def Piece.shown : Piece → Bytes
  | .text t => t
  | .literal _ | .numeral _ => [mark]

/-- No point follows a number, which would take it. -/
def Parted : Piece → Piece → Prop
  | .numeral _,.text t => t.head? ≠ some point
  | _,_ => True

theorem dropWhile_parted {digits : Bytes} {ps : List Piece} (h : Template (.numeral digits :: ps))
    (hparted : (Piece.numeral digits :: ps).IsChain Parted) : (bytesOf ps).dropWhile isNumeral = bytesOf ps := by
  cases ps with
  | nil => rfl
  | cons p ps =>
    have hp : p.isText = true := by
      have hne := (List.isChain_cons_cons.mp h.alternating).1
      simpa [Piece.isText] using hne
    have hvalid := h.valid p (List.mem_cons_of_mem _ List.mem_cons_self)
    cases p with
    | text t =>
      obtain ⟨hne,hplain⟩ := hvalid
      obtain ⟨c,t,rfl⟩ := List.exists_cons_of_ne_nil hne
      have hpoint : c ≠ point := by
        have hhead : (c :: t).head? ≠ some point := (List.isChain_cons_cons.mp hparted).1
        simpa using hhead
      refine List.dropWhile_cons_of_neg ?_
      simp [isNumeral,hpoint,(hplain c List.mem_cons_self).2]
    | literal => simp [Piece.isText] at hp
    | numeral => simp [Piece.isText] at hp

/-- A template is stripped to its texts, with one mark for each literal and each number. -/
theorem stripped_template {ps : List Piece} (h : Template ps) (hparted : ps.IsChain Parted) :
    stripped (bytesOf ps) = ps.flatMap Piece.shown := by
  induction ps with
  | nil => exact stripped_nil
  | cons p ps ih =>
    have hrest := ih h.tail hparted.tail
    have hvalid := h.valid p List.mem_cons_self
    rw [List.flatMap_cons,← hrest,bytesOf,List.flatMap_cons,← bytesOf]
    cases p with
    | text t => exact stripped_text hvalid.2 _
    | literal content => exact stripped_literal content (head_bytesOf h)
    | numeral digits =>
      rw [Piece.bytes,stripped_numeral hvalid,dropWhile_parted h hparted]
      rfl

end Templates

section Text

open JsonStrings (GoString)

def bytes (s : GoString) : Bytes := s.flatMap String.utf8EncodeChar

theorem utf8_eq (s : GoString) : utf8 (String.ofList s) = bytes s := List.toList_data_toByteArray

@[simp] theorem bytes_nil : bytes [] = [] := rfl

theorem bytes_cons (c : Char) (s : GoString) : bytes (c :: s) = String.utf8EncodeChar c ++ bytes s :=
  List.flatMap_cons

/-- A character is a byte of its own, or none of its bytes means anything to the stripper. -/
theorem char_cases (c : Char) :
    (∃ b : UInt8, String.utf8EncodeChar c = [b] ∧ b.toNat = c.toNat ∧ c.toNat < 0x80) ∨
      0x80 ≤ c.toNat ∧ ∀ b ∈ String.utf8EncodeChar c, 0x80 ≤ b.toNat := by
  have hcodes := Utf8Text.utf8EncodeChar_toNat c
  by_cases hc : c.toNat < 0x80
  · rw [Utf8Text.encodeChar,Utf8Text.encodePoint_plain hc,List.map_eq_singleton_iff] at hcodes
    obtain ⟨b,hb,hvalue⟩ := hcodes
    exact .inl ⟨b,hb,hvalue,hc⟩
  · refine .inr ⟨not_lt.mp hc,fun b hb => ?_⟩
    have hcode : b.toNat ∈ Utf8Text.encodeChar c := by
      rw [← hcodes]
      exact List.mem_map_of_mem hb
    unfold Utf8Text.encodeChar Utf8Text.encodePoint at hcode
    split_ifs at hcode
    all_goals
      simp only [List.mem_cons,List.not_mem_nil,or_false] at hcode
      omega

theorem eq_quote_iff {b : UInt8} {c : Char} (h : b.toNat = c.toNat) : b = quote ↔ c = '\'' := by
  rw [← UInt8.toNat_inj,← Char.toNat_inj,h]
  rfl

theorem isDigit_eq {b : UInt8} {c : Char} (h : b.toNat = c.toNat) : isDigit b = Fingerprints.isDecimal c := by
  rw [isDigit,h]
  rfl

theorem isNumeral_eq {b : UInt8} {c : Char} (h : b.toNat = c.toNat) : isNumeral b = Fingerprints.isNumeral c := by
  have hpoint : b = point ↔ c = '.' := by
    rw [← UInt8.toNat_inj,← Char.toNat_inj,h]
    rfl
  rw [isNumeral,Fingerprints.isNumeral,isDigit_eq h]
  simp only [hpoint]

theorem plain_of_large {b : UInt8} (h : 0x80 ≤ b.toNat) : Plain b ∧ isNumeral b = false := by
  have hquote : b ≠ quote := by
    rintro rfl
    exact absurd h (by decide)
  have hpoint : b ≠ point := by
    rintro rfl
    exact absurd h (by decide)
  have hdigit : isDigit b = false := by
    simp only [isDigit,Bool.and_eq_false_iff,decide_eq_false_iff_not]
    omega
  exact ⟨⟨hquote,hdigit⟩,by simp [isNumeral,hpoint,hdigit]⟩

theorem decimal_of_large {c : Char} (h : 0x80 ≤ c.toNat) : c ≠ '\'' ∧ Fingerprints.isDecimal c = false ∧
    Fingerprints.isNumeral c = false := by
  have hquote : c ≠ '\'' := by
    rintro rfl
    exact absurd h (by decide)
  have hpoint : c ≠ '.' := by
    rintro rfl
    exact absurd h (by decide)
  have hdigit : Fingerprints.isDecimal c = false := by
    simp only [Fingerprints.isDecimal,Fingerprints.digitCode,Bool.and_eq_false_iff,decide_eq_false_iff_not]
    omega
  exact ⟨hquote,hdigit,by simp [Fingerprints.isNumeral,hpoint,hdigit]⟩

theorem behindLiteral_append {t : Bytes} (h : ∀ b ∈ t, b ≠ quote) (s : Bytes) :
    behindLiteral (t ++ s) = behindLiteral s := by
  induction t with
  | nil => rfl
  | cons b t ih =>
    obtain ⟨hb,ht⟩ := List.forall_mem_cons.mp h
    rw [← ih ht,List.cons_append]
    cases t ++ s with
    | nil => rfl
    | cons d rest => rw [behindLiteral,if_neg hb]

theorem char_ne_quote {c : Char} (hc : c ≠ '\'') : ∀ b ∈ String.utf8EncodeChar c, b ≠ quote := by
  rcases char_cases c with ⟨b,hb,hvalue,-⟩ | ⟨-,hlarge⟩
  · rw [hb]
    exact List.forall_mem_singleton.mpr fun h => hc ((eq_quote_iff hvalue).mp h)
  · exact fun b hb => (plain_of_large (hlarge b hb)).1.1

theorem bytes_quote (s : GoString) : bytes ('\'' :: s) = quote :: bytes s := bytes_cons '\'' s

theorem behindLiteral_bytes (s : GoString) : behindLiteral (bytes s) = bytes (Fingerprints.skipLiteral s) := by
  induction s using Fingerprints.skipLiteral.induct with
  | case1 => rfl
  | case2 c =>
    rw [Fingerprints.skipLiteral]
    by_cases hc : c = '\''
    · subst hc
      rfl
    · rw [bytes_cons,behindLiteral_append (char_ne_quote hc)]
      rfl
  | case3 s ih => rw [Fingerprints.skipLiteral,if_pos rfl,if_pos rfl,bytes_quote,bytes_quote,behindLiteral,if_pos rfl,
      if_pos rfl,ih]
  | case4 d s hd =>
    rw [Fingerprints.skipLiteral,if_pos rfl,if_neg hd,bytes_quote,bytes_cons]
    have hne := char_ne_quote hd
    obtain ⟨b,t,ht⟩ := List.exists_cons_of_ne_nil (String.utf8EncodeChar_ne_nil (c := d))
    rw [ht] at hne ⊢
    rw [List.cons_append,behindLiteral,if_pos rfl,if_neg (hne b List.mem_cons_self)]
  | case5 c d s hc ih => rw [Fingerprints.skipLiteral,if_neg hc,bytes_cons,behindLiteral_append (char_ne_quote hc),ih]

theorem dropWhile_bytes (s : GoString) :
    (bytes s).dropWhile isNumeral = bytes (s.dropWhile Fingerprints.isNumeral) := by
  induction s with
  | nil => rfl
  | cons c s ih =>
    rcases char_cases c with ⟨b,hb,hvalue,-⟩ | ⟨hc,hlarge⟩
    · rw [List.dropWhile_cons,bytes_cons,hb,List.singleton_append,List.dropWhile_cons,isNumeral_eq hvalue]
      split_ifs
      · exact ih
      · rw [bytes_cons,hb,List.singleton_append]
    · rw [List.dropWhile_cons_of_neg (by rw [(decimal_of_large hc).2.2]; decide),bytes_cons]
      obtain ⟨b,t,ht⟩ := List.exists_cons_of_ne_nil (String.utf8EncodeChar_ne_nil (c := c))
      have hb := hlarge b (ht ▸ List.mem_cons_self)
      rw [ht,List.cons_append,List.dropWhile_cons_of_neg (by rw [(plain_of_large hb).2]; decide)]

theorem length_skipLiteral (s : GoString) : (Fingerprints.skipLiteral s).length ≤ s.length := by
  induction s using Fingerprints.skipLiteral.induct with
  | case1 => exact le_rfl
  | case2 => exact Nat.zero_le _
  | case3 s ih =>
    rw [Fingerprints.skipLiteral,if_pos rfl,if_pos rfl]
    exact ih.trans (by simp only [List.length_cons]; omega)
  | case4 d s hd =>
    rw [Fingerprints.skipLiteral,if_pos rfl,if_neg hd]
    simp
  | case5 c d s hc ih =>
    rw [Fingerprints.skipLiteral,if_neg hc]
    exact ih.trans (Nat.le_succ _)

/-- The stripper does to the bytes of a text what it does to its characters. -/
theorem stripped_bytes {n : ℕ} {s : GoString} (hn : s.length ≤ n) :
    stripped (bytes s) = bytes (Fingerprints.stripLiterals n s) := by
  induction n generalizing s with
  | zero =>
    rw [List.length_eq_zero_iff.mp (Nat.le_zero.mp hn)]
    exact stripped_nil
  | succ n ih =>
    cases s with
    | nil => exact stripped_nil
    | cons c s =>
      have hle : s.length ≤ n := Nat.le_of_succ_le_succ hn
      rw [Fingerprints.stripLiterals]
      split_ifs with hc hd
      · rw [hc,bytes_quote,stripped_quote,behindLiteral_bytes,ih ((length_skipLiteral s).trans hle)]
        rfl
      · rcases char_cases c with ⟨b,hb,hvalue,-⟩ | ⟨hlarge,-⟩
        · have hdigit : isDigit b = true := by rw [isDigit_eq hvalue,hd]
          rw [bytes_cons,hb,List.singleton_append,stripped_digit hdigit,dropWhile_bytes,
            ih ((List.length_dropWhile_le _ s).trans hle)]
          rfl
        · rw [(decimal_of_large hlarge).2.1] at hd
          exact absurd hd Bool.false_ne_true
      · have hplain : ∀ b ∈ String.utf8EncodeChar c, Plain b := by
          rcases char_cases c with ⟨b,hb,hvalue,-⟩ | ⟨-,hlarge⟩
          · rw [hb]
            refine List.forall_mem_singleton.mpr ⟨fun h => hc ((eq_quote_iff hvalue).mp h),?_⟩
            rw [isDigit_eq hvalue]
            exact Bool.not_eq_true _ ▸ hd
          · exact fun b hb => (plain_of_large (hlarge b hb)).1
        rw [bytes_cons,stripped_text hplain,ih hle,bytes_cons]

theorem bytes_append (s t : GoString) : bytes (s ++ t) = bytes s ++ bytes t := List.flatMap_append

theorem bytes_eq_nil_iff {s : GoString} : bytes s = [] ↔ s = [] := by
  cases s with
  | nil => exact iff_of_true rfl rfl
  | cons c s => simp [bytes_cons,String.utf8EncodeChar_ne_nil]

theorem modifyHead_nil_append (ws : List GoString) : ws.modifyHead ([] ++ ·) = ws := by
  cases ws with
  | nil => rfl
  | cons w ws => rw [List.modifyHead_cons,List.nil_append]

theorem collect_bytes (w s : GoString) :
    collect (bytes w) (runes (bytes s)) =
      (((s.splitOnP ControlPlane.isSpace).modifyHead (w ++ ·)).filter (· ≠ [])).map bytes := by
  induction s generalizing w with
  | nil =>
    rw [bytes_nil,runes_nil,collect,List.splitOnP_nil,List.modifyHead_cons,List.append_nil]
    by_cases hw : w = []
    · simp [hw]
    · simp [hw,bytes_eq_nil_iff]
  | cons c s ih =>
    rw [bytes_cons,runes_char,collect,List.splitOnP_cons_eq_if_modifyHead]
    split_ifs with hc hw
    · rw [List.modifyHead_cons,bytes_eq_nil_iff.mp hw]
      have hnext := ih []
      rw [modifyHead_nil_append] at hnext
      simpa using hnext
    · have hnext := ih []
      rw [modifyHead_nil_append] at hnext
      rw [bytes_eq_nil_iff] at hw
      simpa [hw] using hnext
    · have hnext := ih (w ++ [c])
      rw [bytes_append,bytes_cons,bytes_nil,List.append_nil] at hnext
      rw [hnext,List.modifyHead_modifyHead]
      congr 4
      funext t
      simp

theorem fields_bytes (s : GoString) : fields (bytes s) = (Fingerprints.fields s).map bytes := by
  have hcollect := collect_bytes [] s
  rw [modifyHead_nil_append] at hcollect
  simpa [fields,Fingerprints.fields] using hcollect

theorem intercalate_bytes (ws : List GoString) :
    [0x20].intercalate (ws.map bytes) = bytes ([' '].intercalate ws) := by
  induction ws with
  | nil => rfl
  | cons w ws ih =>
    cases ws with
    | nil => simp
    | cons v ws =>
      rw [List.map_cons] at ih
      rw [List.map_cons,List.map_cons,List.intercalate_cons_cons,List.intercalate_cons_cons,ih,bytes_append,
        bytes_append]
      rfl

/-- On texts the bytes give the fingerprint that the characters give. -/
theorem fingerprint_bytes (query : GoString) : fingerprint (bytes query) = some (Fingerprints.fingerprint query) := by
  rw [fingerprint,stripLiterals_eq]
  simp only
  rw [stripped_bytes le_rfl,fields_bytes,intercalate_bytes,Fingerprints.fingerprint,Fingerprints.key,utf8_eq]

end Text

/-- A query keeps its fingerprint when its literals, its numbers and its white space are exchanged; the stripper comes
to an end on every query and leaves neither quotes nor digits, but the texts and one mark for each literal and each
number that no point follows. -/
theorem fingerprint_insensitive {ps ps' : List Piece} (h : Template ps) (h' : Template ps')
    (hsame : List.Forall₂ Piece.Replaces ps ps') :
    (∃ f, fingerprint (bytesOf ps) = some f ∧ fingerprint (bytesOf ps') = some f) ∧
      (ps.IsChain Parted → stripLiterals (bytesOf ps) = .done (ps.flatMap Piece.shown)) ∧
      ∀ s, ∃ out, stripLiterals s = .done out ∧ ∀ c ∈ out, c ≠ quote ∧ isDigit c = false := by
  refine ⟨⟨_,by rw [fingerprint,stripLiterals_eq],?_⟩,fun hparted => by rw [stripLiterals_eq,stripped_template h hparted],
    fun s => ⟨_,stripLiterals_eq s,plain_of_mem_stripped s⟩⟩
  have hfields := (respaced_stripped hsame h h').1.fields_eq []
  rw [fingerprint,stripLiterals_eq]
  simp only [List.nil_append] at hfields
  simp only [hfields]

/-- `a = 'it''s' AND b > 1` with other literals, another number and a line break. -/
theorem fingerprint_insensitive_condition :
    let ps := [Piece.text (bytes ['a',' ','=',' ']),.literal (bytes ['i','t','\'','s']),
      .text (bytes [' ','A','N','D',' ','b',' ','>',' ']),.numeral (bytes ['1'])]
    let ps' := [Piece.text (bytes ['a','\n','=',' ']),.literal (bytes ['2','\'','\'',';']),
      .text (bytes [' ','A','N','D',' ','b',' ','>',' ']),.numeral (bytes ['2','.','5'])]
    (∃ f, fingerprint (bytesOf ps) = some f ∧ fingerprint (bytesOf ps') = some f) ∧
      (ps.IsChain Parted → stripLiterals (bytesOf ps) = .done (ps.flatMap Piece.shown)) ∧
      ∀ s, ∃ out, stripLiterals s = .done out ∧ ∀ c ∈ out, c ≠ quote ∧ isDigit c = false := by
  have hblank : Blank (bytes [' ']) := ⟨[' '],List.forall_mem_singleton.mpr rfl,rfl⟩
  have hbreak : Blank (bytes ['\n']) := ⟨['\n'],List.forall_mem_singleton.mpr rfl,rfl⟩
  have hplain : ∀ {t : Bytes}, (t ≠ [] ∧ t.all fun c => c ≠ quote ∧ isDigit c = false) → (Piece.text t).Valid :=
    fun h => ⟨h.1,fun c hc => by simpa [Plain] using List.all_eq_true.mp h.2 c hc⟩
  have hkept : Respaced (bytes [' ','A','N','D',' ','b',' ','>',' ']) (bytes [' ','A','N','D',' ','b',' ','>',' ']) :=
    Respaced.refl _
  refine fingerprint_insensitive ⟨?_,by simp [Piece.isText]⟩ ⟨?_,by simp [Piece.isText]⟩ ?_
  · simp only [List.forall_mem_cons]
    exact ⟨hplain (by decide),trivial,hplain (by decide),⟨_,_,rfl,rfl,List.all_eq_true.mp rfl⟩,by simp⟩
  · simp only [List.forall_mem_cons]
    exact ⟨hplain (by decide),trivial,hplain (by decide),⟨_,_,rfl,rfl,List.all_eq_true.mp rfl⟩,by simp⟩
  · refine .cons (.text ?_) (.cons (.literal _ _) (.cons (.text hkept) (.cons (.numeral _ _) .nil)))
    have hgap := Respaced.blank hblank hbreak (by decide) (by decide) (.refl (bytes ['=',' ']))
    exact .keep _ hgap

end LiteralStripping
end Clearvoiance
