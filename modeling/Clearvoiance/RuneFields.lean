import Clearvoiance.ControlPlane
import Clearvoiance.Utf8Text

/-! The code points of a byte string as Go reads them, and its fields.  A byte that no valid sequence starts with
stands for a replacement of its own, so a sequence is never read across a byte that starts another one. -/
namespace Clearvoiance
namespace RuneFields

open Hex (Bytes)
open Utf8Text

def runeError : Char := Char.ofNat 0xFFFD

/-- How many bytes follow a leading byte, and the bounds of the first of them. -/
def trailers (b : ℕ) : Option (ℕ × ℕ × ℕ) :=
  if b < 0xC2 then none
  else if b < 0xE0 then some (1,0x80,0xBF)
  else if b = 0xE0 then some (2,0xA0,0xBF)
  else if b = 0xED then some (2,0x80,0x9F)
  else if b < 0xF0 then some (2,0x80,0xBF)
  else if b = 0xF0 then some (3,0x90,0xBF)
  else if b < 0xF4 then some (3,0x80,0xBF)
  else if b = 0xF4 then some (3,0x80,0x8F)
  else none

def accepts : ℕ → ℕ → ℕ → List ℕ → Bool
  | 0, _, _, _ => true
  | _+1, _, _, [] => false
  | n+1, lo, hi, b :: s => lo ≤ b && b ≤ hi && accepts n 0x80 0xBF s

/-- `utf8.DecodeRuneInString` of a byte and those after it: the code point, and how many of the latter it takes. -/
def decodeRune (b : ℕ) (s : List ℕ) : Char × ℕ :=
  if b < 0x80 then (Char.ofNat b,0)
  else
    match trailers b with
    | none => (runeError,0)
    | some (n,lo,hi) =>
      if accepts n lo hi s then (Char.ofNat ((s.take n).foldl (fun r c => r*0x40+c % 0x40) (b % 2^(6-n))),n)
      else (runeError,0)

def codes (s : Bytes) : List ℕ := s.map UInt8.toNat

/-- The code points of a string, each with its bytes. -/
def runes : Bytes → List (Char × Bytes)
  | [] => []
  | b :: s =>
    let r := decodeRune b.toNat (codes s)
    (r.1,b :: s.take r.2) :: runes (s.drop r.2)
termination_by s => s.length
decreasing_by
  simp only [List.length_drop,List.length_cons]
  omega

/-- `strings.FieldsFunc`; `field` is what has been read of a field. -/
def collect (field : Bytes) : List (Char × Bytes) → List Bytes
  | [] => if field = [] then [] else [field]
  | (c,bs) :: rest =>
    if ControlPlane.isSpace c then if field = [] then collect [] rest else field :: collect [] rest
    else collect (field ++ bs) rest

def fields (s : Bytes) : List Bytes := collect [] (runes s)

section Decoding

variable {n lo hi b : ℕ} {s t : List ℕ}

def Starts (s : List ℕ) : Prop := ∀ b ∈ s.head?, b < 0x80 ∨ 0xBF < b

theorem trailers_bounds (h : trailers b = some (n,lo,hi)) : 0x80 ≤ lo ∧ hi ≤ 0xBF := by
  unfold trailers at h
  split_ifs at h
  all_goals
    cases h
    exact ⟨by norm_num,by norm_num⟩

theorem trailers_two (h : 0xC2 ≤ b) (h' : b < 0xE0) : trailers b = some (1,0x80,0xBF) := by
  rw [trailers,if_neg (by omega),if_pos h']

/-- Only after the least leading byte are the short encodings refused, and only after `0xED` the surrogates. -/
theorem trailers_three (h : 0xE0 ≤ b) (h' : b < 0xF0) :
    ∃ lo hi, trailers b = some (2,lo,hi) ∧ (lo = 0x80 ∨ b = 0xE0 ∧ lo = 0xA0) ∧
      (hi = 0xBF ∨ b = 0xED ∧ hi = 0x9F) := by
  rw [trailers,if_neg (by omega),if_neg (by omega)]
  by_cases hleast : b = 0xE0
  · rw [if_pos hleast]
    exact ⟨_,_,rfl,.inr ⟨hleast,rfl⟩,.inl rfl⟩
  · rw [if_neg hleast]
    by_cases hsurrogate : b = 0xED
    · rw [if_pos hsurrogate]
      exact ⟨_,_,rfl,.inl rfl,.inr ⟨hsurrogate,rfl⟩⟩
    · rw [if_neg hsurrogate,if_pos h']
      exact ⟨_,_,rfl,.inl rfl,.inl rfl⟩

theorem trailers_four (h : 0xF0 ≤ b) (h' : b ≤ 0xF4) :
    ∃ lo hi, trailers b = some (3,lo,hi) ∧ (lo = 0x80 ∨ b = 0xF0 ∧ lo = 0x90) ∧
      (hi = 0xBF ∨ b = 0xF4 ∧ hi = 0x8F) := by
  rw [trailers,if_neg (by omega),if_neg (by omega),if_neg (by omega),if_neg (by omega),if_neg (by omega)]
  by_cases hleast : b = 0xF0
  · rw [if_pos hleast]
    exact ⟨_,_,rfl,.inr ⟨hleast,rfl⟩,.inl rfl⟩
  · rw [if_neg hleast]
    by_cases hlast : b = 0xF4
    · rw [if_neg (by omega),if_pos hlast]
      exact ⟨_,_,rfl,.inl rfl,.inr ⟨hlast,rfl⟩⟩
    · rw [if_pos (by omega)]
      exact ⟨_,_,rfl,.inl rfl,.inl rfl⟩

theorem length_of_accepts (h : accepts n lo hi s = true) : n ≤ s.length := by
  induction n generalizing lo hi s with
  | zero => exact Nat.zero_le _
  | succ n ih =>
    cases s with
    | nil => simp [accepts] at h
    | cons b s =>
      simp only [accepts,Bool.and_eq_true] at h
      exact Nat.succ_le_succ (ih h.2)

theorem accepts_append (ht : Starts t) (hlo : 0x80 ≤ lo) (hhi : hi ≤ 0xBF) :
    accepts n lo hi (s ++ t) = accepts n lo hi s := by
  induction n generalizing lo hi s with
  | zero => simp [accepts]
  | succ n ih =>
    cases s with
    | nil =>
      cases t with
      | nil => rfl
      | cons b t =>
        have hb := ht b rfl
        have hout : ¬ (lo ≤ b ∧ b ≤ hi) := by omega
        simp only [List.nil_append,accepts,Bool.and_eq_false_iff,decide_eq_false_iff_not]
        omega
    | cons b s => rw [List.cons_append,accepts,accepts,ih le_rfl le_rfl]

theorem decodeRune_length (b : ℕ) (s : List ℕ) : (decodeRune b s).2 ≤ s.length := by
  unfold decodeRune
  split_ifs
  · exact Nat.zero_le _
  · split
    · exact Nat.zero_le _
    · split_ifs with h
      · exact length_of_accepts h
      · exact Nat.zero_le _

/-- What starts a sequence of its own does not belong to the one before. -/
theorem decodeRune_append (ht : Starts t) (b : ℕ) (s : List ℕ) : decodeRune b (s ++ t) = decodeRune b s := by
  unfold decodeRune
  split_ifs
  · rfl
  · cases htrailers : trailers b with
    | none => rfl
    | some r =>
      obtain ⟨n,lo,hi⟩ := r
      obtain ⟨hlo,hhi⟩ := trailers_bounds htrailers
      simp only [accepts_append ht hlo hhi]
      split_ifs with h
      · rw [List.take_append_of_le_length (length_of_accepts h)]
      · rfl

theorem accepts_longer (h : accepts n lo hi s = true) (t : List ℕ) : accepts n lo hi (s ++ t) = true := by
  induction n generalizing lo hi s with
  | zero => simp [accepts]
  | succ n ih =>
    cases s with
    | nil => simp [accepts] at h
    | cons b s =>
      simp only [accepts,List.cons_append,Bool.and_eq_true] at h ⊢
      exact ⟨h.1,ih h.2⟩

theorem decodeRune_sequence (hb : 0x80 ≤ b) (htrailers : trailers b = some (n,lo,hi))
    (haccepts : accepts n lo hi s = true) (hn : s.length = n) (t : List ℕ) :
    decodeRune b (s ++ t) = (Char.ofNat (s.foldl (fun r c => r*0x40+c % 0x40) (b % 2^(6-n))),n) := by
  rw [decodeRune,if_neg (by omega),htrailers]
  subst hn
  simp only [accepts_longer haccepts,if_true,List.take_left]

/-- The bytes of a code point are read as the code point, whatever follows. -/
theorem decodeRune_char (c : Char) (t : List ℕ) :
    ∃ b s, encodeChar c = b :: s ∧ decodeRune b (s ++ t) = (c,s.length) := by
  have hlt := toNat_lt c
  have hsurrogate : c.toNat < 0xD800 ∨ 0xDFFF < c.toNat := by
    rcases c.valid with h | h
    · exact .inl h
    · exact .inr h.1
  have hchar : Char.ofNat c.toNat = c := Char.ofNat_toNat c
  unfold encodeChar encodePoint
  generalize c.toNat = n at hlt hsurrogate hchar
  split_ifs with h₁ h₂ h₃
  · refine ⟨_,_,rfl,?_⟩
    rw [decodeRune,if_pos h₁,hchar]
    rfl
  · refine ⟨_,_,rfl,?_⟩
    have htrailers : trailers (0xC0+n/0x40) = some (1,0x80,0xBF) := trailers_two (by omega) (by omega)
    have haccepts : accepts 1 0x80 0xBF [0x80+n % 0x40] = true := by
      simp only [accepts,Bool.and_true,Bool.and_eq_true,decide_eq_true_eq]
      omega
    rw [decodeRune_sequence (Nat.le_add_right_of_le (by norm_num)) htrailers haccepts rfl]
    simp only [List.foldl_cons,List.foldl_nil]
    rw [show (0xC0+n/0x40) % 2^(6-1)*0x40+(0x80+n % 0x40) % 0x40 = n by omega,hchar]
    rfl
  · refine ⟨_,_,rfl,?_⟩
    obtain ⟨lo,hi,htrailers,hlo,hhi⟩ := trailers_three (b := 0xE0+n/0x1000) (by omega) (by omega)
    have haccepts : accepts 2 lo hi [0x80+n/0x40 % 0x40,0x80+n % 0x40] = true := by
      simp only [accepts,Bool.and_true,Bool.and_eq_true,decide_eq_true_eq]
      omega
    rw [decodeRune_sequence (Nat.le_add_right_of_le (by norm_num)) htrailers haccepts rfl]
    simp only [List.foldl_cons,List.foldl_nil]
    rw [show ((0xE0+n/0x1000) % 2^(6-2)*0x40+(0x80+n/0x40 % 0x40) % 0x40)*0x40+(0x80+n % 0x40) % 0x40 = n by omega,
      hchar]
    rfl
  · refine ⟨_,_,rfl,?_⟩
    obtain ⟨lo,hi,htrailers,hlo,hhi⟩ := trailers_four (b := 0xF0+n/0x40000) (by omega) (by omega)
    have haccepts : accepts 3 lo hi [0x80+n/0x1000 % 0x40,0x80+n/0x40 % 0x40,0x80+n % 0x40] = true := by
      simp only [accepts,Bool.and_true,Bool.and_eq_true,decide_eq_true_eq]
      omega
    rw [decodeRune_sequence (Nat.le_add_right_of_le (by norm_num)) htrailers haccepts rfl]
    simp only [List.foldl_cons,List.foldl_nil]
    rw [show (((0xF0+n/0x40000) % 2^(6-3)*0x40+(0x80+n/0x1000 % 0x40) % 0x40)*0x40+
      (0x80+n/0x40 % 0x40) % 0x40)*0x40+(0x80+n % 0x40) % 0x40 = n by omega,hchar]
    rfl

end Decoding

section Runes

variable {s t : Bytes}

@[simp] theorem runes_nil : runes [] = [] := by rw [runes]

theorem runes_cons (b : UInt8) (s : Bytes) :
    runes (b :: s) = ((decodeRune b.toNat (codes s)).1,b :: s.take (decodeRune b.toNat (codes s)).2) ::
      runes (s.drop (decodeRune b.toNat (codes s)).2) := by rw [runes]

/-- Where a byte starts a sequence of its own, a string may be read in two parts. -/
theorem runes_append (ht : Starts (codes t)) (s : Bytes) : runes (s ++ t) = runes s ++ runes t := by
  induction s using runes.induct with
  | case1 => rw [runes_nil,List.nil_append,List.nil_append]
  | case2 b s r ih =>
    have hread : decodeRune b.toNat (codes (s ++ t)) = decodeRune b.toNat (codes s) := by
      rw [codes,List.map_append]
      exact decodeRune_append ht b.toNat (codes s)
    have hle : (decodeRune b.toNat (codes s)).2 ≤ s.length := by
      have := decodeRune_length b.toNat (codes s)
      rwa [codes,List.length_map] at this
    rw [List.cons_append,runes_cons,runes_cons,hread,List.take_append_of_le_length hle,
      List.drop_append_of_le_length hle,ih,List.cons_append]

/-- The bytes of a text are read as its characters, whatever follows. -/
theorem runes_char (c : Char) (t : Bytes) :
    runes (String.utf8EncodeChar c ++ t) = (c,String.utf8EncodeChar c) :: runes t := by
  have hcodes : codes (String.utf8EncodeChar c) = encodeChar c := utf8EncodeChar_toNat c
  cases hbytes : String.utf8EncodeChar c with
  | nil =>
    rw [hbytes] at hcodes
    exact absurd hcodes.symm (encodePoint_ne_nil c.toNat)
  | cons b s =>
    obtain ⟨b',s',hchar,hread⟩ := decodeRune_char c (codes t)
    rw [hbytes,hchar,codes,List.map_cons,List.cons.injEq] at hcodes
    obtain ⟨rfl,rfl⟩ := hcodes
    have hread' : decodeRune b.toNat (codes (s ++ t)) = (c,s.length) := by
      rw [List.length_map] at hread
      rw [codes,List.map_append]
      exact hread
    rw [List.cons_append,runes_cons,hread']
    simp

theorem starts_char (c : Char) (t : Bytes) : Starts (codes (String.utf8EncodeChar c ++ t)) := by
  have hcodes : codes (String.utf8EncodeChar c) = encodeChar c := utf8EncodeChar_toNat c
  have hlt := toNat_lt c
  rw [codes,List.map_append,show List.map UInt8.toNat (String.utf8EncodeChar c) = encodeChar c from hcodes]
  unfold encodeChar encodePoint
  split_ifs
  all_goals
    intro b hb
    simp only [List.cons_append,List.head?_cons,Option.mem_def,Option.some.injEq] at hb
    omega

end Runes

section Fields

variable {s t r : Bytes}

theorem collect_append {c : Char} (hc : ControlPlane.isSpace c = true) (field bs : Bytes)
    (xs ys : List (Char × Bytes)) :
    collect field (xs ++ (c,bs) :: ys) = collect field xs ++ collect [] ys := by
  induction xs generalizing field with
  | nil =>
    rw [List.nil_append,collect.eq_2,if_pos hc,collect.eq_1]
    split_ifs <;> rfl
  | cons x xs ih =>
    obtain ⟨d,ds⟩ := x
    rw [List.cons_append,collect,collect]
    split_ifs
    · exact ih []
    · rw [ih [],List.cons_append]
    · exact ih (field ++ ds)

def Blank (s : Bytes) : Prop :=
  ∃ cs : List Char, (∀ c ∈ cs, ControlPlane.isSpace c = true) ∧ s = cs.flatMap String.utf8EncodeChar

theorem fields_space {c : Char} (hc : ControlPlane.isSpace c = true) (s t : Bytes) :
    fields (s ++ (String.utf8EncodeChar c ++ t)) = fields s ++ fields t := by
  rw [fields,runes_append (starts_char c t),runes_char,collect_append hc]
  rfl

theorem fields_blank (hr : Blank r) (hne : r ≠ []) (s t : Bytes) : fields (s ++ (r ++ t)) = fields s ++ fields t := by
  obtain ⟨cs,hcs,rfl⟩ := hr
  cases cs with
  | nil => exact absurd rfl hne
  | cons c cs =>
    obtain ⟨hc,hrest⟩ := List.forall_mem_cons.mp hcs
    rw [List.flatMap_cons,List.append_assoc,fields_space hc]
    congr 1
    clear hne hcs
    induction cs with
    | nil => rfl
    | cons d cs ih =>
      obtain ⟨hd,hrest⟩ := List.forall_mem_cons.mp hrest
      have hnone : fields [] = [] := by rw [fields,runes_nil,collect,if_pos rfl]
      have hskip := fields_space hd [] (cs.flatMap String.utf8EncodeChar ++ t)
      rw [List.nil_append,hnone,List.nil_append] at hskip
      rw [List.flatMap_cons,List.append_assoc,hskip,ih hrest]

end Fields

end RuneFields
end Clearvoiance
