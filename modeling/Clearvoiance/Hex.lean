import Mathlib.Tactic

/-! Byte strings: their lower-case hexadecimal text, the UTF-8 bytes of a string, and texts that are
joined by a bar. -/
namespace Clearvoiance
namespace Hex

abbrev Bytes := List UInt8

def digit (n : ℕ) : Char :=
  if n < 10 then Char.ofNat (48+n) else Char.ofNat (87+n)

def byteDigits (b : UInt8) : List Char := [digit (b.toNat/16),digit (b.toNat%16)]

def encodeToString (bs : Bytes) : List Char := bs.flatMap byteDigits

/-- `Buffer.from` of a string, and the bytes of a Go string. -/
def utf8 (s : String) : Bytes := s.toUTF8.data.toList

theorem utf8_injective : Function.Injective utf8 := by
  intro s t h
  apply String.toByteArray_inj.mp
  apply ByteArray.ext
  exact Array.toList_inj.mp h

@[simp] theorem utf8_eq_nil (s : String) : utf8 s = [] ↔ s = "" :=
  ⟨fun h => utf8_injective h,fun h => by rw [h]; rfl⟩

theorem digit_injective : ∀ m < 16, ∀ n < 16, digit m = digit n → m = n := by decide

theorem byteDigits_injective {a b : UInt8} (h : byteDigits a = byteDigits b) : a = b := by
  have ha := a.toNat_lt
  have hb := b.toNat_lt
  simp only [byteDigits,List.cons.injEq,and_true] at h
  have hd := digit_injective _ (by omega) _ (by omega) h.1
  have hm := digit_injective _ (by omega) _ (by omega) h.2
  apply UInt8.toNat_inj.mp
  omega

@[simp] theorem encodeToString_length (bs : Bytes) : (encodeToString bs).length = 2*bs.length := by
  induction bs with
  | nil => rfl
  | cons b bs ih => simp only [encodeToString,List.flatMap_cons,List.length_append] at ih ⊢
                    simp only [ih,byteDigits,List.length_cons,List.length_nil]; omega

theorem of_mem_encodeToString {P : Char → Prop} (hP : ∀ n < 16, P (digit n)) {bs : Bytes} {c : Char}
    (hc : c ∈ encodeToString bs) : P c := by
  obtain ⟨b,-,hb⟩ := List.mem_flatMap.mp hc
  have hlt := b.toNat_lt
  simp only [byteDigits,List.mem_cons,List.not_mem_nil,or_false] at hb
  rcases hb with rfl | rfl
  · exact hP _ (by omega)
  · exact hP _ (by omega)

theorem ne_of_mem_encodeToString {bs : Bytes} {c : Char} (hc : c ∈ encodeToString bs) : c ≠ '|' :=
  of_mem_encodeToString (P := (· ≠ '|')) (by decide) hc

theorem encodeToString_injective : Function.Injective encodeToString := by
  intro as bs
  induction as generalizing bs with
  | nil => cases bs <;> simp [encodeToString,byteDigits]
  | cons a as ih =>
    cases bs with
    | nil => simp [encodeToString,byteDigits]
    | cons b bs =>
      intro h
      obtain ⟨hd,ht⟩ := List.append_inj (h : byteDigits a ++ encodeToString as =
        byteDigits b ++ encodeToString bs) rfl
      rw [byteDigits_injective hd,ih ht]

/-- A text in front of a separator ends at the first one. -/
theorem divide_at {d : Char} {t : List Char} (h : d ∉ t) (r : List Char) :
    (t ++ d :: r).takeWhile (· ≠ d) = t ∧ (t ++ d :: r).dropWhile (· ≠ d) = d :: r := by
  have hall : ∀ c ∈ t, decide (c ≠ d) = true := by
    intro c hc
    rw [decide_eq_true_eq]
    rintro rfl
    exact h hc
  rw [List.takeWhile_append_of_pos hall,List.dropWhile_append_of_pos hall]
  simp

/-- The part before the first separator can be told from a joined text. -/
theorem separator_append_inj {d : Char} {a b s t : List Char} (ha : d ∉ a) (hb : d ∉ b)
    (h : a ++ d :: s = b ++ d :: t) : a = b ∧ s = t := by
  obtain ⟨hta,hda⟩ := divide_at ha s
  obtain ⟨htb,hdb⟩ := divide_at hb t
  rw [h] at hta hda
  rw [htb] at hta
  rw [hdb] at hda
  exact ⟨hta.symm,(List.cons.inj hda).2.symm⟩

/-- The part behind the last separator can be told from a joined text. -/
theorem append_separator_inj {d : Char} {a b s t : List Char} (hs : d ∉ s) (ht : d ∉ t)
    (h : a ++ d :: s = b ++ d :: t) : a = b ∧ s = t := by
  have hrev : s.reverse ++ d :: a.reverse = t.reverse ++ d :: b.reverse := by
    simpa using congrArg List.reverse h
  obtain ⟨hst,hab⟩ := separator_append_inj (by simpa using hs) (by simpa using ht) hrev
  exact ⟨List.reverse_injective hab,List.reverse_injective hst⟩

end Hex
end Clearvoiance
