import Clearvoiance.JsonStrings

/-! Text as UTF-16 units and back.  Unpaired surrogates are replaced when a string is put on the wire,
so reading the units of a text gives the text, and prefixes and separators are found at the same
places in both forms. -/
namespace Clearvoiance
namespace JsonStrings

def readUnit (x : UInt16) : Char :=
  if isHigh x.toNat || isLow x.toNat then Char.ofNat replacement else Char.ofNat x.toNat

/-- The text of a JavaScript string as `TextEncoder` writes it. -/
def ofUtf16 : JsString → GoString
  | [] => []
  | [x] => [readUnit x]
  | x :: y :: t =>
    if isHigh x.toNat && isLow y.toNat then Char.ofNat (combine x.toNat y.toNat) :: ofUtf16 t
    else readUnit x :: ofUtf16 (y :: t)

@[simp] theorem utf16_nil : utf16 [] = [] := rfl

theorem utf16_cons (c : Char) (s : GoString) : utf16 (c :: s) = (units c.toNat).map UInt16.ofNat ++ utf16 s :=
  List.flatMap_cons

@[simp] theorem utf16_append (s t : GoString) : utf16 (s ++ t) = utf16 s ++ utf16 t := List.flatMap_append

theorem ofUtf16_cons {x : UInt16} (hx : isHigh x.toNat = false) (u : JsString) :
    ofUtf16 (x :: u) = readUnit x :: ofUtf16 u := by
  cases u with
  | nil => rfl
  | cons y u => rw [ofUtf16,hx]; rfl

theorem ofUtf16_units (c : Char) (u : JsString) :
    ofUtf16 ((units c.toNat).map UInt16.ofNat ++ u) = c :: ofUtf16 u := by
  rcases units_cases c with ⟨x,hu,hx,hhigh,hlow⟩ | ⟨x,y,hu,hback,hhigh,hlow⟩
  · rw [hu,List.singleton_append,ofUtf16_cons hhigh,readUnit,hhigh,hlow,hx,Char.ofNat_toNat]
    rfl
  · rw [hu,List.cons_append,List.singleton_append,ofUtf16,hhigh,hlow,hback,Char.ofNat_toNat]
    rfl

theorem ofUtf16_utf16_append (s : GoString) (u : JsString) : ofUtf16 (utf16 s ++ u) = s ++ ofUtf16 u := by
  induction s with
  | nil => rfl
  | cons c s ih => rw [utf16_cons,List.append_assoc,ofUtf16_units,ih,List.cons_append]

@[simp] theorem ofUtf16_utf16 (s : GoString) : ofUtf16 (utf16 s) = s := by
  have h := ofUtf16_utf16_append s []
  rwa [List.append_nil,ofUtf16,List.append_nil] at h

theorem utf16_injective : Function.Injective utf16 :=
  Function.LeftInverse.injective ofUtf16_utf16

@[simp] theorem utf16_eq_nil (s : GoString) : utf16 s = [] ↔ s = [] :=
  ⟨fun h => utf16_injective (h.trans utf16_nil.symm),fun h => by rw [h,utf16_nil]⟩

theorem utf16_prefix_iff (p s : GoString) : utf16 p <+: utf16 s ↔ p <+: s := by
  constructor
  · rintro ⟨t,ht⟩
    refine ⟨ofUtf16 t,?_⟩
    rw [← ofUtf16_utf16_append,ht,ofUtf16_utf16]
  · rintro ⟨t,rfl⟩
    exact ⟨utf16 t,(utf16_append p t).symm⟩

def Ascii (s : GoString) : Prop := ∀ c ∈ s, c.toNat < 0x80

instance (s : GoString) : Decidable (Ascii s) := List.decidableBAll (fun c : Char => c.toNat < 0x80) s

def unitOf (c : Char) : UInt16 := UInt16.ofNat c.toNat

theorem utf16_singleton {c : Char} (hc : c.toNat < 0x80) : utf16 [c] = [unitOf c] := by
  rw [utf16_cons,units,if_pos (by omega)]
  rfl

theorem utf16_ascii {s : GoString} (hs : Ascii s) : utf16 s = s.map unitOf := by
  induction s with
  | nil => rfl
  | cons c s ih =>
    have hc : c.toNat < 0x80 := hs c List.mem_cons_self
    have htail : Ascii s := fun d hd => hs d (List.mem_cons_of_mem _ hd)
    rw [← List.singleton_append,utf16_append,utf16_singleton hc,ih htail]
    rfl

theorem unitOf_toNat {c : Char} (hc : c.toNat < 0x80) : (unitOf c).toNat = c.toNat := by
  unfold unitOf
  rw [UInt16.toNat_ofNat']
  exact Nat.mod_eq_of_lt (by omega)

/-- Plain text is read behind any units, also behind a surrogate without its partner. -/
theorem ofUtf16_append_ascii (u : JsString) {a : GoString} (ha : Ascii a) :
    ofUtf16 (u ++ utf16 a) = ofUtf16 u ++ a := by
  induction u using ofUtf16.induct with
  | case1 => exact ofUtf16_utf16 a
  | case2 x =>
    cases a with
    | nil => simp
    | cons c a =>
      have hc : c.toNat < 0x80 := ha c List.mem_cons_self
      have hlow : isLow (unitOf c).toNat = false := by
        rw [unitOf_toNat hc]
        simp only [isLow,Bool.and_eq_false_iff,decide_eq_false_iff_not]
        omega
      have hunits : utf16 (c :: a) = unitOf c :: utf16 a := by
        rw [← List.singleton_append,utf16_append,utf16_singleton hc]
        rfl
      have hone : ofUtf16 [x] = [readUnit x] := rfl
      rw [hone,hunits,List.singleton_append,ofUtf16,hlow,Bool.and_false,if_neg (by decide),← hunits,ofUtf16_utf16]
      rfl
  | case3 x y t h ih => rw [List.cons_append,List.cons_append,ofUtf16,if_pos h,ih,ofUtf16,if_pos h,List.cons_append]
  | case4 x y t h ih =>
    rw [List.cons_append,List.cons_append,ofUtf16,if_neg h,← List.cons_append,ih,ofUtf16,if_neg h,List.cons_append]

theorem length_le_ofUtf16 (u : JsString) : u.length ≤ 2*(ofUtf16 u).length := by
  induction u using ofUtf16.induct with
  | case1 => simp
  | case2 x => simp [ofUtf16]
  | case3 x y t h ih =>
    rw [ofUtf16,if_pos h]
    simp only [List.length_cons]
    omega
  | case4 x y t h ih =>
    rw [ofUtf16,if_neg h]
    simp only [List.length_cons] at ih ⊢
    omega

theorem ofUtf16_take_append {u : JsString} {a : GoString} (ha : Ascii a) {n : ℕ} (hn : u.length ≤ n) :
    ofUtf16 ((u ++ utf16 a).take n) = ofUtf16 u ++ a.take (n-u.length) := by
  have htake : Ascii (a.take (n-u.length)) := fun c hc => ha c (List.mem_of_mem_take hc)
  rw [List.take_append,List.take_of_length_le hn,utf16_ascii ha,← List.map_take,← utf16_ascii htake,ofUtf16_append_ascii u htake]

/-- The unit of a plain character stands for this character only. -/
theorem mem_utf16_iff {d : Char} (hd : d.toNat < 0x80) (s : GoString) : unitOf d ∈ utf16 s ↔ d ∈ s := by
  have hunit := unitOf_toNat hd
  induction s with
  | nil => simp
  | cons c s ih =>
    rw [utf16_cons,List.mem_append,List.mem_cons]
    refine or_congr ?_ ih
    rcases units_cases c with ⟨x,hu,hx,-,-⟩ | ⟨x,y,hu,hback,hhigh,hlow⟩
    · rw [hu,List.mem_singleton]
      constructor
      · rintro rfl
        exact Char.toNat_inj.mp (hunit.symm.trans hx)
      · rintro rfl
        exact UInt16.toNat_inj.mp (hunit.trans hx.symm)
    · rw [hu]
      simp only [isHigh,isLow,Bool.and_eq_true,decide_eq_true_eq] at hhigh hlow
      unfold combine at hback
      constructor
      · intro h
        rcases List.mem_cons.mp h with rfl | h
        · omega
        · rw [List.mem_singleton] at h
          rw [← h] at hlow
          omega
      · rintro rfl
        omega

end JsonStrings
end Clearvoiance
