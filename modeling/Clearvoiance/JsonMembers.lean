import Clearvoiance.JsonFrame
import Clearvoiance.Utf8Text

/-! Members of an object that are left out, and documents whose numbers are all of one kind.  A key that is read as
ASCII text is that text: what is replaced or escaped is read as something else. -/
namespace Clearvoiance
namespace Json

section Without

variable {σ τ ν μ : Type}

def without (p : σ → Bool) (ms : List (σ × Json σ ν)) : List (σ × Json σ ν) := ms.filter fun m => !p m.1

theorem without_cons (p : σ → Bool) (m : σ × Json σ ν) (ms : List (σ × Json σ ν)) :
    without p (m :: ms) = if p m.1 then without p ms else m :: without p ms := by
  rw [without,List.filter_cons]
  cases p m.1 <;> rfl

theorem mapMembers_without {f : σ → τ} {p : σ → Bool} {q : τ → Bool} (hf : ∀ k, q (f k) = p k) (g : ν → μ)
    (ms : List (σ × Json σ ν)) : mapMembers f g (without p ms) = without q (mapMembers f g ms) := by
  rw [mapMembers_eq,mapMembers_eq,without,without,List.filter_map]
  congr 1
  refine List.filter_congr fun m _ => ?_
  simp [hf]

theorem alike_without {rs : σ → τ → Prop} {rn : ν → μ → Prop} {p : σ → Bool} {q : τ → Bool}
    (hkeys : ∀ k l, rs k l → p k = q l) {ms : List (σ × Json σ ν)} {ns : List (τ × Json τ μ)}
    (h : Alike rs rn (.obj ms) (.obj ns)) : Alike rs rn (.obj (without p ms)) (.obj (without q ns)) := by
  rw [Alike,alikeMembers_iff] at h ⊢
  induction h with
  | nil => exact .nil
  | @cons m n ms ns hmn _ ih =>
    rw [without_cons,without_cons,hkeys m.1 n.1 hmn.1]
    split_ifs
    · exact ih
    · exact .cons hmn ih

variable [DecidableEq σ]

theorem lookup_without (p : σ → Bool) (k : σ) (ms : List (σ × Json σ ν)) :
    lookup k (without p ms) = if p k then none else lookup k ms := by
  induction ms with
  | nil => simp [without,lookup]
  | cons m ms ih =>
    obtain ⟨l,v⟩ := m
    rw [without_cons,lookup]
    by_cases hl : l = k
    · subst hl
      by_cases hp : p l = true
      · rw [if_pos hp,ih,if_pos hp,if_pos hp]
      · rw [if_neg hp,lookup,ih,if_neg hp,if_neg hp]
    · by_cases hp : p l = true
      · simp [hp,hl,ih]
      · rw [if_neg hp,lookup,ih]
        simp [hl]

/-- Objects that agree still do so without some of their members. -/
theorem framed_without (p : σ → Bool) {ms ns : List (σ × Json σ ν)} (h : Framed [] (.obj ms) (.obj ns)) :
    Framed [] (.obj (without p ms)) (.obj (without p ns)) := by
  cases h with
  | listed h => cases h
  | obj hkeys hvalues =>
    refine .obj (fun k => ?_) fun k v w hv hw => ?_
    · rw [lookup_without,lookup_without]
      split_ifs
      · rfl
      · exact hkeys k
    · rw [lookup_without] at hv hw
      split_ifs at hv hw with hk
      exact hvalues k v w hv hw

theorem without_replaced {p : σ → Bool} {k : σ} (hk : p k = true) (ms : List (σ × Json σ ν)) (v : Json σ ν) :
    without p (ms.filter (·.1 ≠ k) ++ [(k,v)]) = without p ms := by
  simp only [without,List.filter_append,List.filter_filter]
  have hlast : [(k,v)].filter (fun m => !p m.1) = [] := by simp [hk]
  rw [hlast,List.append_nil]
  refine List.filter_congr fun m _ => ?_
  by_cases hm : m.1 = k
  · simp [hm,hk]
  · simp [hm]

end Without

section Numeric

variable {σ τ ν μ : Type}

/-- Every number of a document is of a kind. -/
inductive Numeric (N : ν → Prop) : Json σ ν → Prop
  | null : Numeric N .null
  | bool (b : Bool) : Numeric N (.bool b)
  | num {x : ν} (h : N x) : Numeric N (.num x)
  | str (s : σ) : Numeric N (.str s)
  | arr {vs : List (Json σ ν)} (h : ∀ v ∈ vs, Numeric N v) : Numeric N (.arr vs)
  | obj {ms : List (σ × Json σ ν)} (h : ∀ m ∈ ms, Numeric N m.2) : Numeric N (.obj ms)

theorem isSome_convertList_iff (f : σ → τ) (g : ν → Option (Json τ μ)) (vs : List (Json σ ν)) :
    (convertList f g vs).isSome = true ↔ ∀ v ∈ vs, (convert f g v).isSome = true := by
  induction vs with
  | nil => simp [convertList]
  | cons v vs ih =>
    rw [convertList,List.forall_mem_cons,← ih]
    cases convert f g v <;> cases convertList f g vs <;> simp

theorem isSome_convertMembers_iff (f : σ → τ) (g : ν → Option (Json τ μ)) (ms : List (σ × Json σ ν)) :
    (convertMembers f g ms).isSome = true ↔ ∀ m ∈ ms, (convert f g m.2).isSome = true := by
  induction ms with
  | nil => simp [convertMembers]
  | cons m ms ih =>
    obtain ⟨k,v⟩ := m
    rw [convertMembers,List.forall_mem_cons,← ih]
    cases convert f g v <;> cases convertMembers f g ms <;> simp

theorem isSome_convert_iff (f : σ → τ) (g : ν → Option (Json τ μ)) (v : Json σ ν) :
    (convert f g v).isSome = true ↔ Numeric (fun x => (g x).isSome = true) v := by
  induction v using induction with
  | null => exact iff_of_true rfl .null
  | bool b => exact iff_of_true rfl (.bool b)
  | num x =>
    rw [convert]
    constructor
    · exact fun h => .num h
    · intro h
      cases h with
      | num h => exact h
  | str s => exact iff_of_true rfl (.str s)
  | arr vs ih =>
    rw [convert,Option.isSome_map,isSome_convertList_iff]
    constructor
    · exact fun h => .arr fun v hv => (ih v hv).mp (h v hv)
    · intro h v hv
      cases h with
      | arr h => exact (ih v hv).mpr (h v hv)
  | obj ms ih =>
    rw [convert,Option.isSome_map,isSome_convertMembers_iff]
    constructor
    · exact fun h => .obj fun m hm => (ih m hm).mp (h m hm)
    · intro h m hm
      cases h with
      | obj h => exact (ih m hm).mpr (h m hm)

end Numeric

section Keys

open JsonStrings Utf8Text

/-- A decoder within a sequence whose code point will not be ASCII. -/
structure Unfinished (s : Utf8State) : Prop where
  needed : 0 < s.needed
  seen : 0 < s.seen
  lower : 0x80 ≤ s.lower
  point : 2 ≤ 64*s.point+(s.lower-0x80)
  last : s.needed = 1 → 0x80 ≤ 64*s.point+(s.lower-0x80)

theorem startByte_cases (b : ℕ) :
    startByte b = ([b],idle) ∧ b < 0x80 ∨ startByte b = ([replacement],idle) ∨
      (startByte b).1 = [] ∧ Unfinished (startByte b).2 := by
  unfold startByte
  split_ifs with h₁ h₂ h₃ h₄ h₅ h₆
  all_goals first
    | exact .inl ⟨rfl,h₁⟩
    | exact .inr (.inl rfl)
    | refine .inr (.inr ⟨rfl,?_⟩); constructor <;> (try simp only) <;> omega

theorem replacement_large : 0x80 ≤ replacement := by decide

theorem nextByte_unfinished {s : Utf8State} (hs : Unfinished s) (b : ℕ) :
    (∃ n ∈ (nextByte id s b).1, 0x80 ≤ n) ∨ Unfinished (nextByte id s b).2 := by
  have hneeded := hs.needed
  have hlower := hs.lower
  unfold nextByte
  rw [if_neg hneeded.ne']
  split_ifs with hrange hone
  · have := hs.last hone
    exact .inl ⟨_,List.mem_singleton_self _,by omega⟩
  · have := hs.point
    refine .inr ⟨?_,?_,?_,?_,?_⟩ <;> simp only <;> omega
  · refine .inl ⟨replacement,List.mem_append_left _ ?_,replacement_large⟩
    rw [flush,if_neg hneeded.ne',id]
    exact List.mem_replicate.mpr ⟨hs.seen.ne',rfl⟩

/-- What is read of a sequence that has been started, or of an escaped high surrogate, is not all ASCII. -/
theorem unquote_large {s : Utf8State} (hi : Option ℕ) (h : Unfinished s ∨ hi.isSome = true) (items : List Item) :
    ∃ n ∈ unquote s hi items, 0x80 ≤ n := by
  have hbroken : replacement ∈ flush id s ++ lone hi := by
    rcases h with hs | hhi
    · refine List.mem_append_left _ ?_
      rw [flush,if_neg hs.needed.ne',id]
      exact List.mem_replicate.mpr ⟨hs.seen.ne',rfl⟩
    · refine List.mem_append_right _ ?_
      rw [lone,if_pos hhi]
      exact List.mem_singleton_self _
  induction items generalizing s hi with
  | nil => exact ⟨replacement,by rw [unquote]; exact hbroken,replacement_large⟩
  | cons i t ih =>
    cases i with
    | raw b =>
      rw [unquote]
      rcases h with hs | hhi
      · rcases nextByte_unfinished hs b with ⟨n,hn,hlarge⟩ | hnext
        · exact ⟨n,List.mem_append_left _ (List.mem_append_right _ hn),hlarge⟩
        · have hflush : replacement ∈ flush id (nextByte id s b).2 ++ lone none := by
            rw [flush,if_neg hnext.needed.ne',id]
            exact List.mem_append_left _ (List.mem_replicate.mpr ⟨hnext.seen.ne',rfl⟩)
          obtain ⟨n,hn,hlarge⟩ := ih _ (.inl hnext) hflush
          exact ⟨n,List.mem_append_right _ hn,hlarge⟩
      · refine ⟨replacement,List.mem_append_left _ (List.mem_append_left _ ?_),replacement_large⟩
        rw [lone,if_pos hhi]
        exact List.mem_singleton_self _
    | esc n =>
      rw [unquote]
      by_cases hpair : (hi.isSome && isLow n) = true
      · rw [if_pos hpair]
        have hlarge : 0x80 ≤ 0x10000 := by norm_num
        exact ⟨_,List.mem_cons_self,hlarge.trans ((Nat.le_add_right _ _).trans (Nat.le_add_right _ _))⟩
      · rw [if_neg hpair]
        exact ⟨replacement,List.mem_append_left _ hbroken,replacement_large⟩

theorem exactString_plain {n : ℕ} (hn : isHigh n = false) (t : List Item) :
    exactString (.esc n :: t) = encodePoint n ++ exactString t := by
  cases t with
  | nil => simp [exactString]
  | cons i t =>
    cases i with
    | raw b => simp [exactString]
    | esc lo => rw [exactString,hn,Bool.false_and,if_neg Bool.false_ne_true]

/-- A literal that is read as ASCII text is the text. -/
theorem exact_of_unquote {items : List Item} (h : ∀ n ∈ unquote idle none items, n < 0x80) :
    exactString items = unquote idle none items := by
  induction items with
  | nil => rfl
  | cons i t ih =>
    cases i with
    | raw b =>
      have hread : unquote idle none (.raw b :: t) = (startByte b).1 ++ unquote (startByte b).2 none t := rfl
      rw [hread] at h ⊢
      rcases startByte_cases b with ⟨hb,-⟩ | hb | ⟨-,hb⟩
      · rw [hb] at h ⊢
        rw [exactString,ih fun n hn => h n (List.mem_append_right _ hn)]
        rfl
      · rw [hb] at h
        exact absurd (h replacement List.mem_cons_self) (not_lt.mpr replacement_large)
      · obtain ⟨n,hn,hlarge⟩ := unquote_large none (.inl hb) t
        exact absurd (h n (List.mem_append_right _ hn)) (not_lt.mpr hlarge)
    | esc n =>
      have hread : unquote idle none (.esc n :: t) = if isHigh n then unquote idle (some n) t
          else (if isLow n then replacement else n) :: unquote idle none t := rfl
      rw [hread] at h ⊢
      split_ifs at h ⊢ with hhigh hlow
      · obtain ⟨m,hm,hlarge⟩ := unquote_large (s := idle) (some n) (.inr rfl) t
        exact absurd (h m hm) (not_lt.mpr hlarge)
      · exact absurd (h replacement List.mem_cons_self) (not_lt.mpr replacement_large)
      · obtain ⟨hn,hrest⟩ := List.forall_mem_cons.mp h
        rw [exactString_plain (Bool.not_eq_true _ ▸ hhigh),encodePoint_plain hn,ih hrest]
        rfl

theorem toNat_of_ofNat {n : ℕ} {c : Char} (h : Char.ofNat n = c) (hc : c.toNat ≠ 0) : c.toNat = n := by
  by_cases hn : n.isValidChar
  · rw [← h]
    exact (toNat_ofNat_of_valid hn)
  · exfalso
    apply hc
    rw [← h,Char.ofNat,dif_neg hn]
    rfl

theorem exact_of_goString {items : List Item} {s : GoString} (hs : ∀ c ∈ s, c.toNat < 0x80 ∧ c.toNat ≠ 0)
    (h : goString items = s) : exactString items = encode s := by
  have hread : unquote idle none items = s.map Char.toNat := by
    rw [← h,goString,List.map_map]
    conv_lhs => rw [← List.map_id (unquote idle none items)]
    refine List.map_congr_left fun n hn => ?_
    have hc := hs (Char.ofNat n) (by rw [← h]; exact List.mem_map_of_mem hn)
    exact (toNat_of_ofNat rfl hc.2).symm
  have hsmall : ∀ n ∈ unquote idle none items, n < 0x80 := by
    rw [hread]
    intro n hn
    obtain ⟨c,hc,rfl⟩ := List.mem_map.mp hn
    exact (hs c hc).1
  rw [exact_of_unquote hsmall,hread,encode]
  clear h hread hsmall
  induction s with
  | nil => rfl
  | cons c s ih =>
    obtain ⟨hc,hrest⟩ := List.forall_mem_cons.mp hs
    rw [List.map_cons,List.flatMap_cons,ih hrest,encodeChar,encodePoint_plain hc.1]
    rfl

end Keys

end Json
end Clearvoiance
