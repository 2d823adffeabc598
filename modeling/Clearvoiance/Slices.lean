import Mathlib.Tactic

/-! Slices that start at the front of their backing array.  An array belongs to as many slices as refer to it; what is
written through one of them is read through the others. -/
namespace Clearvoiance
namespace Slices

variable {α : Type}

/-- The backing arrays in the order in which they were allocated. -/
abbrev Heap (α : Type) := List (List α)

structure Slice where
  array : ℕ
  len : ℕ
  cap : ℕ
  deriving DecidableEq

def Slice.nil : Slice := ⟨0,0,0⟩

def Heap.cells (h : Heap α) (a : ℕ) : List α := h[a]?.getD []

def Heap.write (h : Heap α) (a i : ℕ) (x : α) : Heap α := h.modify a (·.set i x)

/-- The element at an index; `none` stands for an index out of range. -/
def read (h : Heap α) (s : Slice) (i : ℕ) : Option α := if i < s.len then (h.cells s.array)[i]? else none

def elements (h : Heap α) (s : Slice) : List α := (h.cells s.array).take s.len

/-- A new array with room for `extra` further elements, which hold the zero value. -/
def alloc [Inhabited α] (extra : ℕ) (h : Heap α) (xs : List α) : Heap α × Slice :=
  (h ++ [xs ++ List.replicate extra default],⟨h.length,xs.length,xs.length+extra⟩)

/-- The built-in `append` of one element; `extra` is how far the new capacity exceeds what is needed. -/
def append [Inhabited α] (extra : ℕ) (h : Heap α) (s : Slice) (x : α) : Heap α × Slice :=
  if s.len < s.cap then (h.write s.array s.len x,{ s with len := s.len+1 })
  else alloc extra h (elements h s ++ [x])

/-- `append` of all elements to the slice without an array. -/
def clone [Inhabited α] (extra : ℕ) (h : Heap α) (s : Slice) : Heap α × Slice :=
  if s.len = 0 then (h,.nil) else alloc extra h (elements h s)

/-- The loop of a filter: it reads the elements from index `i` on and appends those to keep to `out`. -/
def filterFrom [Inhabited α] (keep : α → Bool) (s : Slice) : ℕ → ℕ → Heap α → Slice → Option (Heap α × Slice)
  | 0, _, h, out => some (h,out)
  | n+1, i, h, out =>
    match read h s i with
    | none => none
    | some x =>
      if keep x then
        let r := append 0 h out x
        filterFrom keep s n (i+1) r.1 r.2
      else filterFrom keep s n (i+1) h out

/-- The filter that appends to the empty slice of the same array. -/
def filterInPlace [Inhabited α] (keep : α → Bool) (h : Heap α) (s : Slice) : Option (Heap α × Slice) :=
  filterFrom keep s s.len 0 h { s with len := 0 }

/-- The array has the cells that the slice counts on. -/
structure Valid (h : Heap α) (s : Slice) : Prop where
  len_le : s.len ≤ s.cap
  cap_le : s.cap ≤ (h.cells s.array).length

/-- Writing through one of the slices does not show in the other. -/
def Apart (s t : Slice) : Prop := s.cap = 0 ∨ t.cap = 0 ∨ s.array ≠ t.array

theorem Apart.symm {s t : Slice} (h : Apart s t) : Apart t s := by
  rcases h with h | h | h
  · exact .inr (.inl h)
  · exact .inl h
  · exact .inr (.inr h.symm)

theorem apart_nil (s : Slice) : Apart s .nil := .inr (.inl rfl)

theorem valid_nil (h : Heap α) : Valid h .nil := ⟨le_rfl,Nat.zero_le _⟩

@[simp] theorem elements_nil (h : Heap α) : elements h .nil = [] := List.take_zero

theorem Valid.length_elements {h : Heap α} {s : Slice} (hs : Valid h s) : (elements h s).length = s.len := by
  rw [elements,List.length_take,Nat.min_eq_left (hs.len_le.trans hs.cap_le)]

theorem Valid.allocated {h : Heap α} {s : Slice} (hs : Valid h s) (hcap : 0 < s.cap) : s.array < h.length := by
  by_contra hge
  have hcells := hs.cap_le
  rw [Heap.cells,List.getElem?_eq_none (not_lt.mp hge)] at hcells
  exact absurd hcells (not_le.mpr hcap)

theorem read_eq (h : Heap α) (s : Slice) (i : ℕ) : read h s i = (elements h s)[i]? := by
  rw [read,elements,List.getElem?_take]

/-- What stays true of the slices that are apart from the one that is written through. -/
structure Frame (h : Heap α) (s : Slice) (h' : Heap α) (s' : Slice) : Prop where
  valid : ∀ t, Valid h t → Apart t s → Valid h' t
  elements : ∀ t, Valid h t → Apart t s → elements h' t = elements h t
  apart : ∀ t, Valid h t → Apart t s → Apart t s'

theorem Frame.refl (h : Heap α) (s : Slice) : Frame h s h s := ⟨fun _ ht _ => ht,fun _ _ _ => rfl,fun _ _ ha => ha⟩

theorem Frame.trans {h h' h'' : Heap α} {s s' s'' : Slice} (hf : Frame h s h' s') (hf' : Frame h' s' h'' s'') :
    Frame h s h'' s'' where
  valid t ht ha := hf'.valid t (hf.valid t ht ha) (hf.apart t ht ha)
  elements t ht ha := (hf'.elements t (hf.valid t ht ha) (hf.apart t ht ha)).trans (hf.elements t ht ha)
  apart t ht ha := hf'.apart t (hf.valid t ht ha) (hf.apart t ht ha)

section Write

variable {h : Heap α} {s : Slice} {i : ℕ} {x : α}

theorem cells_write (h : Heap α) {a : ℕ} (ha : a < h.length) (i : ℕ) (x : α) :
    (h.write a i x).cells a = (h.cells a).set i x := by
  rw [Heap.cells,Heap.cells,Heap.write,List.getElem?_modify_eq,List.getElem?_eq_getElem ha]
  rfl

theorem cells_write_ne (h : Heap α) {a b : ℕ} (hab : a ≠ b) (i : ℕ) (x : α) :
    (h.write a i x).cells b = h.cells b := by
  rw [Heap.cells,Heap.cells,Heap.write,List.getElem?_modify_ne (h := hab)]

theorem length_cells_write (h : Heap α) (a b i : ℕ) (x : α) :
    ((h.write a i x).cells b).length = (h.cells b).length := by
  by_cases hab : a = b
  · subst hab
    by_cases ha : a < h.length
    · rw [cells_write h ha,List.length_set]
    · have hnone : h.length ≤ a := not_lt.mp ha
      have hnone' : (h.modify a (·.set i x)).length ≤ a := by rwa [List.length_modify]
      rw [Heap.cells,Heap.cells,Heap.write,List.getElem?_eq_none hnone',List.getElem?_eq_none hnone]
  · rw [cells_write_ne h hab]

theorem valid_write {t : Slice} (ht : Valid h t) (a i : ℕ) (x : α) : Valid (h.write a i x) t :=
  ⟨ht.len_le,by rw [length_cells_write]; exact ht.cap_le⟩

/-- Writing to a slice's array does not reach the slices that are apart from it. -/
theorem frame_write (hs : s.len < s.cap) (i : ℕ) (x : α) (n : ℕ) :
    Frame h s (h.write s.array i x) { s with len := n } where
  valid t ht _ := valid_write ht _ _ _
  elements t ht ha := by
    rcases ha with ha | ha | ha
    · have hlen : t.len = 0 := Nat.le_zero.mp (ha ▸ ht.len_le)
      rw [elements,elements,hlen,List.take_zero,List.take_zero]
    · omega
    · rw [elements,elements,cells_write_ne h ha.symm]
  apart t _ ha := ha

end Write

section Alloc

variable [Inhabited α] {h : Heap α} {s t : Slice} {extra : ℕ} {xs : List α}

theorem cells_alloc_of_lt {a : ℕ} (ha : a < h.length) : (alloc extra h xs).1.cells a = h.cells a := by
  rw [Heap.cells,Heap.cells,alloc,List.getElem?_append_left ha]

theorem cells_alloc : (alloc extra h xs).1.cells h.length = xs ++ List.replicate extra default := by
  simp [Heap.cells,alloc]

theorem valid_alloc : Valid (alloc extra h xs).1 (alloc extra h xs).2 :=
  ⟨Nat.le_add_right _ _,by rw [show (alloc extra h xs).2.array = h.length from rfl,cells_alloc]; simp [alloc]⟩

@[simp] theorem elements_alloc : elements (alloc extra h xs).1 (alloc extra h xs).2 = xs := by
  rw [elements,show (alloc extra h xs).2.array = h.length from rfl,cells_alloc]
  exact List.take_left

/-- A new array belongs to no slice that was there before. -/
theorem alloc_keeps (ht : Valid h t) :
    Valid (alloc extra h xs).1 t ∧ elements (alloc extra h xs).1 t = elements h t ∧ Apart t (alloc extra h xs).2 := by
  rcases Nat.eq_zero_or_pos t.cap with hcap | hcap
  · have hlen : t.len = 0 := Nat.le_zero.mp (hcap ▸ ht.len_le)
    refine ⟨⟨ht.len_le,hcap ▸ Nat.zero_le _⟩,?_,.inl hcap⟩
    rw [elements,elements,hlen,List.take_zero,List.take_zero]
  · have hlt := ht.allocated hcap
    have hcells : (alloc extra h xs).1.cells t.array = h.cells t.array := cells_alloc_of_lt hlt
    refine ⟨⟨ht.len_le,by rw [hcells]; exact ht.cap_le⟩,?_,.inr (.inr hlt.ne)⟩
    rw [elements,elements,hcells]

end Alloc

section Operations

variable [Inhabited α] {h : Heap α} {s : Slice}

theorem append_spec (extra : ℕ) (hs : Valid h s) (x : α) :
    Valid (append extra h s x).1 (append extra h s x).2 ∧
      elements (append extra h s x).1 (append extra h s x).2 = elements h s ++ [x] ∧
      Frame h s (append extra h s x).1 (append extra h s x).2 := by
  unfold append
  split_ifs with hroom
  · have ha := hs.allocated (Nat.zero_lt_of_lt hroom)
    refine ⟨⟨hroom,(valid_write hs _ _ _).cap_le⟩,?_,frame_write hroom _ _ _⟩
    rw [elements,elements,cells_write h ha,List.take_add_one,List.take_set_of_le le_rfl,
      List.getElem?_set_self (hroom.trans_le hs.cap_le)]
    rfl
  · exact ⟨valid_alloc,elements_alloc,fun _ ht _ => (alloc_keeps ht).1,fun _ ht _ => (alloc_keeps ht).2.1,
      fun _ ht _ => (alloc_keeps ht).2.2⟩

/-- A copy is apart from every slice that was there before, and changes none of them. -/
theorem clone_spec (extra : ℕ) (h : Heap α) (s : Slice) :
    Valid (clone extra h s).1 (clone extra h s).2 ∧
      elements (clone extra h s).1 (clone extra h s).2 = elements h s ∧
      ∀ t, Valid h t → Valid (clone extra h s).1 t ∧ elements (clone extra h s).1 t = elements h t ∧
        Apart t (clone extra h s).2 := by
  unfold clone
  split_ifs with hlen
  · refine ⟨valid_nil h,?_,fun t ht => ⟨ht,rfl,apart_nil t⟩⟩
    rw [elements_nil,elements,hlen,List.take_zero]
  · exact ⟨valid_alloc,elements_alloc,fun _ => alloc_keeps⟩

/-- The loop has read the elements before `i` and kept those of `out`, which ends before `i`; what is behind is still
as it was, although `out` is written to the same array. -/
theorem filterFrom_spec (keep : α → Bool) (out : Slice) (hs : Valid h s) {n i : ℕ} (hn : i+n = s.len)
    (harray : out.array = s.array) (hcap : out.cap = s.cap) (hlen : out.len ≤ i) :
    ∃ h' out', filterFrom keep s n i h out = some (h',out') ∧ Valid h' out' ∧
      elements h' out' = elements h out ++ ((elements h s).drop i).filter keep ∧ Frame h out h' out' := by
  induction n generalizing h i out with
  | zero =>
    have hle : out.len ≤ s.len := by omega
    refine ⟨h,out,rfl,⟨by rw [hcap]; exact hle.trans hs.len_le,by rw [hcap,harray]; exact hs.cap_le⟩,?_,.refl h out⟩
    rw [List.drop_eq_nil_of_le (by rw [hs.length_elements]; omega),List.filter_nil,List.append_nil]
  | succ n ih =>
    have hout : Valid h out :=
      ⟨by rw [hcap]; exact (by omega : out.len ≤ s.len).trans hs.len_le,by rw [hcap,harray]; exact hs.cap_le⟩
    have hi : i < (elements h s).length := by
      rw [hs.length_elements]
      omega
    rw [filterFrom,read_eq,List.getElem?_eq_getElem hi,List.drop_eq_getElem_cons hi,List.filter_cons]
    simp only
    split_ifs with hkeep
    · have hroom : out.len < out.cap := by
        have := hs.len_le
        omega
      obtain ⟨hvalid,hwritten,hframe⟩ := append_spec 0 hout ((elements h s)[i])
      simp only [append,if_pos hroom] at hvalid hwritten hframe ⊢
      have ha : s.array < h.length := hs.allocated (by omega)
      have hrest : ∀ x, (elements (h.write out.array out.len x) s).drop (i+1) = (elements h s).drop (i+1) := by
        intro x
        rw [harray,elements,elements,cells_write h ha,List.take_set,List.drop_set_of_lt (by omega)]
      obtain ⟨h',out',hloop,hvalid',helements,hframe'⟩ := ih { out with len := out.len+1 }
        (valid_write hs out.array out.len (elements h s)[i]) (i := i+1) (by omega) harray hcap (Nat.succ_le_succ hlen)
      refine ⟨h',out',hloop,hvalid',?_,hframe.trans hframe'⟩
      rw [helements,hrest,hwritten,List.append_assoc,List.singleton_append]
    · exact ih out hs (by omega) harray hcap (by omega)

theorem filterInPlace_spec (keep : α → Bool) (hs : Valid h s) :
    ∃ h' s', filterInPlace keep h s = some (h',s') ∧ Valid h' s' ∧ elements h' s' = (elements h s).filter keep ∧
      Frame h s h' s' := by
  obtain ⟨h',s',hloop,hvalid,helements,hframe⟩ := filterFrom_spec keep { s with len := 0 } hs (n := s.len) (i := 0)
    (Nat.zero_add _) rfl rfl le_rfl
  refine ⟨h',s',hloop,hvalid,?_,⟨hframe.valid,hframe.elements,hframe.apart⟩⟩
  rw [helements,List.drop_zero,elements,List.take_zero,List.nil_append]

end Operations

section Tables

variable {ι : Type} {h h' : Heap α} {table : ι → Option Slice} {lists : ι → List α}

/-- What a key without an entry reads is the slice without an array. -/
def lookup (table : ι → Option Slice) (n : ι) : Slice := (table n).getD .nil

/-- The slices of a table share no array and hold the given lists; a key has an entry if its list has elements. -/
structure Holds (h : Heap α) (table : ι → Option Slice) (lists : ι → List α) : Prop where
  valid : ∀ n, Valid h (lookup table n)
  elements : ∀ n, elements h (lookup table n) = lists n
  entry : ∀ n, table n = none ↔ lists n = []
  apart : ∀ n m, n ≠ m → Apart (lookup table n) (lookup table m)

/-- What stays true of a slice that is apart from a whole table. -/
def Unreached (h : Heap α) (table : ι → Option Slice) (h' : Heap α) (table' : ι → Option Slice) : Prop :=
  ∀ t, Valid h t → (∀ n, Apart t (lookup table n)) →
    Valid h' t ∧ Slices.elements h' t = Slices.elements h t ∧ ∀ n, Apart t (lookup table' n)

theorem holds_nil (h : Heap α) : Holds h (fun _ : ι => none) fun _ => [] :=
  ⟨fun _ => valid_nil h,fun _ => elements_nil h,fun _ => iff_of_true rfl rfl,fun _ _ _ => apart_nil _⟩

/-- A copy is apart from the table, which stays as it was. -/
theorem Holds.clone [Inhabited α] (hh : Holds h table lists) (extra : ℕ) (n : ι) :
    let r := Slices.clone extra h (lookup table n)
    Holds r.1 table lists ∧ Unreached h table r.1 table ∧ Valid r.1 r.2 ∧ Slices.elements r.1 r.2 = lists n ∧
      ∀ m, Apart r.2 (lookup table m) := by
  obtain ⟨hvalid,helements,hkeeps⟩ := clone_spec extra h (lookup table n)
  refine ⟨⟨fun m => ?_,fun m => ?_,hh.entry,hh.apart⟩,fun t ht ha => ?_,hvalid,?_,fun m => ?_⟩
  · exact (hkeeps _ (hh.valid m)).1
  · exact (hkeeps _ (hh.valid m)).2.1.trans (hh.elements m)
  · exact ⟨(hkeeps t ht).1,(hkeeps t ht).2.1,ha⟩
  · exact helements.trans (hh.elements n)
  · exact (hkeeps _ (hh.valid m)).2.2.symm

variable [DecidableEq ι]

theorem lookup_update (table : ι → Option Slice) (n : ι) (v : Option Slice) (m : ι) :
    lookup (Function.update table n v) m = if m = n then v.getD .nil else lookup table m := by
  unfold lookup
  split_ifs with hm
  · rw [hm,Function.update_self]
  · rw [Function.update_of_ne hm]

theorem Holds.update (hh : Holds h table lists) (n : ι) {v : Option Slice}
    (hframe : Frame h (lookup table n) h' (v.getD .nil)) (hvalid : Valid h' (v.getD .nil)) {l : List α}
    (hl : Slices.elements h' (v.getD .nil) = l) (hentry : v = none ↔ l = []) :
    Holds h' (Function.update table n v) (Function.update lists n l) ∧
      Unreached h table h' (Function.update table n v) := by
  refine ⟨⟨fun m => ?_,fun m => ?_,fun m => ?_,fun m m' hne => ?_⟩,fun t ht ha => ⟨?_,?_,fun m => ?_⟩⟩
  · rw [lookup_update]
    split_ifs with hm
    · exact hvalid
    · exact hframe.valid _ (hh.valid m) (hh.apart m n hm)
  · rw [lookup_update]
    split_ifs with hm
    · rw [hm,Function.update_self,hl]
    · rw [Function.update_of_ne hm,hframe.elements _ (hh.valid m) (hh.apart m n hm),hh.elements]
  · by_cases hm : m = n
    · rw [hm,Function.update_self,Function.update_self]
      exact hentry
    · rw [Function.update_of_ne hm,Function.update_of_ne hm]
      exact hh.entry m
  · rw [lookup_update,lookup_update]
    split_ifs with hm hm' hm'
    · exact absurd (hm.trans hm'.symm) hne
    · exact (hframe.apart _ (hh.valid m') (hh.apart m' n hm')).symm
    · exact hframe.apart _ (hh.valid m) (hh.apart m n hm)
    · exact hh.apart m m' hne
  · exact hframe.valid t ht (ha n)
  · exact hframe.elements t ht (ha n)
  · rw [lookup_update]
    split_ifs
    · exact hframe.apart t ht (ha n)
    · exact ha m

variable [Inhabited α]

theorem Holds.append (hh : Holds h table lists) (extra : ℕ) (n : ι) (x : α) :
    let r := Slices.append extra h (lookup table n) x
    Holds r.1 (Function.update table n (some r.2)) (Function.update lists n (lists n ++ [x])) ∧
      Unreached h table r.1 (Function.update table n (some r.2)) := by
  obtain ⟨hvalid,helements,hframe⟩ := append_spec extra (hh.valid n) x
  rw [hh.elements] at helements
  exact hh.update n (v := some _) hframe hvalid helements (by simp)

/-- The entry of a list that is filtered to nothing is deleted. -/
theorem Holds.filter (hh : Holds h table lists) (n : ι) (keep : α → Bool) :
    ∃ h' s', filterInPlace keep h (lookup table n) = some (h',s') ∧
      Holds h' (Function.update table n (if s'.len = 0 then none else some s'))
        (Function.update lists n ((lists n).filter keep)) ∧
      Unreached h table h' (Function.update table n (if s'.len = 0 then none else some s')) := by
  obtain ⟨h',s',hfilter,hvalid,helements,hframe⟩ := filterInPlace_spec keep (hh.valid n)
  rw [hh.elements] at helements
  have hlen := hvalid.length_elements
  rw [helements] at hlen
  refine ⟨h',s',hfilter,?_⟩
  split_ifs with hzero
  · rw [hzero] at hlen
    have hnil := List.length_eq_zero_iff.mp hlen
    exact hh.update n (v := none) ⟨hframe.valid,hframe.elements,fun t _ _ => apart_nil t⟩ (valid_nil h')
      (by rw [hnil]; exact elements_nil h') (iff_of_true rfl hnil)
  · refine hh.update n (v := some s') hframe hvalid helements (iff_of_false (Option.some_ne_none _) fun hnil => ?_)
    rw [hnil] at hlen
    exact hzero hlen.symm

end Tables

end Slices
end Clearvoiance
