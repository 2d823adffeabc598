import Mathlib.Data.List.AList
import Mathlib.Tactic

/-! Sums over the entries of a finite map and over a list of parties, and what becomes of them when one entry or
one party changes. -/
namespace Clearvoiance
namespace WeightedMap

variable {α : Type*} {β : α → Type*} {π : Type*}

def total (w : ∀ a, β a → ℕ) (s : AList β) : ℕ := (s.entries.map fun e => w e.1 e.2).sum

@[simp] theorem total_empty (w : ∀ a, β a → ℕ) : total w ∅ = 0 := rfl

variable [DecidableEq α]

def weightAt (w : ∀ a, β a → ℕ) (s : AList β) (a : α) : ℕ :=
  match s.lookup a with
  | some b => w a b
  | none => 0

theorem weightAt_some {w : ∀ a, β a → ℕ} {s : AList β} {a : α} {b : β a} (h : s.lookup a = some b) :
    weightAt w s a = w a b := by simp [weightAt,h]

theorem weightAt_none {w : ∀ a, β a → ℕ} {s : AList β} {a : α} (h : s.lookup a = none) : weightAt w s a = 0 := by
  simp [weightAt,h]

theorem weightAt_erase_ne (w : ∀ a, β a → ℕ) (s : AList β) {a a' : α} (h : a ≠ a') :
    weightAt w (s.erase a') a = weightAt w s a := by
  unfold weightAt
  rw [AList.lookup_erase_ne h]

theorem total_erase (w : ∀ a, β a → ℕ) (s : AList β) (a : α) : total w s = weightAt w s a+total w (s.erase a) := by
  cases hb : s.lookup a with
  | none =>
    have herase : s.entries.kerase a = s.entries :=
      List.kerase_of_notMem_keys fun h => AList.lookup_eq_none.mp hb (AList.mem_keys.mpr h)
    have hentries : (s.erase a).entries = s.entries := herase
    rw [weightAt_none hb,total,total,hentries,Nat.zero_add]
  | some b =>
    have hmem : a ∈ s.entries.keys := AList.mem_keys.mp (AList.lookup_isSome.mp (by rw [hb]; rfl))
    obtain ⟨b',l₁,l₂,-,hsplit,herase⟩ := List.exists_of_kerase hmem
    have hb' : b' = b := by
      have hlookup : s.lookup a = some b' := AList.mem_lookup_iff.mpr (by rw [hsplit]; simp)
      rw [hb] at hlookup
      exact (Option.some.inj hlookup).symm
    have hentries : (s.erase a).entries = l₁ ++ l₂ := herase
    rw [weightAt_some hb,total,total,hentries,hsplit,← hb']
    simp only [List.map_append,List.sum_append,List.map_cons,List.sum_cons]
    omega

theorem total_insert (w : ∀ a, β a → ℕ) (s : AList β) (a : α) (b : β a) :
    total w (s.insert a b) = w a b+total w (s.erase a) := by
  unfold total
  rw [AList.entries_insert,List.map_cons,List.sum_cons]
  rfl

omit [DecidableEq α] in
theorem sum_middle (w : π → ℕ) (l r : List π) (p : π) :
    ((l ++ p :: r).map w).sum = ((l ++ r).map w).sum+w p := by
  simp only [List.map_append,List.sum_append,List.map_cons,List.sum_cons]
  omega

end WeightedMap
end Clearvoiance
