import Clearvoiance.Hex
import Mathlib.Data.List.AList
import Mathlib.Tactic

/-! The SDK's mock store.  Entries of a mock pack are bucketed under the text
`{event id}|{signature}`; taking from a bucket walks through its entries in the order they were
added and starts over once all were handed out. -/
namespace Clearvoiance
namespace MockStore

structure Signature where
  text : String
  plain : '|' ∉ text.toList
  deriving DecidableEq

structure MockEntry where
  eventId : String
  signature : Signature
  status : ℕ
  responseHeaders : List (String × List String)
  responseBody : List UInt8
  responseContentType : String
  deriving DecidableEq

structure Bucket where
  entries : List MockEntry
  cursor : ℕ
  deriving DecidableEq

abbrev Store := AList fun _ : String => Bucket

def keyOf (eventId : String) (signature : Signature) : String := eventId ++ "|" ++ signature.text

def MockEntry.key (e : MockEntry) : String := keyOf e.eventId e.signature

def add (s : Store) (entry : MockEntry) : Store :=
  let bucket := (s.lookup entry.key).getD ⟨[],0⟩
  s.insert entry.key { bucket with entries := bucket.entries ++ [entry] }

def take (s : Store) (eventId : String) (signature : Signature) : Store × Option MockEntry :=
  match s.lookup (keyOf eventId signature) with
  | none => (s,none)
  | some b =>
    if b.entries = [] then (s,none)
    else (s.insert (keyOf eventId signature) { b with cursor := b.cursor+1 },
      b.entries[b.cursor%b.entries.length]?)

def load (pack : List MockEntry) : Store := pack.foldl add ∅

theorem keyOf_injective {i j : String} {s t : Signature} (h : keyOf i s = keyOf j t) : i = j ∧ s = t := by
  have hl := congrArg String.toList h
  simp only [keyOf,String.toList_append] at hl
  have hbar : "|".toList = ['|'] := rfl
  simp only [hbar,List.append_assoc,List.singleton_append] at hl
  obtain ⟨hi,hs⟩ := Hex.append_separator_inj s.plain t.plain hl
  obtain ⟨s,_⟩ := s
  obtain ⟨t,_⟩ := t
  cases String.toList_inj.mp hi
  cases String.toList_inj.mp hs
  exact ⟨rfl,rfl⟩

def under (pack : List MockEntry) (k : String) : List MockEntry := pack.filter fun e => e.key = k

/-- The store holds `pack`, and `taken` lists the keys asked for so far. -/
def Serves (s : Store) (pack : List MockEntry) (taken : List String) : Prop :=
  ∀ k, s.lookup k = if under pack k = [] then none else some ⟨under pack k,taken.count k⟩

theorem serves_empty : Serves ∅ [] [] := by
  intro k
  simp [under]

theorem Serves.add {s : Store} {pack : List MockEntry} (h : Serves s pack []) (e : MockEntry) :
    Serves (add s e) (pack ++ [e]) [] := by
  intro k
  by_cases hk : e.key = k
  · subst hk
    have hunder : under (pack ++ [e]) e.key = under pack e.key ++ [e] := by simp [under]
    have hold := h e.key
    by_cases hnil : under pack e.key = []
    · simp [MockStore.add,hold,hunder,hnil]
    · simp [MockStore.add,hold,hunder,hnil]
  · have hunder : under (pack ++ [e]) k = under pack k := by simp [under,hk]
    rw [hunder,← h k]
    exact AList.lookup_insert_ne (Ne.symm hk)

theorem serves_load (pack : List MockEntry) : Serves (load pack) pack [] := by
  have hfold : ∀ (rest done : List MockEntry) (s : Store), Serves s done [] →
      Serves (rest.foldl MockStore.add s) (done ++ rest) [] := by
    intro rest
    induction rest with
    | nil =>
      intro done s h
      simpa using h
    | cons e rest ih =>
      intro done s h
      simpa using ih (done ++ [e]) (MockStore.add s e) (h.add e)
  simpa [load] using hfold pack [] ∅ serves_empty

/-- The entry handed out is the next one under its key, around the cycle. -/
theorem Serves.take {s : Store} {pack : List MockEntry} {taken : List String} (h : Serves s pack taken)
    (i : String) (g : Signature) : Serves (take s i g).1 pack (keyOf i g :: taken) ∧
    (take s i g).2 = (under pack (keyOf i g))[taken.count (keyOf i g)%(under pack (keyOf i g)).length]? := by
  have hlook := h (keyOf i g)
  by_cases hnil : under pack (keyOf i g) = []
  · rw [if_pos hnil] at hlook
    simp only [MockStore.take,hlook,hnil]
    refine ⟨fun k => ?_,by simp⟩
    by_cases hk : k = keyOf i g
    · subst hk
      simp [hlook,hnil]
    · rw [h k,List.count_cons_of_ne (Ne.symm hk)]
  · rw [if_neg hnil] at hlook
    simp only [MockStore.take,hlook,hnil,if_false]
    refine ⟨fun k => ?_,trivial⟩
    by_cases hk : k = keyOf i g
    · subst hk
      simp [hnil]
    · rw [AList.lookup_insert_ne hk,h k,List.count_cons_of_ne (Ne.symm hk)]

/-- Whatever is handed out was added under the event id and signature asked for. -/
theorem Serves.take_eventId {s : Store} {pack : List MockEntry} {taken : List String} (h : Serves s pack taken)
    {i : String} {g : Signature} {e : MockEntry} (he : (MockStore.take s i g).2 = some e) : e.eventId = i := by
  rw [(h.take i g).2] at he
  have hmem := List.mem_of_getElem? he
  have hkey : e.key = keyOf i g := by simpa [under] using (List.mem_filter.mp hmem).2
  exact (keyOf_injective hkey).1

/-- The entries of one event, in the order they were captured. -/
def ofEvent (pack : List MockEntry) (i : String) : List MockEntry := pack.filter fun e => e.eventId = i

theorem under_keyOf (pack : List MockEntry) (i : String) (g : Signature) :
    under pack (keyOf i g) = (ofEvent pack i).filter fun e => e.signature = g := by
  simp only [under,ofEvent,List.filter_filter]
  refine List.filter_congr fun e _ => ?_
  rw [← Bool.decide_and,decide_eq_decide]
  constructor
  · intro h
    obtain ⟨hi,hg⟩ := keyOf_injective h
    exact ⟨hg,hi⟩
  · rintro ⟨rfl,rfl⟩
    rfl

/-- An event that asks for its own outbounds in capture order is handed each of them. -/
theorem Serves.take_next {s : Store} {pack : List MockEntry} {taken : List String} (h : Serves s pack taken)
    {i : String} {done rest : List MockEntry} {e : MockEntry} (hp : ofEvent pack i = done ++ e :: rest)
    (hc : ∀ g, taken.count (keyOf i g) = (done.filter fun x => x.signature = g).length) :
    (MockStore.take s i e.signature).2 = some e := by
  have hunder : under pack (keyOf i e.signature) =
      (done.filter fun x => x.signature = e.signature) ++ e :: rest.filter fun x => x.signature = e.signature := by
    rw [under_keyOf,hp,List.filter_append,List.filter_cons_of_pos (by simp)]
  rw [(h.take i e.signature).2,hc,hunder,Nat.mod_eq_of_lt (by simp)]
  simp

/-- A run of lookups, one key each, and what each of them was handed. -/
def takes (s : Store) : List (String × Signature) → Store × List (Option MockEntry)
  | [] => (s,[])
  | (i,g) :: calls => ((takes (take s i g).1 calls).1,(take s i g).2 :: (takes (take s i g).1 calls).2)

/-- The entries added for one key, in the order they were added. -/
def addedFor (pack : List MockEntry) (i : String) (g : Signature) : List MockEntry :=
  pack.filter fun e => e.eventId = i ∧ e.signature = g

/-- What the `n`-th lookup of a key is handed, `n` counted from zero. -/
def nth (pack : List MockEntry) (i : String) (g : Signature) (n : ℕ) : Option MockEntry :=
  (addedFor pack i g)[n%(addedFor pack i g).length]?

theorem under_eq_addedFor (pack : List MockEntry) (i : String) (g : Signature) :
    under pack (keyOf i g) = addedFor pack i g := by
  rw [under_keyOf,ofEvent,List.filter_filter]
  exact List.filter_congr fun e _ => by simp [Bool.and_comm]

theorem nth_eq_none_iff (pack : List MockEntry) (i : String) (g : Signature) (n : ℕ) :
    nth pack i g n = none ↔ addedFor pack i g = [] := by
  rw [nth,List.getElem?_eq_none_iff]
  constructor
  · intro h
    by_contra hne
    exact absurd (Nat.mod_lt n (List.length_pos_iff.mpr hne)) (Nat.not_lt.mpr h)
  · intro h
    simp [h]

theorem takes_length (s : Store) (calls : List (String × Signature)) : (takes s calls).2.length = calls.length := by
  induction calls generalizing s with
  | nil => rfl
  | cons c calls ih => simp [takes,ih]

/-- The lookups of one key in a run that starts after some lookups of that key. -/
theorem Serves.takes_key {s : Store} {pack : List MockEntry} {taken : List String} (h : Serves s pack taken)
    (calls : List (String × Signature)) (i : String) (g : Signature) :
    ((calls.zip (takes s calls).2).filter fun p => p.1 = (i,g)).map Prod.snd =
      (List.range' (taken.count (keyOf i g)) (calls.count (i,g))).map (nth pack i g) := by
  induction calls generalizing s taken with
  | nil => rfl
  | cons c calls ih =>
    obtain ⟨j,f⟩ := c
    obtain ⟨hserves,hentry⟩ := h.take j f
    have hrest := ih hserves
    simp only [takes,List.zip_cons_cons]
    by_cases hk : (j,f) = (i,g)
    · obtain ⟨rfl,rfl⟩ := Prod.mk.inj hk
      rw [List.count_cons_self] at hrest
      rw [List.filter_cons_of_pos (by simp),List.map_cons,hrest,List.count_cons_self,List.range'_succ,
        List.map_cons]
      congr 1
      rw [hentry,under_eq_addedFor,nth]
    · have hne : keyOf j f ≠ keyOf i g := by
        intro he
        obtain ⟨rfl,rfl⟩ := keyOf_injective he
        exact hk rfl
      rw [List.count_cons_of_ne hne] at hrest
      rw [List.filter_cons_of_neg (by simpa using hk),hrest,List.count_cons_of_ne hk]

/-- The lookups of a key, whatever lookups of other keys lie between them, are handed the entries
added for it in turn, around the cycle; nothing exactly when none was added. -/
theorem lookups_cycle (pack : List MockEntry) (calls : List (String × Signature)) (i : String) (g : Signature) :
    ((calls.zip (takes (load pack) calls).2).filter fun p => p.1 = (i,g)).map Prod.snd =
      (List.range (calls.count (i,g))).map (nth pack i g) ∧
    (takes (load pack) calls).2.length = calls.length ∧
    ∀ n, nth pack i g n = none ↔ (addedFor pack i g).length = 0 := by
  refine ⟨?_,?_,fun n => ?_⟩
  · rw [(serves_load pack).takes_key,List.count_nil,List.range_eq_range']
  · exact takes_length _ _
  · rw [nth_eq_none_iff,List.length_eq_zero_iff]

end MockStore
end Clearvoiance
