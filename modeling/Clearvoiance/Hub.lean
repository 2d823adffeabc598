import Mathlib.Data.List.AList
import Mathlib.Tactic

/-! The topic table of the WebSocket hub: for every topic the set of clients that are subscribed to it.
A topic whose last client goes is deleted. -/
namespace Clearvoiance
namespace Hub

abbrev ClientId := ℕ

/-- `map[string]map[*client]struct{}`. -/
abbrev Subscribers := AList fun _ : String => List ClientId

def members (s : Subscribers) (topic : String) : List ClientId := (s.lookup topic).getD []

def addSubscriber (s : Subscribers) (topic : String) (c : ClientId) : Subscribers :=
  s.insert topic ((members s topic).insert c)

def removeSubscriber (s : Subscribers) (topic : String) (c : ClientId) : Subscribers :=
  match s.lookup topic with
  | none => s
  | some set =>
    if set.filter (· ≠ c) = [] then s.erase topic else s.insert topic (set.filter (· ≠ c))

def removeAll (s : Subscribers) (c : ClientId) : Subscribers :=
  s.keys.foldl (fun m topic => removeSubscriber m topic c) s

inductive Request
  | ping
  | subscribe (topic : String)
  | unsubscribe (topic : String)
  | unknown
  | undecodable (text : String)
  deriving DecidableEq

variable {π : Type*}

/-- The data of a message: what was published, or the hub's own answer to a request. -/
inductive Payload (π : Type*)
  | published (p : π)
  | ok
  | topic (topic : String)
  | error (text : String)
  | null
  deriving DecidableEq

/-- An `outgoing` of type `message`. -/
structure Outgoing (π : Type*) where
  topic : String
  data : Payload π
  deriving DecidableEq

/-- What the reader loop does with a request: the topic table after it and the answer, if any. -/
def handle (s : Subscribers) (c : ClientId) : Request → Subscribers × Option (Outgoing π)
  | .ping => (s,some ⟨"__pong",.null⟩)
  | .subscribe topic =>
    if topic = "" then (s,none) else (addSubscriber s topic c,some ⟨"__subscribed",.topic topic⟩)
  | .unsubscribe topic =>
    if topic = "" then (s,none) else (removeSubscriber s topic c,some ⟨"__unsubscribed",.topic topic⟩)
  | .unknown => (s,none)
  | .undecodable text => (s,some ⟨"__error",.error ("could not decode: " ++ text)⟩)

theorem mem_members_add {s : Subscribers} {topic u : String} {c d : ClientId} :
    d ∈ members (addSubscriber s topic c) u ↔ d ∈ members s u ∨ (u = topic ∧ d = c) := by
  by_cases hu : u = topic
  · subst hu
    simp [members,addSubscriber,or_comm]
  · rw [members,addSubscriber,AList.lookup_insert_ne hu,← members]
    simp [hu]

theorem mem_members_remove {s : Subscribers} {topic u : String} {c d : ClientId} :
    d ∈ members (removeSubscriber s topic c) u ↔ d ∈ members s u ∧ ¬ (u = topic ∧ d = c) := by
  cases hl : s.lookup topic with
  | none =>
    simp only [removeSubscriber,hl]
    by_cases hu : u = topic
    · subst hu
      simp [members,hl]
    · simp [hu]
  | some set =>
    simp only [removeSubscriber,hl]
    by_cases hu : u = topic
    · subst hu
      by_cases hnil : set.filter (· ≠ c) = []
      · rw [if_pos hnil]
        have hall := List.filter_eq_nil_iff.mp hnil
        simp only [members,AList.lookup_erase,hl,Option.getD_none,Option.getD_some,List.not_mem_nil,true_and,
          false_iff,not_and,not_not]
        exact fun hd => by simpa using hall d hd
      · rw [if_neg hnil]
        simp [members,hl]
    · by_cases hnil : set.filter (· ≠ c) = []
      · rw [if_pos hnil,members,AList.lookup_erase_ne hu,← members]
        simp [hu]
      · rw [if_neg hnil,members,AList.lookup_insert_ne hu,← members]
        simp [hu]

theorem members_of_notMem_keys {s : Subscribers} {u : String} (h : u ∉ s.keys) : members s u = [] := by
  rw [members,AList.lookup_eq_none.mpr (mt AList.mem_keys.mp h),Option.getD_none]

theorem mem_members_removeAll {s : Subscribers} {u : String} {c d : ClientId} :
    d ∈ members (removeAll s c) u ↔ d ∈ members s u ∧ d ≠ c := by
  have hfold : ∀ (topics : List String) (m : Subscribers),
      d ∈ members (topics.foldl (fun m topic => removeSubscriber m topic c) m) u ↔
        d ∈ members m u ∧ ¬ (u ∈ topics ∧ d = c) := by
    intro topics
    induction topics with
    | nil =>
      intro m
      simp
    | cons topic topics ih =>
      intro m
      rw [List.foldl_cons,ih,mem_members_remove,List.mem_cons,and_assoc]
      refine and_congr_right fun _ => ?_
      rw [← not_or,← or_and_right]
  rw [removeAll,hfold]
  by_cases hu : u ∈ s.keys
  · simp [hu]
  · simp [members_of_notMem_keys hu]

def NoEmptyTopic (s : Subscribers) : Prop := ∀ topic, s.lookup topic ≠ some []

theorem noEmptyTopic_add {s : Subscribers} (h : NoEmptyTopic s) (topic : String) (c : ClientId) :
    NoEmptyTopic (addSubscriber s topic c) := by
  intro u
  by_cases hu : u = topic
  · subst hu
    rw [addSubscriber,AList.lookup_insert,ne_eq,Option.some_inj]
    exact List.ne_nil_of_mem List.mem_insert_self
  · rw [addSubscriber,AList.lookup_insert_ne hu]
    exact h u

theorem noEmptyTopic_remove {s : Subscribers} (h : NoEmptyTopic s) (topic : String) (c : ClientId) :
    NoEmptyTopic (removeSubscriber s topic c) := by
  intro u
  cases hl : s.lookup topic with
  | none =>
    simp only [removeSubscriber,hl]
    exact h u
  | some set =>
    simp only [removeSubscriber,hl]
    by_cases hu : u = topic
    · subst hu
      by_cases hnil : set.filter (· ≠ c) = []
      · rw [if_pos hnil,AList.lookup_erase]
        exact nofun
      · rw [if_neg hnil,AList.lookup_insert,ne_eq,Option.some_inj]
        exact hnil
    · split
      · rw [AList.lookup_erase_ne hu]
        exact h u
      · rw [AList.lookup_insert_ne hu]
        exact h u

theorem noEmptyTopic_removeAll {s : Subscribers} (h : NoEmptyTopic s) (c : ClientId) : NoEmptyTopic (removeAll s c) := by
  have hfold : ∀ (topics : List String) (m : Subscribers), NoEmptyTopic m →
      NoEmptyTopic (topics.foldl (fun m topic => removeSubscriber m topic c) m) := by
    intro topics
    induction topics with
    | nil => exact fun m hm => hm
    | cons topic topics ih => exact fun m hm => ih _ (noEmptyTopic_remove hm topic c)
  exact hfold s.keys s h

/-- The set of a topic lists a client once. -/
def Distinct (s : Subscribers) : Prop := ∀ topic, (members s topic).Nodup

theorem distinct_add {s : Subscribers} (h : Distinct s) (topic : String) (c : ClientId) :
    Distinct (addSubscriber s topic c) := by
  intro u
  by_cases hu : u = topic
  · subst hu
    simpa [members,addSubscriber] using (h u).insert
  · rw [members,addSubscriber,AList.lookup_insert_ne hu]
    exact h u

theorem distinct_remove {s : Subscribers} (h : Distinct s) (topic : String) (c : ClientId) :
    Distinct (removeSubscriber s topic c) := by
  intro u
  cases hl : s.lookup topic with
  | none =>
    simp only [removeSubscriber,hl]
    exact h u
  | some set =>
    simp only [removeSubscriber,hl]
    by_cases hu : u = topic
    · subst hu
      have hset : set.Nodup := by simpa [members,hl] using h u
      by_cases hnil : set.filter (· ≠ c) = []
      · rw [if_pos hnil,members,AList.lookup_erase]
        exact List.nodup_nil
      · rw [if_neg hnil,members,AList.lookup_insert]
        exact hset.filter _
    · split
      · rw [members,AList.lookup_erase_ne hu]
        exact h u
      · rw [members,AList.lookup_insert_ne hu]
        exact h u

theorem distinct_removeAll {s : Subscribers} (h : Distinct s) (c : ClientId) : Distinct (removeAll s c) := by
  have hfold : ∀ (topics : List String) (m : Subscribers), Distinct m →
      Distinct (topics.foldl (fun m topic => removeSubscriber m topic c) m) := by
    intro topics
    induction topics with
    | nil => exact fun m hm => hm
    | cons topic topics ih => exact fun m hm => ih _ (distinct_remove hm topic c)
  exact hfold s.keys s h

theorem distinct_handle {s : Subscribers} (h : Distinct s) (c : ClientId) (r : Request) :
    Distinct (handle (π := π) s c r).1 := by
  cases r with
  | ping => exact h
  | subscribe topic =>
    simp only [handle]
    split
    · exact h
    · exact distinct_add h topic c
  | unsubscribe topic =>
    simp only [handle]
    split
    · exact h
    · exact distinct_remove h topic c
  | unknown => exact h
  | undecodable text => exact h

theorem noEmptyTopic_handle {s : Subscribers} (h : NoEmptyTopic s) (c : ClientId) (r : Request) :
    NoEmptyTopic (handle (π := π) s c r).1 := by
  cases r with
  | ping | unknown | undecodable text => exact h
  | subscribe topic =>
    simp only [handle]
    split
    · exact h
    · exact noEmptyTopic_add h topic c
  | unsubscribe topic =>
    simp only [handle]
    split
    · exact h
    · exact noEmptyTopic_remove h topic c

end Hub
end Clearvoiance
