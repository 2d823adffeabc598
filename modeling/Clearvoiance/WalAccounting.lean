import Clearvoiance.Transition
import Clearvoiance.Wal
import Clearvoiance.WeightedMap

/-! The byte count of the write-ahead log against the files in its directory.  The count is set by a scan and moved
by appends and removals after they have changed the directory, so it is behind in between; it stays right as long
as no call changes more or less than it counts. -/
namespace Clearvoiance
namespace WalAccounting

open Transition Wal WeightedMap

/-- What a file holds; `other` is no encoded batch. -/
inductive Content
  | batch (m : EventBatch)
  | other (size : ℕ)
  deriving DecidableEq

def Content.size : Content → ℕ
  | .batch m => m.encodedLength
  | .other size => size

abbrev Files := AList fun _ : Path => Content

structure WALOptions where
  sessionDir : String
  maxBytes : ℕ

structure Log where
  files : Files
  currentBytes : ℕ
  initialized : Bool

/-- A log on a directory that may hold files already. -/
def fresh (files : Files) : Log := ⟨files,0,false⟩

inductive Call
  | init
  | append (m : EventBatch)
  | list
  | remove (entry : WALEntry)
  deriving DecidableEq

/-- What a scan is made for; an append goes on behind it. -/
inductive Purpose
  | list
  | init
  | append (m : EventBatch)
  deriving DecidableEq

/-- Where a call is: in front of a test, in front of an operation on the files, or behind it. -/
inductive Pc
  | init (k : Purpose)
  | mkdir (k : Purpose)
  | readdir (k : Purpose)
  | reading (k : Purpose) (rest : List (FileName × ℕ)) (out : List WALEntry)
  | check (m : EventBatch)
  | writeFile (m : EventBatch)
  | rename (m : EventBatch)
  | renamed (m : EventBatch)
  | unlink (entry : WALEntry)
  | unlinked (entry : WALEntry)
  deriving DecidableEq

inductive Reply
  | initialized
  | persisted (path : Path)
  | capacity
  | listed (entries : List WALEntry)
  | removed
  | rejected
  deriving DecidableEq

def entry : Call → Pc
  | .init => .init .init
  | .append m => .init (.append m)
  | .list => .readdir .list
  | .remove e => .unlink e

def usedBytes (s : Log) : ℕ := s.currentBytes

def names (o : WALOptions) (files : Files) : List FileName :=
  files.keys.filterMap fun p => if p.1 = o.sessionDir then some p.2 else none

/-- Behind `init`. -/
def afterInit : Purpose → Pc ⊕ Reply
  | .append m => .inl (.check m)
  | .list | .init => .inr .initialized

def sizes (out : List WALEntry) : ℕ := (out.map (·.sizeBytes)).sum

/-- One step of a call; `fault` tells whether the operation on the files fails. -/
def advance (o : WALOptions) (fault : Bool) (s : Log) : Pc → Log × (Pc ⊕ Reply)
  | .init k => (s,if s.initialized then afterInit k else .inl (.mkdir k))
  | .mkdir k => (s,if fault then .inr .rejected else .inl (.readdir k))
  | .readdir k => (s,if fault then .inr .rejected else .inl (.reading k (selected (names o s.files)) []))
  | .reading k (n :: rest) out =>
    match fault,s.files.lookup (o.sessionDir,n.1) with
    | false,some (.batch m) => (s,.inl (.reading k rest (out ++ [.of o.sessionDir n m])))
    | _,_ => (s,.inr .rejected)
  | .reading .list [] out => (s,.inr (.listed out))
  | .reading k [] out => ({ s with currentBytes := sizes out, initialized := true },afterInit k)
  | .check m => (s,if o.maxBytes < s.currentBytes+m.encodedLength then .inr .capacity else .inl (.writeFile m))
  | .writeFile m =>
    if fault then (s,.inr .rejected)
    else ({ s with files := s.files.insert (o.sessionDir,tmpName m.batchId) (.batch m) },.inl (.rename m))
  | .rename m =>
    match fault,s.files.lookup (o.sessionDir,tmpName m.batchId) with
    | false,some content =>
      ({ s with
          files := (s.files.erase (o.sessionDir,tmpName m.batchId)).insert (o.sessionDir,fileName m.batchId) content },
        .inl (.renamed m))
    | _,_ => (s,.inr .rejected)
  | .renamed m =>
    ({ s with currentBytes := s.currentBytes+m.encodedLength },.inr (.persisted (o.sessionDir,fileName m.batchId)))
  | .unlink e =>
    if fault then (s,.inr .rejected)
    else if (s.files.lookup e.filePath).isSome then ({ s with files := s.files.erase e.filePath },.inl (.unlinked e))
    else (s,.inr .removed)
  | .unlinked e => ({ s with currentBytes := s.currentBytes-e.sizeBytes },.inr .removed)

abbrev State := Pool Log Pc Reply

abbrev Action := Act Call Bool

def step (o : WALOptions) : State → Action → Option State := Pool.step entry (advance o)

def start (files : Files) : State := ⟨fresh files,[],[]⟩

/-- A file counts when its name ends in `.pb`, whatever stands before. -/
def weight (o : WALOptions) (p : Path) (content : Content) : ℕ :=
  if p.1 = o.sessionDir ∧ completed <:+ p.2 then content.size else 0

/-- The total size of the `.pb` files in the session directory. -/
def diskBytes (o : WALOptions) (files : Files) : ℕ := total (weight o) files

abbrev Sizes := List (Path × ℕ)

def bytes (l : Sizes) : ℕ := (l.map Prod.snd).sum

def filled (l : Sizes) : Sizes := l.filter fun f => f.2 ≠ 0

def contents (o : WALOptions) (files : Files) : Sizes := files.entries.map fun e => (e.1,weight o e.1 e.2)

def scanned (out : List WALEntry) : Sizes := out.map fun e => (e.filePath,e.sizeBytes)

def Pc.landed (o : WALOptions) : Pc → Sizes
  | .renamed m => [((o.sessionDir,fileName m.batchId),m.encodedLength)]
  | _ => []

def Pc.outstanding : Pc → ℕ
  | .writeFile m | .rename m => m.encodedLength
  | _ => 0

def Pc.gone : Pc → Sizes
  | .unlinked e => [(e.filePath,e.sizeBytes)]
  | _ => []

def across (w : Pc → ℕ) (s : State) : ℕ := (s.threads.map w).sum

/-- The condition on a step of a call, in the state before it.  A scan has found the files of the directory, but for
those that calls have renamed and not counted yet, and with those that calls have unlinked and not subtracted yet; the
capacity check has room for the appends that passed it before; a renamed file is the batch and replaces nothing; a
removed file is as long as its entry says and has been counted. -/
def Fair (o : WALOptions) (fault : Bool) (s : Log) (landed : Sizes) (outstanding : ℕ) (gone : Sizes) : Pc → Prop
  | .reading .list [] _ => True
  | .reading _ [] out => (filled (scanned out ++ landed)).Perm (filled (contents o s.files ++ gone))
  | .check m => s.currentBytes+m.encodedLength ≤ o.maxBytes →
      diskBytes o s.files+outstanding+m.encodedLength ≤ o.maxBytes
  | .rename m => fault = false → ∀ content ∈ s.files.lookup (o.sessionDir,tmpName m.batchId),
      content.size = m.encodedLength ∧ weightAt (weight o) s.files (o.sessionDir,fileName m.batchId) = 0
  | .unlink e => fault = false → s.initialized = true → (s.files.lookup e.filePath).isSome = true →
      weightAt (weight o) s.files e.filePath = e.sizeBytes
  | .unlinked e => s.initialized = true → e.sizeBytes ≤ s.currentBytes
  | _ => True

def fair (o : WALOptions) (s : State) : Action → Prop
  | .invoke _ => True
  | .advance i fault => ∀ p ∈ s.threads[i]?,
      Fair o fault s.shared (s.threads.flatMap (Pc.landed o)) (across Pc.outstanding s) (s.threads.flatMap Pc.gone) p

instance (o : WALOptions) (fault : Bool) (s : Log) (landed : Sizes) (outstanding : ℕ) (gone : Sizes) :
    (p : Pc) → Decidable (Fair o fault s landed outstanding gone p)
  | .reading .init [] out | .reading (.append _) [] out =>
    inferInstanceAs (Decidable ((filled (scanned out ++ landed)).Perm (filled (contents o s.files ++ gone))))
  | .check m => inferInstanceAs (Decidable (s.currentBytes+m.encodedLength ≤ o.maxBytes →
      diskBytes o s.files+outstanding+m.encodedLength ≤ o.maxBytes))
  | .rename m => inferInstanceAs (Decidable (fault = false →
      ∀ content ∈ s.files.lookup (o.sessionDir,tmpName m.batchId),
        content.size = m.encodedLength ∧ weightAt (weight o) s.files (o.sessionDir,fileName m.batchId) = 0))
  | .unlink e => inferInstanceAs (Decidable (fault = false → s.initialized = true →
      (s.files.lookup e.filePath).isSome = true → weightAt (weight o) s.files e.filePath = e.sizeBytes))
  | .unlinked e => inferInstanceAs (Decidable (s.initialized = true → e.sizeBytes ≤ s.currentBytes))
  | .reading .list [] _ | .reading .list (_ :: _) _ | .reading .init (_ :: _) _ | .reading (.append _) (_ :: _) _ |
    .init _ | .mkdir _ | .readdir _ | .writeFile _ | .renamed _ => .isTrue trivial

instance (o : WALOptions) (s : State) : (a : Action) → Decidable (fair o s a)
  | .invoke _ => .isTrue trivial
  | .advance i fault => inferInstanceAs (Decidable (∀ p ∈ s.threads[i]?,
      Fair o fault s.shared (s.threads.flatMap (Pc.landed o)) (across Pc.outstanding s) (s.threads.flatMap Pc.gone) p))

/-- The count against the directory, with what the calls in flight are behind. -/
structure Books (o : WALOptions) (s : Log) (landed outstanding gone : ℕ) : Prop where
  balanced : s.initialized = true → s.currentBytes+landed = diskBytes o s.files+gone
  unused : s.initialized = false → s.currentBytes = 0
  capped : 0 < outstanding → diskBytes o s.files+outstanding ≤ o.maxBytes

/-- Behind `init` in an append. -/
def Pc.past : Pc → Bool
  | .check _ | .writeFile _ | .rename _ | .renamed _ => true
  | _ => false

def Pc.landedBytes : Pc → ℕ
  | .renamed m => m.encodedLength
  | _ => 0

def Pc.goneBytes : Pc → ℕ
  | .unlinked e => e.sizeBytes
  | _ => 0

def outcome (w : Pc → ℕ) : Pc ⊕ Reply → ℕ
  | .inl p => w p
  | .inr _ => 0

/-- What a step of a call leaves, next to calls with the sums `landed`, `outstanding` and `gone`. -/
structure Kept (o : WALOptions) (s : Log) (landed outstanding gone was : ℕ) (r : Log × (Pc ⊕ Reply)) : Prop where
  books : Books o r.1 (landed+outcome Pc.landedBytes r.2) (outstanding+outcome Pc.outstanding r.2)
    (gone+outcome Pc.goneBytes r.2)
  initialized : s.initialized = true → r.1.initialized = true
  past : ∀ p, r.2 = .inl p → p.past = true → r.1.initialized = true
  fewer : s.initialized = false → diskBytes o r.1.files ≤ diskBytes o s.files
  within : diskBytes o s.files+(outstanding+was) ≤ o.maxBytes →
    diskBytes o r.1.files+(outstanding+outcome Pc.outstanding r.2) ≤ o.maxBytes

section

variable {o : WALOptions} {s : Log} {landed outstanding gone : ℕ} {landedFiles goneFiles : Sizes}

theorem bytes_append (l l' : Sizes) : bytes (l ++ l') = bytes l+bytes l' := by simp [bytes]

theorem bytes_filled (l : Sizes) : bytes (filled l) = bytes l := by
  induction l with
  | nil => rfl
  | cons f l ih =>
    unfold filled bytes at ih ⊢
    by_cases hf : f.2 = 0
    · simpa [hf] using ih
    · simpa [hf] using ih

@[simp] theorem bytes_landed (o : WALOptions) (p : Pc) : bytes (p.landed o) = p.landedBytes := by cases p <;> rfl

@[simp] theorem bytes_gone (p : Pc) : bytes p.gone = p.goneBytes := by cases p <;> rfl

theorem bytes_contents (o : WALOptions) (files : Files) : bytes (contents o files) = diskBytes o files := by
  simp only [bytes,contents,diskBytes,total,List.map_map]
  rfl

theorem bytes_scanned (out : List WALEntry) : bytes (scanned out) = sizes out := by
  simp only [bytes,scanned,sizes,List.map_map]
  rfl

theorem sizes_of_perm {out : List WALEntry}
    (h : (filled (scanned out ++ landedFiles)).Perm (filled (contents o s.files ++ goneFiles))) :
    sizes out+bytes landedFiles = diskBytes o s.files+bytes goneFiles := by
  have hsum : bytes (filled (scanned out ++ landedFiles)) = bytes (filled (contents o s.files ++ goneFiles)) :=
    (h.map Prod.snd).sum_eq
  rwa [bytes_filled,bytes_filled,bytes_append,bytes_append,bytes_scanned,bytes_contents] at hsum

theorem kept_same {r : Pc ⊕ Reply} (h : Books o s landed outstanding gone) (hlanded : outcome Pc.landedBytes r = 0)
    (hout : outcome Pc.outstanding r = 0) (hgone : outcome Pc.goneBytes r = 0)
    (hpast : ∀ p, r = .inl p → p.past = true → s.initialized = true) : Kept o s landed outstanding gone 0 (s,r) where
  books := by simpa [hlanded,hout,hgone] using h
  initialized := id
  past := hpast
  fewer := fun _ => le_refl _
  within := by simp [hout]

theorem kept_reply (reply : Reply) (h : Books o s landed outstanding gone) :
    Kept o s landed outstanding gone 0 (s,.inr reply) :=
  kept_same h rfl rfl rfl (by simp)

theorem not_completed_tmpName (i : ℕ) : ¬ completed <:+ tmpName i := by
  intro h
  have hlast := h.getLast (by simp [completed])
  simp [completed,tmpName,inProgress] at hlast

theorem completed_fileName (i : ℕ) : completed <:+ fileName i := List.suffix_append _ _

theorem weight_tmpName (o : WALOptions) (dir : String) (i : ℕ) (content : Content) :
    weight o (dir,tmpName i) content = 0 := if_neg fun h => not_completed_tmpName i h.2

theorem weight_fileName (o : WALOptions) (i : ℕ) (content : Content) :
    weight o (o.sessionDir,fileName i) content = content.size := if_pos ⟨rfl,completed_fileName i⟩

theorem diskBytes_erase_tmp (o : WALOptions) (files : Files) (dir : String) (i : ℕ) :
    diskBytes o (files.erase (dir,tmpName i)) = diskBytes o files := by
  have hzero : weightAt (weight o) files (dir,tmpName i) = 0 := by
    unfold weightAt
    split
    · exact weight_tmpName o dir i _
    · rfl
  unfold diskBytes
  rw [total_erase _ files (dir,tmpName i),hzero,Nat.zero_add]

theorem diskBytes_insert_tmp (o : WALOptions) (files : Files) (dir : String) (i : ℕ) (content : Content) :
    diskBytes o (files.insert (dir,tmpName i) content) = diskBytes o files := by
  rw [← diskBytes_erase_tmp o files dir i]
  unfold diskBytes
  rw [total_insert,weight_tmpName,Nat.zero_add]

/-- A file that is moved to its final name counts, and what it replaces counts no more. -/
theorem diskBytes_rename (o : WALOptions) (files : Files) (i : ℕ) (content : Content) :
    weightAt (weight o) files (o.sessionDir,fileName i)+
        diskBytes o ((files.erase (o.sessionDir,tmpName i)).insert (o.sessionDir,fileName i) content) =
      diskBytes o files+content.size := by
  have hne : (o.sessionDir,fileName i) ≠ (o.sessionDir,tmpName i) := by
    intro h
    exact not_completed_tmpName i ((Prod.mk.inj h).2 ▸ completed_fileName i)
  have herase := total_erase (weight o) (files.erase (o.sessionDir,tmpName i)) (o.sessionDir,fileName i)
  have htmp : total (weight o) (files.erase (o.sessionDir,tmpName i)) = total (weight o) files :=
    diskBytes_erase_tmp o files o.sessionDir i
  rw [weightAt_erase_ne _ _ hne,htmp] at herase
  unfold diskBytes
  rw [total_insert,weight_fileName]
  omega

theorem kept_assign {k : Purpose} {out : List WALEntry} (hk : k ≠ .list) (h : Books o s landed outstanding gone)
    (hfair : sizes out+landed = diskBytes o s.files+gone) (fault : Bool) :
    Kept o s landed outstanding gone 0 (advance o fault s (.reading k [] out)) := by
  have hstep : advance o fault s (.reading k [] out) =
      ({ s with currentBytes := sizes out, initialized := true },afterInit k) := by
    cases k with
    | list => exact absurd rfl hk
    | init | append m => rfl
  rw [hstep]
  refine ⟨⟨fun _ => ?_,by simp,?_⟩,fun _ => rfl,fun _ _ _ => rfl,fun _ => le_refl _,?_⟩
  · cases k <;> simpa [afterInit,outcome,Pc.landedBytes,Pc.goneBytes] using hfair
  · cases k <;> simpa [afterInit,outcome,Pc.outstanding] using h.capped
  · cases k <;> simp [afterInit,outcome,Pc.outstanding]

theorem kept_check {m : EventBatch} (h : Books o s landed outstanding gone) (hinit : s.initialized = true)
    {fault : Bool} (hfair : Fair o fault s landedFiles outstanding goneFiles (.check m)) :
    Kept o s landed outstanding gone 0 (advance o fault s (.check m)) := by
  rw [advance]
  split_ifs with hfull
  · exact kept_reply _ h
  · rw [not_lt] at hfull
    have hroom := hfair hfull
    refine ⟨⟨by simpa [outcome,Pc.landedBytes,Pc.goneBytes] using h.balanced,by simp [hinit],fun _ => ?_⟩,id,fun _ _ _ => hinit,
      fun _ => le_refl _,fun _ => ?_⟩
    all_goals
      simp only [outcome,Pc.outstanding]
      omega

theorem kept_writeFile {m : EventBatch} (h : Books o s landed (outstanding+m.encodedLength) gone)
    (hinit : s.initialized = true) (fault : Bool) :
    Kept o s landed outstanding gone m.encodedLength (advance o fault s (.writeFile m)) := by
  rw [advance]
  split_ifs
  · refine ⟨⟨by simpa [outcome] using h.balanced,h.unused,?_⟩,id,by simp,fun _ => le_refl _,?_⟩
    · intro hpos
      simp only [outcome] at hpos ⊢
      have := h.capped (by omega)
      omega
    · simp only [outcome]
      omega
  · refine ⟨⟨fun _ => ?_,by simp [hinit],?_⟩,id,fun _ _ _ => hinit,by simp [hinit],?_⟩
    · simpa [outcome,Pc.landedBytes,Pc.goneBytes,diskBytes_insert_tmp] using h.balanced hinit
    · simpa [outcome,Pc.outstanding,diskBytes_insert_tmp] using h.capped
    · simp [outcome,Pc.outstanding,diskBytes_insert_tmp]

/-- An append that gives up leaves what it had not written. -/
theorem kept_dropped {was : ℕ} {reply : Reply} (h : Books o s landed (outstanding+was) gone) :
    Kept o s landed outstanding gone was (s,.inr reply) := by
  refine ⟨⟨h.balanced,h.unused,fun hpos => ?_⟩,id,by simp,fun _ => le_refl _,?_⟩
  · simp only [outcome] at hpos ⊢
    have := h.capped (by omega)
    omega
  · simp only [outcome]
    omega

theorem kept_rename {m : EventBatch} (h : Books o s landed (outstanding+m.encodedLength) gone)
    (hinit : s.initialized = true) {fault : Bool}
    (hfair : Fair o fault s landedFiles (outstanding+m.encodedLength) goneFiles (.rename m)) :
    Kept o s landed outstanding gone m.encodedLength (advance o fault s (.rename m)) := by
  simp only [advance]
  split
  · rename_i content hlookup
    obtain ⟨hsize,hfree⟩ := hfair rfl content hlookup
    have hmoved := diskBytes_rename o s.files m.batchId content
    refine ⟨⟨fun _ => ?_,by simp [hinit],fun _ => ?_⟩,id,fun _ _ _ => hinit,by simp [hinit],fun _ => ?_⟩
    · have := h.balanced hinit
      simp only [outcome,Pc.landedBytes,Pc.goneBytes]
      omega
    all_goals
      simp only [outcome,Pc.outstanding] at *
      by_cases hpos : 0 < outstanding+m.encodedLength
      · have := h.capped hpos
        omega
      · omega
  · exact kept_dropped h

theorem kept_renamed {m : EventBatch} (h : Books o s (landed+m.encodedLength) outstanding gone)
    (hinit : s.initialized = true) (fault : Bool) :
    Kept o s landed outstanding gone 0 (advance o fault s (.renamed m)) := by
  rw [advance]
  refine ⟨⟨fun _ => ?_,by simp [hinit],h.capped⟩,id,by simp,fun _ => le_refl _,id⟩
  have := h.balanced hinit
  simp only [outcome]
  omega

theorem kept_unlink {e : WALEntry} (h : Books o s landed outstanding gone) {fault : Bool}
    (hfair : Fair o fault s landedFiles outstanding goneFiles (.unlink e)) :
    Kept o s landed outstanding gone 0 (advance o fault s (.unlink e)) := by
  rw [advance]
  split_ifs with hfault hthere
  · exact kept_reply _ h
  · have herase := total_erase (weight o) s.files e.filePath
    refine ⟨⟨fun hinit => ?_,h.unused,?_⟩,id,by simp [Pc.past],fun _ => Nat.le.intro (herase.trans (add_comm _ _)).symm,?_⟩
    · have hsize := hfair (by simpa using hfault) hinit hthere
      have := h.balanced hinit
      simp only [outcome,Pc.landedBytes,Pc.goneBytes,diskBytes] at *
      omega
    · intro hpos
      have := h.capped hpos
      simp only [outcome,Pc.outstanding,diskBytes] at *
      omega
    · simp only [outcome,Pc.outstanding,diskBytes]
      omega
  · exact kept_reply _ h

theorem kept_unlinked {e : WALEntry} (h : Books o s landed outstanding (gone+e.sizeBytes)) {fault : Bool}
    (hfair : Fair o fault s landedFiles outstanding goneFiles (.unlinked e)) :
    Kept o s landed outstanding gone 0 (advance o fault s (.unlinked e)) := by
  rw [advance]
  refine ⟨⟨fun hinit => ?_,fun hinit => ?_,h.capped⟩,id,by simp,fun _ => le_refl _,id⟩
  · have hcounted := hfair hinit
    have := h.balanced hinit
    simp only [outcome] at *
    omega
  · simp [h.unused hinit]

theorem advance_kept {p : Pc} (h : Books o s (landed+p.landedBytes) (outstanding+p.outstanding) (gone+p.goneBytes))
    (hpast : p.past = true → s.initialized = true) (hlanded : bytes landedFiles = landed+p.landedBytes)
    (hgone : bytes goneFiles = gone+p.goneBytes) {fault : Bool}
    (hfair : Fair o fault s landedFiles (outstanding+p.outstanding) goneFiles p) :
    Kept o s landed outstanding gone p.outstanding (advance o fault s p) := by
  cases p with
  | init k =>
    rw [advance]
    split_ifs with hinit
    · cases k <;> exact kept_same h rfl rfl rfl fun _ _ _ => hinit
    · exact kept_same h rfl rfl rfl (by simp [Pc.past])
  | mkdir k =>
    rw [advance]
    split_ifs <;> exact kept_same h rfl rfl rfl (by simp [Pc.past])
  | readdir k =>
    rw [advance]
    split_ifs <;> exact kept_same h rfl rfl rfl (by simp [Pc.past])
  | reading k rest out =>
    cases rest with
    | cons n rest =>
      simp only [advance]
      split <;> exact kept_same h rfl rfl rfl (by simp [Pc.past])
    | nil =>
      by_cases hk : k = .list
      · rw [hk]
        exact kept_reply _ h
      · refine kept_assign hk h ?_ fault
        have hfound : (filled (scanned out ++ landedFiles)).Perm (filled (contents o s.files ++ goneFiles)) := by
          cases k with
          | list => exact absurd rfl hk
          | init | append m => exact hfair
        have hsum := sizes_of_perm hfound
        rwa [hlanded,hgone] at hsum
  | check m => exact kept_check h (hpast rfl) hfair
  | writeFile m => exact kept_writeFile h (hpast rfl) fault
  | rename m => exact kept_rename h (hpast rfl) hfair
  | renamed m => exact kept_renamed h (hpast rfl) fault
  | unlink e => exact kept_unlink h hfair
  | unlinked e => exact kept_unlinked h hfair

end

/-- The books of a state, and the calls that may only run behind `init`. -/
structure Good (o : WALOptions) (s : State) : Prop where
  books : Books o s.shared (across Pc.landedBytes s) (across Pc.outstanding s) (across Pc.goneBytes s)
  past : ∀ p ∈ s.threads, p.past = true → s.shared.initialized = true

/-- Before the log is initialised there are no more bytes than at the start. -/
def Fewer (o : WALOptions) (files : Files) (s : State) : Prop :=
  s.shared.initialized = false → diskBytes o s.shared.files ≤ diskBytes o files

/-- The directory holds no more than the cap, also when every append in flight has arrived. -/
def Within (o : WALOptions) (s : State) : Prop := diskBytes o s.shared.files+across Pc.outstanding s ≤ o.maxBytes

theorem good_start (o : WALOptions) (files : Files) : Good o (start files) :=
  ⟨⟨by simp [start,fresh],by simp [start,fresh],by simp [start,across]⟩,by simp [start]⟩

theorem bytes_flatMap (f : Pc → Sizes) (l : List Pc) : bytes (l.flatMap f) = (l.map fun p => bytes (f p)).sum := by
  induction l with
  | nil => rfl
  | cons p l ih => rw [List.flatMap_cons,bytes_append,ih,List.map_cons,List.sum_cons]

/-- What a step keeps: the books, the bytes of a log that is not initialised, and the cap. -/
structure StepKept (o : WALOptions) (files : Files) (s t : State) : Prop where
  good : Good o t
  fewer : Fewer o files s → Fewer o files t
  within : Within o s → Within o t

theorem step_kept {o : WALOptions} {s t : State} {a : Action} (files : Files) (h : Good o s) (hfair : fair o s a)
    (hstep : step o s a = some t) : StepKept o files s t := by
  rcases Pool.step_cases hstep with ⟨c,rfl,rfl⟩ | ⟨i,fault,l,r,p,s',p',rfl,hl,hp,hadv,rfl⟩ |
    ⟨i,fault,l,r,p,s',v,rfl,hl,hp,hadv,rfl⟩
  · have hzero : (entry c).landedBytes = 0 ∧ (entry c).outstanding = 0 ∧ (entry c).goneBytes = 0 ∧
        (entry c).past = false := by
      cases c <;> simp [entry,Pc.landedBytes,Pc.outstanding,Pc.goneBytes,Pc.past]
    refine ⟨⟨by simpa [across,hzero] using h.books,?_⟩,id,by simp [Within,across,hzero]⟩
    intro p hp hpast
    rcases List.mem_append.mp hp with hp | hp
    · exact h.past p hp hpast
    · rw [List.mem_singleton.mp hp] at hpast
      simp [hzero] at hpast
  all_goals
    have hmove : ∀ w : Pc → ℕ, across w s = ((l ++ r).map w).sum+w p := by
      intro w
      rw [across,hl,sum_middle]
    have hlanded : bytes (s.threads.flatMap (Pc.landed o)) = ((l ++ r).map Pc.landedBytes).sum+p.landedBytes := by
      rw [bytes_flatMap,← hmove]
      simp [across]
    have hgone : bytes (s.threads.flatMap Pc.gone) = ((l ++ r).map Pc.goneBytes).sum+p.goneBytes := by
      rw [bytes_flatMap,← hmove]
      simp [across]
    have hbooks := h.books
    simp only [hmove] at hbooks
    have hfair := hfair p hp
    rw [hmove] at hfair
    have hkept := advance_kept hbooks (h.past p (by rw [hl]; simp)) hlanded hgone hfair
    rw [hadv] at hkept
    have huninit : s'.initialized = false → s.shared.initialized = false := fun hs' =>
      Bool.eq_false_iff.mpr fun hs => Bool.eq_false_iff.mp hs' (hkept.initialized hs)
    have hfewer : Fewer o files s → s'.initialized = false → diskBytes o s'.files ≤ diskBytes o files :=
      fun hs hs' => (hkept.fewer (huninit hs')).trans (hs (huninit hs'))
  · have hacross : ∀ w : Pc → ℕ, across w ⟨s',l ++ p' :: r,s.replies⟩ = ((l ++ r).map w).sum+w p' := by
      intro w
      rw [across,sum_middle]
    refine ⟨⟨?_,?_⟩,hfewer,?_⟩
    · rw [hacross,hacross,hacross]
      exact hkept.books
    · intro q hq hpast
      rcases List.mem_cons.mp (List.perm_middle.subset hq) with rfl | hq
      · exact hkept.past q rfl hpast
      · exact hkept.initialized (h.past q (by rw [hl]; exact List.perm_middle.symm.subset (.tail _ hq)) hpast)
    · unfold Within
      rw [hacross,hmove]
      exact hkept.within
  · refine ⟨⟨hkept.books,?_⟩,hfewer,?_⟩
    · intro q hq hpast
      exact hkept.initialized (h.past q (by rw [hl]; exact List.perm_middle.symm.subset (.tail _ hq)) hpast)
    · unfold Within
      rw [hmove]
      exact hkept.within

section

variable {o : WALOptions} {s t : State} {as : List Action}

theorem run_good (files : Files) (h : Run (step o) (fair o) s as t) (hs : Good o s) (hfewer : Fewer o files s) :
    Good o t ∧ Fewer o files t :=
  h.invariant (fun u => Good o u ∧ Fewer o files u)
    (fun _ _ _ hs hfair hstep => ⟨(step_kept files hs.1 hfair hstep).good,(step_kept files hs.1 hfair hstep).fewer hs.2⟩)
    ⟨hs,hfewer⟩

theorem run_within (h : Run (step o) (fair o) s as t) (hs : Good o s) (hwithin : Within o s) : Within o t :=
  (h.invariant (fun u => Good o u ∧ Within o u)
    (fun _ _ _ hs hfair hstep => ⟨(step_kept ∅ hs.1 hfair hstep).good,(step_kept ∅ hs.1 hfair hstep).within hs.2⟩)
    ⟨hs,hwithin⟩).2

/-- Where the directory is within the cap, the appends in flight have room as well. -/
theorem within_of_good (h : Good o s) (hdisk : diskBytes o s.shared.files ≤ o.maxBytes) : Within o s := by
  unfold Within
  rcases Nat.eq_zero_or_pos (across Pc.outstanding s) with hzero | hpos
  · rw [hzero,Nat.add_zero]
    exact hdisk
  · exact h.books.capped hpos

end

/-- In a run whose steps are fair the count is the total size of the `.pb` files whenever no call is in progress, once
the log is initialised or if there were no bytes in its directory; and a directory that is within the cap stays
within it. -/
theorem accounting_exact {o : WALOptions} {files : Files} {pre post : List Action} {s t : State}
    (hpre : Run (step o) (fair o) (start files) pre s) (hpost : Run (step o) (fair o) s post t) :
    (t.shared.initialized = true ∨ diskBytes o files = 0 → t.threads = [] →
        usedBytes t.shared = diskBytes o t.shared.files) ∧
      (diskBytes o s.shared.files ≤ o.maxBytes → diskBytes o t.shared.files ≤ o.maxBytes) := by
  obtain ⟨hs,hfewer⟩ := run_good files hpre (good_start o files) fun _ => le_refl _
  obtain ⟨ht,hfewer⟩ := run_good files hpost hs hfewer
  refine ⟨fun hready hidle => ?_,fun hdisk => ?_⟩
  · have hzero : ∀ w : Pc → ℕ, across w t = 0 := by simp [across,hidle]
    have hbooks := ht.books
    rw [hzero,hzero,hzero] at hbooks
    unfold usedBytes
    cases hinit : t.shared.initialized with
    | true => simpa using hbooks.balanced hinit
    | false =>
      have hempty : diskBytes o files = 0 := by
        rcases hready with hready | hempty
        · rw [hinit] at hready
          cases hready
        · exact hempty
      have := hfewer hinit
      rw [hbooks.unused hinit]
      omega
  · have := run_within hpost hs (within_of_good hs hdisk)
    unfold Within at this
    omega

/-- The steps of one call, which is the only one in progress. -/
def alone (c : Call) (n : ℕ) : List Action := .invoke c :: List.replicate n (.advance 0 false)

theorem accounting_exact_append :
    ∃ t, exec (step ⟨"s",100⟩) (start ∅) (alone (.append ⟨1,⟨0,10⟩⟩) 8) = some t ∧
      usedBytes t.shared = diskBytes ⟨"s",100⟩ t.shared.files := by
  obtain ⟨t,ht⟩ := Option.isSome_iff_exists.mp
    (show (exec (step ⟨"s",100⟩) (start ∅) (alone (.append ⟨1,⟨0,10⟩⟩) 8)).isSome = true by decide)
  have hidle : ∀ u ∈ exec (step ⟨"s",100⟩) (start ∅) (alone (.append ⟨1,⟨0,10⟩⟩) 8),
      u.threads = [] ∧ u.shared.initialized = true := by decide
  have hrun : Run (step ⟨"s",100⟩) (fair ⟨"s",100⟩) (start ∅) (alone (.append ⟨1,⟨0,10⟩⟩) 8) t :=
    Run.of_exec (by decide) ht
  exact ⟨t,ht,(accounting_exact (.nil _) hrun).1 (.inl (hidle t ht).2) (hidle t ht).1⟩

/-- A batch that is appended again is counted again, and two appends at once both find room for one. -/
theorem appends_miscounted :
    (∃ t, exec (step ⟨"s",100⟩) (start ∅)
          (alone (.append ⟨1,⟨0,10⟩⟩) 8 ++ alone (.append ⟨1,⟨0,10⟩⟩) 5) = some t ∧
        t.threads = [] ∧ t.shared.initialized = true ∧ usedBytes t.shared = 24 ∧
        diskBytes ⟨"s",100⟩ t.shared.files = 12) ∧
      ∃ t, exec (step ⟨"s",15⟩) (start ∅)
          (alone .init 4 ++ ([.invoke (.append ⟨1,⟨0,10⟩⟩),.invoke (.append ⟨2,⟨1,10⟩⟩),.advance 0 false,
            .advance 1 false,.advance 0 false,.advance 1 false,.advance 0 false,.advance 1 false,.advance 0 false,
            .advance 1 false] : List Action)) = some t ∧
        diskBytes ⟨"s",15⟩ (start ∅).shared.files = 0 ∧ diskBytes ⟨"s",15⟩ t.shared.files = 24 := by
  constructor
  · exact ⟨_,rfl,rfl,rfl,rfl,by decide⟩
  · exact ⟨_,rfl,rfl,by decide⟩

end WalAccounting
end Clearvoiance
