import Mathlib.Data.List.AList
import Mathlib.Data.List.Sort
import Mathlib.Tactic

/-! Files of the SDK's write-ahead log.  A completed batch is stored as
`{dir}/{session}/{batch id}.pb`; the id is read back from the name, the events from the content.
Names that end in `.tmp` are writes in progress and are never listed. -/
namespace Clearvoiance
namespace Wal

/-- The events of one `sendBatch` call: a tag that tells calls apart, and their encoded length. -/
structure Batch where
  tag : ℕ
  bytes : ℕ
  deriving DecidableEq

/-- The message that is written to a stream and, when the stream is down, to a file. -/
structure EventBatch where
  batchId : ℕ
  events : Batch
  deriving DecidableEq

/-- `EventBatch.encode(…).finish().length`: a zero id is not written. -/
def EventBatch.encodedLength (m : EventBatch) : ℕ :=
  m.events.bytes + if m.batchId = 0 then 0 else Nat.log 128 m.batchId + 2

abbrev FileName := List Char

abbrev Path := String × FileName

abbrev Disk := AList fun _ : Path => EventBatch

def formatBatchId (batchId : ℕ) : FileName := (Nat.toDigits 10 batchId).leftpad 20 '0'

def parseBatchId (s : FileName) : Option ℕ :=
  if s ≠ [] ∧ s.all Char.isDigit then some (Nat.ofDigitChars 10 s 0) else none

def completed : FileName := ['.','p','b']

def inProgress : FileName := ['.','t','m','p']

def fileName (batchId : ℕ) : FileName := formatBatchId batchId ++ completed

def tmpName (batchId : ℕ) : FileName := fileName batchId ++ inProgress

/-- The id of a completed batch file, `none` for every name the log skips. -/
def batchIdOf (n : FileName) : Option ℕ :=
  if completed <:+ n then parseBatchId (n.take (n.length-completed.length)) else none

def readdir (d : Disk) (sessionDir : String) : List FileName :=
  d.keys.filterMap fun p => if p.1 = sessionDir then some p.2 else none

/-- The names `list` reads, in the order it reads them. -/
def selected (names : List FileName) : List (FileName × ℕ) :=
  (names.filterMap fun n => (batchIdOf n).map fun i => (n,i)).insertionSort fun a b => a.2 ≤ b.2

structure WALEntry where
  filePath : Path
  batchId : ℕ
  events : Batch
  sizeBytes : ℕ
  deriving DecidableEq

def WALEntry.of (sessionDir : String) (n : FileName × ℕ) (content : EventBatch) : WALEntry :=
  ⟨(sessionDir,n.1),n.2,content.events,content.encodedLength⟩

def WALEntry.message (e : WALEntry) : EventBatch := ⟨e.batchId,e.events⟩

@[simp] theorem parse_format (i : ℕ) : parseBatchId (formatBatchId i) = some i := by
  have hne : formatBatchId i ≠ [] := by simp [formatBatchId,List.leftpad,Nat.toDigits_ne_nil]
  have hall : (formatBatchId i).all Char.isDigit := by
    simp only [formatBatchId,List.leftpad,List.all_append,Bool.and_eq_true,List.all_eq_true]
    refine ⟨fun c hc => ?_,fun c hc => Nat.isDigit_of_mem_toDigits (by omega) (by omega) hc⟩
    rw [List.eq_of_mem_replicate hc]
    rfl
  have hval : Nat.ofDigitChars 10 (formatBatchId i) 0 = i := by
    simp [formatBatchId,List.leftpad,Nat.ofDigitChars_append,Nat.ofDigitChars_replicate_zero,
      Nat.ofDigitChars_ten_toDigits]
  simp only [parseBatchId,hne,hall,hval,ne_eq,not_false_eq_true,and_self,if_true]

@[simp] theorem batchIdOf_fileName (i : ℕ) : batchIdOf (fileName i) = some i := by
  simp [batchIdOf,fileName]

@[simp] theorem batchIdOf_tmpName (i : ℕ) : batchIdOf (tmpName i) = none := by
  have hs : ¬ completed <:+ tmpName i := by
    intro h
    have hlast := h.getLast (by simp [completed])
    simp [completed,tmpName,inProgress] at hlast
  simp [batchIdOf,hs]

theorem fileName_injective : Function.Injective fileName := by
  intro i j h
  have := congrArg batchIdOf h
  simpa using this

theorem tmpName_injective : Function.Injective tmpName := by
  intro i j h
  exact fileName_injective (List.append_cancel_right h)

theorem mem_readdir {d : Disk} {dir : String} {n : FileName} : n ∈ readdir d dir ↔ (dir,n) ∈ d := by
  simp only [readdir,List.mem_filterMap,← AList.mem_keys]
  constructor
  · rintro ⟨p,hp,h⟩
    split at h
    · rename_i hd
      cases h
      rwa [← hd]
    · cases h
  · intro h
    exact ⟨_,h,by simp⟩

theorem readdir_nodup (d : Disk) (dir : String) : (readdir d dir).Nodup := by
  refine d.keys_nodup.filterMap ?_
  rintro ⟨a,n⟩ ⟨b,m⟩ c ha hb
  simp only [Option.mem_def] at ha hb
  split at ha <;> split at hb <;> simp_all

theorem mem_selected {names : List FileName} {x : FileName × ℕ} :
    x ∈ selected names ↔ x.1 ∈ names ∧ batchIdOf x.1 = some x.2 := by
  obtain ⟨n,i⟩ := x
  simp only [selected,List.mem_insertionSort,List.mem_filterMap,Option.map_eq_some_iff]
  constructor
  · rintro ⟨m,hm,j,hj,h⟩
    cases h
    exact ⟨hm,hj⟩
  · rintro ⟨hn,hi⟩
    exact ⟨n,hn,i,hi,rfl⟩

theorem selected_nodup {names : List FileName} (h : names.Nodup) : ((selected names).map Prod.fst).Nodup := by
  have hperm : (selected names).Perm (names.filterMap fun n => (batchIdOf n).map fun i => (n,i)) :=
    List.perm_insertionSort _ _
  rw [(hperm.map Prod.fst).nodup_iff]
  have hsub : ((names.filterMap fun n => (batchIdOf n).map fun i => (n,i)).map Prod.fst).Sublist names := by
    induction names with
    | nil => simp
    | cons n names ih =>
      have ih := ih (List.nodup_cons.mp h).2 (List.perm_insertionSort _ _)
      cases hb : batchIdOf n with
      | none => simpa [hb] using ih.cons n
      | some i => simpa [hb] using ih.cons_cons n
  exact h.sublist hsub

end Wal
end Clearvoiance
