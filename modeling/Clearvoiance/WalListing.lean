import Clearvoiance.Transition
import Clearvoiance.Wal

/-! What `WAL.list` returns.  The directory holds one file for every completed batch, writes in progress and files of
others; ids and order come from the names alone, the events from the content. -/
namespace Clearvoiance
namespace WalListing

open Transition Wal

abbrev Bytes := List UInt8

variable {ε : Type}

/-- `EventBatch` as the generated code writes and reads it; either may throw. -/
structure Codec (ε : Type) where
  encode : ℕ → List ε → Option Bytes
  decode : Bytes → Option (ℕ × List ε)

def Codec.Inverse (c : Codec ε) : Prop := ∀ i es bytes, c.encode i es = some bytes → c.decode bytes = some (i,es)

abbrev Files := AList fun _ : FileName => Bytes

structure WALEntry (ε : Type) where
  batchId : ℕ
  events : List ε
  filePath : FileName
  sizeBytes : ℕ

/-- The log of a session, and its directory, which is missing before the first `init`. -/
structure Log where
  dir : Option Files
  currentBytes : ℕ
  initialized : Bool

inductive Reply
  | persisted (path : FileName)
  | capacity
  | rejected
  deriving DecidableEq

def Log.files (s : Log) : Files := s.dir.getD ∅

def readEntry (c : Codec ε) (files : Files) (n : FileName × ℕ) : Option (WALEntry ε) := do
  let bytes ← files.lookup n.1
  let decoded ← c.decode bytes
  return ⟨n.2,decoded.2,n.1,bytes.length⟩

/-- `names` is what `readdir` returns. -/
def list (c : Codec ε) (names : List FileName) (dir : Option Files) : Option (List (WALEntry ε)) :=
  match dir with
  | none => some []
  | some files => (selected names).mapM (readEntry c files)

/-- The log behind `init`, and whether the scan succeeded. -/
def Log.init (c : Codec ε) (names : List FileName) (s : Log) : Log × Bool :=
  if s.initialized then (s,true)
  else
    match list c names (some s.files) with
    | none => ({ s with dir := some s.files },false)
    | some entries => (⟨some s.files,(entries.map (·.sizeBytes)).sum,true⟩,true)

def writeFile (n : FileName) (bytes : Bytes) (files : Files) : Files := files.insert n bytes

def rename (n m : FileName) (files : Files) : Files :=
  match files.lookup n with
  | none => files
  | some bytes => (files.erase n).insert m bytes

def Log.append (c : Codec ε) (maxBytes : ℕ) (names : List FileName) (batchId : ℕ) (events : List ε) (s : Log) :
    Log × Reply :=
  match s.init c names with
  | (s,false) => (s,.rejected)
  | (s,true) =>
    match c.encode batchId events with
    | none => (s,.rejected)
    | some bytes =>
      if maxBytes < s.currentBytes+bytes.length then (s,.capacity)
      else
        let finalPath := fileName batchId
        let tmpPath := tmpName batchId
        ({ s with
            dir := s.dir.map fun files => rename tmpPath finalPath (writeFile tmpPath bytes files)
            currentBytes := s.currentBytes+bytes.length },.persisted finalPath)

def Log.remove (filePath : FileName) (sizeBytes : ℕ) (s : Log) : Log :=
  match s.files.lookup filePath with
  | none => s
  | some _ => { s with dir := s.dir.map (·.erase filePath), currentBytes := s.currentBytes-sizeBytes }

/-- The log with the batches that it holds: those that were appended and not removed. -/
structure State (ε : Type) where
  log : Log
  batches : AList fun _ : ℕ => List ε

/-- `writing` is an append whose temporary file is there as far as it was written; `other` is a file that appears,
changes or goes by the hand of somebody else. -/
inductive Label (ε : Type)
  | init (names : List FileName)
  | append (names : List FileName) (batchId : ℕ) (events : List ε)
  | writing (batchId : ℕ) (part : Bytes)
  | remove (filePath : FileName) (sizeBytes : ℕ)
  | restart
  | other (n : FileName) (content : Option Bytes)

def recorded (batches : AList fun _ : ℕ => List ε) (batchId : ℕ) (events : List ε) : Reply →
    AList fun _ : ℕ => List ε
  | .persisted _ => batches.insert batchId events
  | .capacity | .rejected => batches

def owner (n : FileName) : Option ℕ := (batchIdOf n).filter fun i => fileName i = n

def forgotten (batches : AList fun _ : ℕ => List ε) (n : FileName) : AList fun _ : ℕ => List ε :=
  match owner n with
  | none => batches
  | some i => batches.erase i

def put (n : FileName) (content : Option Bytes) (files : Files) : Files :=
  match content with
  | none => files.erase n
  | some bytes => files.insert n bytes

/-- Nobody else touches a name of digits followed by `.pb`, and `readdir` lists every file once. -/
def step (c : Codec ε) (maxBytes : ℕ) (s : State ε) : Label ε → Option (State ε)
  | .init names =>
    if names.Perm s.log.files.keys then some { s with log := (s.log.init c names).1 } else none
  | .append names batchId events =>
    if names.Perm s.log.files.keys then
      let r := s.log.append c maxBytes names batchId events
      some ⟨r.1,recorded s.batches batchId events r.2⟩
    else none
  | .writing batchId part =>
    some { s with log := { s.log with dir := s.log.dir.map (writeFile (tmpName batchId) part) } }
  | .remove filePath sizeBytes => some ⟨s.log.remove filePath sizeBytes,forgotten s.batches filePath⟩
  | .restart => some { s with log := { s.log with currentBytes := 0, initialized := false } }
  | .other n content =>
    match batchIdOf n with
    | none => some { s with log := { s.log with dir := s.log.dir.map (put n content) } }
    | some _ => none

def start : State ε := ⟨⟨none,0,false⟩,∅⟩

/-- The files with the name of a batch are those of the batches that the log holds. -/
structure Stored (c : Codec ε) (batches : AList fun _ : ℕ => List ε) (files : Files) : Prop where
  written : ∀ i es, batches.lookup i = some es →
    ∃ bytes, c.encode i es = some bytes ∧ files.lookup (fileName i) = some bytes
  owned : ∀ n i, batchIdOf n = some i → n ∈ files → n = fileName i ∧ (batches.lookup i).isSome = true

namespace Stored

variable {c : Codec ε} {batches : AList fun _ : ℕ => List ε} {files : Files}

theorem empty : Stored c ∅ ∅ where
  written i es h := by simp at h
  owned n i _ h := absurd h (AList.notMem_empty n)

theorem fileName_ne {n : FileName} (hn : batchIdOf n = none) (i : ℕ) : fileName i ≠ n := by
  rintro rfl
  simp at hn

theorem insert_other (h : Stored c batches files) {n : FileName} (hn : batchIdOf n = none) (bytes : Bytes) :
    Stored c batches (files.insert n bytes) where
  written i es hes := by
    obtain ⟨b,hb,hfile⟩ := h.written i es hes
    exact ⟨b,hb,by rw [AList.lookup_insert_ne (fileName_ne hn i),hfile]⟩
  owned m i hm hmem := by
    rcases (AList.mem_insert _).mp hmem with rfl | hmem
    · rw [hn] at hm
      cases hm
    · exact h.owned m i hm hmem

theorem erase_other (h : Stored c batches files) {n : FileName} (hn : batchIdOf n = none) :
    Stored c batches (files.erase n) where
  written i es hes := by
    obtain ⟨b,hb,hfile⟩ := h.written i es hes
    exact ⟨b,hb,by rw [AList.lookup_erase_ne (fileName_ne hn i),hfile]⟩
  owned m i hm hmem := h.owned m i hm (AList.mem_erase.mp hmem).2

theorem put_other (h : Stored c batches files) {n : FileName} (hn : batchIdOf n = none) (content : Option Bytes) :
    Stored c batches (put n content files) := by
  cases content with
  | none => exact h.erase_other hn
  | some bytes => exact h.insert_other hn bytes

theorem insert_batch (h : Stored c batches files) {i : ℕ} {es : List ε} {bytes : Bytes}
    (hbytes : c.encode i es = some bytes) :
    Stored c (batches.insert i es) (files.insert (fileName i) bytes) where
  written j fs hfs := by
    by_cases hj : j = i
    · subst hj
      rw [AList.lookup_insert,Option.some.injEq] at hfs
      exact ⟨bytes,by rw [← hfs,hbytes],AList.lookup_insert _⟩
    · rw [AList.lookup_insert_ne hj] at hfs
      obtain ⟨b,hb,hfile⟩ := h.written j fs hfs
      exact ⟨b,hb,by rw [AList.lookup_insert_ne (fun hname => hj (fileName_injective hname)),hfile]⟩
  owned n j hn hmem := by
    rcases (AList.mem_insert _).mp hmem with rfl | hmem
    · rw [batchIdOf_fileName,Option.some.injEq] at hn
      subst hn
      exact ⟨rfl,by rw [AList.lookup_insert]; rfl⟩
    · obtain ⟨hname,hsome⟩ := h.owned n j hn hmem
      refine ⟨hname,?_⟩
      by_cases hj : j = i
      · subst hj
        rw [AList.lookup_insert]
        rfl
      · rw [AList.lookup_insert_ne hj,hsome]

theorem owner_eq_some_iff {n : FileName} {i : ℕ} : owner n = some i ↔ n = fileName i := by
  rw [owner,Option.filter_eq_some_iff,decide_eq_true_eq]
  constructor
  · rintro ⟨-,h⟩
    exact h.symm
  · rintro rfl
    exact ⟨batchIdOf_fileName i,rfl⟩

theorem erase_file (h : Stored c batches files) (n : FileName) : Stored c (forgotten batches n) (files.erase n) where
  written i es hes := by
    have hne : fileName i ≠ n := by
      rintro rfl
      rw [forgotten,owner_eq_some_iff.mpr rfl] at hes
      rw [AList.lookup_erase] at hes
      cases hes
    have hkept : batches.lookup i = some es := by
      unfold forgotten at hes
      cases ho : owner n with
      | none => rwa [ho] at hes
      | some j =>
        rw [ho] at hes
        have hj : i ≠ j := by
          rintro rfl
          exact hne (owner_eq_some_iff.mp ho).symm
        rwa [AList.lookup_erase_ne hj] at hes
    obtain ⟨b,hb,hfile⟩ := h.written i es hkept
    exact ⟨b,hb,by rw [AList.lookup_erase_ne hne,hfile]⟩
  owned m i hm hmem := by
    obtain ⟨hne,hmem⟩ := AList.mem_erase.mp hmem
    obtain ⟨hname,hsome⟩ := h.owned m i hm hmem
    refine ⟨hname,?_⟩
    unfold forgotten
    cases ho : owner n with
    | none => exact hsome
    | some j =>
      have hj : i ≠ j := by
        rintro rfl
        exact hne (hname.trans (owner_eq_some_iff.mp ho).symm)
      rw [AList.lookup_erase_ne hj,hsome]

theorem forgotten_eq (h : Stored c batches files) {n : FileName} (hn : files.lookup n = none) :
    forgotten batches n = batches := by
  unfold forgotten
  cases ho : owner n with
  | none => rfl
  | some i =>
    have hlookup : batches.lookup i = none := by
      rw [Option.eq_none_iff_forall_ne_some]
      intro es hes
      obtain ⟨bytes,-,hfile⟩ := h.written i es hes
      rw [← owner_eq_some_iff.mp ho,hn] at hfile
      cases hfile
    exact AList.ext (List.kerase_of_notMem_keys (AList.lookup_eq_none.mp hlookup))

end Stored

/-- What a listing has to be: the batches that the log holds, each once, in the order of their ids. -/
structure InOrder (batches : AList fun _ : ℕ => List ε) (entries : List (WALEntry ε)) : Prop where
  increasing : (entries.map (·.batchId)).Pairwise (· < ·)
  complete : ∀ i es, (∃ e ∈ entries, e.batchId = i ∧ e.events = es) ↔ batches.lookup i = some es
  named : ∀ e ∈ entries, e.filePath = fileName e.batchId

theorem mapM_eq_filterMap {α β : Type} {f : α → Option β} {l : List α} (h : ∀ x ∈ l, (f x).isSome = true) :
    l.mapM f = some (l.filterMap f) := by
  induction l with
  | nil => rfl
  | cons x l ih =>
    obtain ⟨y,hy⟩ := Option.isSome_iff_exists.mp (h x List.mem_cons_self)
    rw [List.mapM_cons,hy,ih fun z hz => h z (List.mem_cons_of_mem _ hz),List.filterMap_cons_some hy]
    rfl

section Listing

variable {c : Codec ε} {batches : AList fun _ : ℕ => List ε} {files : Files} {names : List FileName}

/-- A file that is selected holds the batch that its name tells. -/
theorem readEntry_selected (hc : c.Inverse) (h : Stored c batches files) (hnames : names.Perm files.keys)
    {x : FileName × ℕ} (hx : x ∈ selected names) :
    x.1 = fileName x.2 ∧ ∃ e, readEntry c files x = some e ∧ e.batchId = x.2 ∧ e.filePath = x.1 ∧
      batches.lookup x.2 = some e.events := by
  obtain ⟨hmem,hid⟩ := mem_selected.mp hx
  have hfile : x.1 ∈ files := AList.mem_keys.mpr (hnames.mem_iff.mp hmem)
  obtain ⟨hname,hsome⟩ := h.owned x.1 x.2 hid hfile
  obtain ⟨es,hes⟩ := Option.isSome_iff_exists.mp hsome
  obtain ⟨bytes,hbytes,hlookup⟩ := h.written x.2 es hes
  refine ⟨hname,⟨x.2,es,x.1,bytes.length⟩,?_,rfl,rfl,hes⟩
  rw [← hname] at hlookup
  simp [readEntry,hlookup,hc _ _ _ hbytes]

theorem selected_increasing (hc : c.Inverse) (h : Stored c batches files) (hnames : names.Perm files.keys) :
    ((selected names).map Prod.snd).Pairwise (· < ·) := by
  have hsorted : ((selected names).map Prod.snd).Pairwise (· ≤ ·) := by
    rw [List.pairwise_map]
    exact List.pairwise_insertionSort _ _
  have hfirst : (selected names).map Prod.fst = ((selected names).map Prod.snd).map fileName := by
    rw [List.map_map]
    exact List.map_congr_left fun x hx => (readEntry_selected hc h hnames hx).1
  have hnodup : ((selected names).map Prod.snd).Nodup := by
    have hnames' := selected_nodup (hnames.nodup_iff.mpr files.keys_nodup)
    rw [hfirst] at hnames'
    exact hnames'.of_map
  exact (hsorted.and hnodup).imp fun hxy => lt_of_le_of_ne hxy.1 hxy.2

theorem list_stored (hc : c.Inverse) (h : Stored c batches files) (hnames : names.Perm files.keys) :
    ∃ entries, list c names (some files) = some entries ∧ InOrder batches entries := by
  have hread := fun x (hx : x ∈ selected names) => readEntry_selected hc h hnames hx
  have hsome : ∀ x ∈ selected names, (readEntry c files x).isSome = true := by
    intro x hx
    obtain ⟨-,e,he,-⟩ := hread x hx
    rw [he]
    rfl
  refine ⟨_,mapM_eq_filterMap hsome,?_,?_,?_⟩
  · have hids : ((selected names).filterMap (readEntry c files)).map (·.batchId) = (selected names).map Prod.snd := by
      rw [List.map_filterMap,← List.filterMap_eq_map]
      refine List.filterMap_congr fun x hx => ?_
      obtain ⟨-,e,he,hid,-⟩ := hread x hx
      rw [he,Option.map_some,hid]
      rfl
    rw [hids]
    exact selected_increasing hc h hnames
  · intro i es
    constructor
    · rintro ⟨e,he,rfl,rfl⟩
      obtain ⟨x,hx,hxe⟩ := List.mem_filterMap.mp he
      obtain ⟨-,e',he',hid,-,hlookup⟩ := hread x hx
      rw [he',Option.some.injEq] at hxe
      rw [← hxe,hid,hlookup]
    · intro hes
      obtain ⟨bytes,hbytes,hfile⟩ := h.written i es hes
      have hmem : (fileName i,i) ∈ selected names := by
        refine mem_selected.mpr ⟨hnames.mem_iff.mpr (AList.mem_keys.mp ?_),batchIdOf_fileName i⟩
        rw [← AList.lookup_isSome,hfile]
        rfl
      obtain ⟨-,e,he,hid,-,hlookup⟩ := hread _ hmem
      rw [hes,Option.some.injEq] at hlookup
      exact ⟨e,List.mem_filterMap.mpr ⟨_,hmem,he⟩,hid,hlookup.symm⟩
  · intro e he
    obtain ⟨x,hx,hxe⟩ := List.mem_filterMap.mp he
    obtain ⟨hname,e',he',hid,hpath,-⟩ := hread x hx
    rw [he',Option.some.injEq] at hxe
    rw [← hxe,hpath,hid,hname]

end Listing

section Runs

variable {c : Codec ε} {maxBytes : ℕ} {s t : State ε}

/-- The batches are in the directory, which is there once the log is initialised. -/
structure Good (c : Codec ε) (s : State ε) : Prop where
  stored : Stored c s.batches s.log.files
  made : s.log.initialized = true → s.log.dir.isSome = true

theorem good_start : Good c (start : State ε) := ⟨.empty,nofun⟩

theorem Log.files_of_isSome {s : Log} (h : s.dir.isSome = true) (f : Files → Files) :
    (s.dir.map f).getD ∅ = f s.files := by
  obtain ⟨files,hfiles⟩ := Option.isSome_iff_exists.mp h
  simp [Log.files,hfiles]

theorem Log.init_files (names : List FileName) (s : Log) : (s.init c names).1.files = s.files := by
  unfold Log.init
  split
  · rfl
  · split <;> rfl

theorem Log.init_made {s : Log} (h : s.initialized = true → s.dir.isSome = true) (names : List FileName) :
    (s.init c names).1.dir.isSome = true := by
  unfold Log.init
  split
  · rename_i hinit
    exact h hinit
  · split <;> rfl

theorem rename_written (n m : FileName) (bytes : Bytes) (files : Files) :
    rename n m (writeFile n bytes files) = ((files.insert n bytes).erase n).insert m bytes := by
  simp only [rename,writeFile,AList.lookup_insert]

/-- What an append leaves: what was there, or the batch in addition. -/
theorem append_good (h : Good c s) (names : List FileName) (i : ℕ) (es : List ε) :
    Good c ⟨(s.log.append c maxBytes names i es).1,
      recorded s.batches i es (s.log.append c maxBytes names i es).2⟩ := by
  have hfiles := Log.init_files (c := c) names s.log
  have hmade := Log.init_made (c := c) h.made names
  unfold Log.append
  generalize s.log.init c names = r at hfiles hmade
  obtain ⟨l,found⟩ := r
  have hkept : Stored c s.batches l.files := by
    rw [show l.files = s.log.files from hfiles]
    exact h.stored
  cases found with
  | false => exact ⟨hkept,fun _ => hmade⟩
  | true =>
    cases hbytes : c.encode i es with
    | none => exact ⟨by simpa [hbytes,recorded] using hkept,fun _ => by simpa [hbytes] using hmade⟩
    | some bytes =>
      simp only
      split_ifs
      · exact ⟨hkept,fun _ => hmade⟩
      · refine ⟨?_,fun _ => by simpa using hmade⟩
        simp only [recorded,Log.files]
        rw [Log.files_of_isSome hmade,rename_written]
        exact ((hkept.insert_other (batchIdOf_tmpName i) bytes).erase_other (batchIdOf_tmpName i)).insert_batch hbytes

/-- A change of the files that keeps the batches, also where there is no directory. -/
theorem good_map (h : Good c s) {f : Files → Files}
    (hf : Stored c s.batches s.log.files → Stored c s.batches (f s.log.files)) :
    Good c { s with log := { s.log with dir := s.log.dir.map f } } := by
  refine ⟨?_,fun hinit => by simpa using h.made hinit⟩
  cases hdir : s.log.dir with
  | none => simpa [Log.files,hdir] using h.stored
  | some files => simpa [Log.files,hdir] using hf h.stored

theorem step_good (h : Good c s) {a : Label ε} (hstep : step c maxBytes s a = some t) : Good c t := by
  cases a with
  | init names =>
    simp only [step] at hstep
    split_ifs at hstep
    cases hstep
    exact ⟨by rw [Log.init_files]; exact h.stored,fun _ => Log.init_made h.made names⟩
  | append names i es =>
    simp only [step] at hstep
    split_ifs at hstep
    cases hstep
    exact append_good h names i es
  | writing i part =>
    cases hstep
    exact good_map h fun hs => hs.insert_other (batchIdOf_tmpName i) part
  | remove filePath sizeBytes =>
    cases hstep
    unfold Log.remove
    cases hlookup : s.log.files.lookup filePath with
    | none => exact ⟨by rw [h.stored.forgotten_eq hlookup]; exact h.stored,h.made⟩
    | some bytes =>
      have hdir : s.log.dir.isSome = true := by
        cases hdir : s.log.dir with
        | none => simp [Log.files,hdir] at hlookup
        | some files => rfl
      refine ⟨?_,fun _ => by simpa using hdir⟩
      simp only [Log.files]
      rw [Log.files_of_isSome hdir]
      exact h.stored.erase_file filePath
  | restart =>
    cases hstep
    exact ⟨h.stored,nofun⟩
  | other n content =>
    cases hn : batchIdOf n with
    | none =>
      simp only [step,hn] at hstep
      cases hstep
      exact good_map h fun hs => hs.put_other hn content
    | some i => simp [step,hn] at hstep

theorem run_good {labels : List (Label ε)} (hrun : exec (step c maxBytes) s labels = some t) (h : Good c s) :
    Good c t :=
  (Run.of_exec_true hrun).invariant (Good c) (fun _ _ _ hs _ hst => step_good hs hst) h

end Runs

section Names

def Digits (s : FileName) : Prop := ∀ d ∈ s, d.isDigit = true

theorem digit_bounds {d : Char} (h : d.isDigit = true) : '0'.toNat ≤ d.toNat ∧ d.toNat ≤ 57 := by
  simpa [Char.isDigit,Char.le_def,UInt32.le_iff_toNat_le] using h

theorem value_cons (d : Char) (s : FileName) :
    Nat.ofDigitChars 10 (d :: s) 0 = 10^s.length*(d.toNat - '0'.toNat)+Nat.ofDigitChars 10 s 0 := by
  rw [Nat.ofDigitChars_cons,Nat.ofDigitChars_eq_ofDigitChars_zero]
  simp

theorem value_lt {s : FileName} (h : Digits s) : Nat.ofDigitChars 10 s 0 < 10^s.length := by
  induction s with
  | nil => decide
  | cons d s ih =>
    have hd := digit_bounds (h d List.mem_cons_self)
    have hs := ih fun e he => h e (List.mem_cons_of_mem _ he)
    rw [value_cons,List.length_cons,pow_succ]
    have hdigit : d.toNat - '0'.toNat ≤ 9 := by
      have hzero : '0'.toNat = 48 := rfl
      omega
    calc 10^s.length*(d.toNat - '0'.toNat)+Nat.ofDigitChars 10 s 0
        < 10^s.length*9+10^s.length := Nat.add_lt_add_of_le_of_lt (Nat.mul_le_mul_left _ hdigit) hs
      _ = 10^s.length*10 := by ring

/-- The order in which names are sorted as texts. -/
def Before (s t : FileName) : Prop := List.Lex (fun d e => d.toNat < e.toNat) s t

theorem before_cons_iff {d e : Char} {s t : FileName} :
    Before (d :: s) (e :: t) ↔ d.toNat < e.toNat ∨ d = e ∧ Before s t := List.cons_lex_cons_iff

/-- The first digit decides, and the others where it is the same. -/
theorem first_decides {n a b x y : ℕ} (hx : x < 10^n) (hy : y < 10^n) :
    10^n*a+x < 10^n*b+y ↔ a < b ∨ a = b ∧ x < y := by
  have hstep : ∀ {k l : ℕ}, k < l → 10^n*k+10^n ≤ 10^n*l := by
    intro k l hkl
    rw [← Nat.mul_succ]
    exact Nat.mul_le_mul_left _ hkl
  rcases lt_trichotomy a b with hab | rfl | hab
  · have := hstep hab
    exact iff_of_true (by omega) (.inl hab)
  · simp
  · have := hstep hab
    exact iff_of_false (by omega) (by omega)

/-- Digits of one length are in the order of their values. -/
theorem before_iff {s t : FileName} (hs : Digits s) (ht : Digits t) (hlength : s.length = t.length) :
    Before s t ↔ Nat.ofDigitChars 10 s 0 < Nat.ofDigitChars 10 t 0 := by
  induction s generalizing t with
  | nil =>
    rw [List.length_nil,eq_comm,List.length_eq_zero_iff] at hlength
    subst hlength
    exact iff_of_false List.not_lex_nil (lt_irrefl _)
  | cons d s ih =>
    cases t with
    | nil => simp at hlength
    | cons e t =>
      have hd := digit_bounds (hs d List.mem_cons_self)
      have he := digit_bounds (ht e List.mem_cons_self)
      have hs' : Digits s := fun x hx => hs x (List.mem_cons_of_mem _ hx)
      have ht' : Digits t := fun x hx => ht x (List.mem_cons_of_mem _ hx)
      have hlow := value_lt hs'
      rw [List.length_cons,List.length_cons,Nat.add_right_cancel_iff] at hlength
      rw [hlength] at hlow
      rw [before_cons_iff,value_cons,value_cons,ih hs' ht' hlength,hlength,first_decides hlow (value_lt ht')]
      have hsame : d = e ↔ d.toNat - '0'.toNat = e.toNat - '0'.toNat := by
        rw [← Char.toNat_inj]
        omega
      rw [hsame]
      refine or_congr_left ?_
      omega

theorem eq_of_value {s t : FileName} (hs : Digits s) (ht : Digits t) (hlength : s.length = t.length)
    (hvalue : Nat.ofDigitChars 10 s 0 = Nat.ofDigitChars 10 t 0) : s = t := by
  induction s generalizing t with
  | nil => exact (List.length_eq_zero_iff.mp hlength.symm).symm
  | cons d s ih =>
    cases t with
    | nil => simp at hlength
    | cons e t =>
      have hd := digit_bounds (hs d List.mem_cons_self)
      have he := digit_bounds (ht e List.mem_cons_self)
      have hs' : Digits s := fun x hx => hs x (List.mem_cons_of_mem _ hx)
      have ht' : Digits t := fun x hx => ht x (List.mem_cons_of_mem _ hx)
      have hlow := value_lt hs'
      rw [List.length_cons,List.length_cons,Nat.add_right_cancel_iff] at hlength
      rw [hlength] at hlow
      rw [value_cons,value_cons,hlength] at hvalue
      have hlt := first_decides (a := d.toNat - '0'.toNat) (b := e.toNat - '0'.toNat) hlow (value_lt ht')
      have hgt := first_decides (a := e.toNat - '0'.toNat) (b := d.toNat - '0'.toNat) (value_lt ht') hlow
      rw [hvalue] at hlt hgt
      have hde : d = e := Char.toNat_inj.mp (by omega)
      have hrest : Nat.ofDigitChars 10 s 0 = Nat.ofDigitChars 10 t 0 := by omega
      rw [hde,ih hs' ht' hlength hrest]

theorem digits_formatBatchId (i : ℕ) : Digits (formatBatchId i) := by
  intro d hd
  simp only [formatBatchId,List.leftpad,List.mem_append] at hd
  rcases hd with hd | hd
  · rw [List.eq_of_mem_replicate hd]
    rfl
  · exact Nat.isDigit_of_mem_toDigits (by omega) (by omega) hd

theorem value_formatBatchId (i : ℕ) : Nat.ofDigitChars 10 (formatBatchId i) 0 = i := by
  have h := parse_format i
  unfold parseBatchId at h
  split_ifs at h
  exact Option.some.inj h

theorem length_formatBatchId {i : ℕ} (hi : i < 10^20) : (formatBatchId i).length = 20 := by
  rw [formatBatchId,List.length_leftpad,Nat.max_eq_left]
  exact (Nat.length_toDigits_le_iff (by decide) (by decide)).mpr hi

/-- A name of 20 digits is the one its id is given. -/
theorem format_parse {s : FileName} {i : ℕ} (hlength : s.length = 20) (h : parseBatchId s = some i) :
    formatBatchId i = s := by
  unfold parseBatchId at h
  split_ifs at h with hs
  have hdigits : Digits s := List.all_eq_true.mp hs.2
  have hvalue : Nat.ofDigitChars 10 s 0 = i := Option.some.inj h
  have hi : i < 10^20 := by
    rw [← hvalue,← hlength]
    exact value_lt hdigits
  exact eq_of_value (digits_formatBatchId i) hdigits ((length_formatBatchId hi).trans hlength.symm)
    ((value_formatBatchId i).trans hvalue.symm)

theorem before_append_iff {s t u : FileName} (hlength : s.length = t.length) :
    Before (s ++ u) (t ++ u) ↔ Before s t ∨ s = t ∧ Before u u := by
  induction s generalizing t with
  | nil =>
    rw [List.length_nil,eq_comm,List.length_eq_zero_iff] at hlength
    subst hlength
    simp [Before]
  | cons d s ih =>
    cases t with
    | nil => simp at hlength
    | cons e t =>
      rw [List.length_cons,List.length_cons,Nat.add_right_cancel_iff] at hlength
      rw [List.cons_append,List.cons_append,before_cons_iff,before_cons_iff,ih hlength,List.cons.injEq]
      tauto

theorem not_before_completed : ¬ Before completed completed := by
  simp [Before,completed,List.cons_lex_cons_iff]

theorem fileName_before_iff {i j : ℕ} (hi : i < 10^20) (hj : j < 10^20) :
    Before (fileName i) (fileName j) ↔ i < j := by
  have hlength : (formatBatchId i).length = (formatBatchId j).length := by
    rw [length_formatBatchId hi,length_formatBatchId hj]
  rw [fileName,fileName,before_append_iff hlength,
    before_iff (digits_formatBatchId i) (digits_formatBatchId j) hlength,value_formatBatchId,value_formatBatchId]
  exact or_iff_left fun h => not_before_completed h.2

end Names

/-- After any run, a listing returns the batches that were appended and not removed, in the order of their ids; ids
and names determine each other, and the names are in the order of the ids. -/
theorem drain_in_order {c : Codec ε} (hc : c.Inverse) {maxBytes : ℕ} {labels : List (Label ε)} {s : State ε}
    (hrun : exec (step c maxBytes) start labels = some s) {names : List FileName}
    (hnames : names.Perm s.log.files.keys) :
    (∃ entries, list c names s.log.dir = some entries ∧ InOrder s.batches entries) ∧
      (∀ i, parseBatchId (formatBatchId i) = some i) ∧
      (∀ n i, n.length = 20 → parseBatchId n = some i → formatBatchId i = n) ∧
      ∀ i j, i < 10^20 → j < 10^20 → (Before (fileName i) (fileName j) ↔ i < j) := by
  refine ⟨?_,parse_format,fun _ _ => format_parse,fun _ _ => fileName_before_iff⟩
  have hstored := (run_good hrun good_start).stored
  cases hdir : s.log.dir with
  | none =>
    refine ⟨[],rfl,?_⟩
    simp only [Log.files,hdir,Option.getD_none] at hstored hnames
    obtain ⟨entries,hlist,horder⟩ := list_stored hc hstored hnames
    rw [List.Perm.eq_nil hnames] at hlist
    cases hlist
    exact horder
  | some files =>
    simp only [Log.files,hdir,Option.getD_some] at hstored hnames
    exact list_stored hc hstored hnames

/-- The encoding of a batch with one short event, which is given by its own bytes, and a small id. -/
def oneEvent : Codec Bytes where
  encode i es :=
    match es with
    | [e] =>
      if 0 < i ∧ i < 128 ∧ e.length < 128 then some (0x0a :: UInt8.ofNat e.length :: (e ++ [0x10,UInt8.ofNat i]))
      else none
    | _ => none
  decode bytes :=
    match bytes with
    | 0x0a :: l :: rest =>
      match rest.drop l.toNat with
      | [0x10,i] => some (i.toNat,[rest.take l.toNat])
      | _ => none
    | _ => none

theorem oneEvent_inverse : oneEvent.Inverse := by
  intro i es bytes h
  simp only [oneEvent] at h
  split at h
  · rename_i e
    split_ifs at h with hsmall
    cases h
    have hi : (UInt8.ofNat i).toNat = i := by
      rw [UInt8.toNat_ofNat']
      omega
    have hl : (UInt8.ofNat e.length).toNat = e.length := by
      rw [UInt8.toNat_ofNat']
      omega
    simp [oneEvent,hi,hl]
  · cases h

/-- Two batches, a third one that was broken off, and a file of somebody else. -/
def twoBatches : List (Label Bytes) :=
  [.append [] 10 [[0x0a,0x01,0x61]],.append [fileName 10] 2 [[0x0a,0x01,0x62]],.writing 3 [0x0a],
    .other "notes.pb".toList (some [0x78])]

def holding : State Bytes := (exec (step oneEvent 1000) start twoBatches).getD start

theorem drain_in_order_twoBatches : ∃ entries, list oneEvent holding.log.files.keys holding.log.dir = some entries ∧
    InOrder holding.batches entries := by
  have hrun : exec (step oneEvent 1000) start twoBatches = some holding := rfl
  exact (drain_in_order oneEvent_inverse hrun (List.Perm.refl _)).1

example : (list oneEvent holding.log.files.keys holding.log.dir).map (·.map (·.batchId)) = some [2,10] := by decide

end WalListing
end Clearvoiance
