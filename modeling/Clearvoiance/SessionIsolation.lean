import Clearvoiance.ClientInvariant

/-! Batches and sessions.  Session, stream and write-ahead log of the client are replaced one at a time when
the session changes, and every function reads them again after each `await`.  As long as a batch is
handed over only while these name the session it was accepted for, whatever is written to a stream or a
directory of a session, or stored under it, was accepted while that session was open. -/
namespace Clearvoiance
namespace SessionIsolation

open Client Wal Transition

/-- The batch that a step accepts, and the session it is accepted for. -/
def accepts (t : State) : Action → Option (EventBatch × String)
  | .call (.sendBatch events) => t.world.mem.session.map fun sid => (⟨t.world.mem.nextBatchId,events⟩,sid)
  | _ => none

/-- The batches that `sendBatch` accepts along a run, each with the session that was open. -/
def acceptedAlong (cfg : Config) : State → List Action → List (EventBatch × String)
  | _,[] => []
  | t,a :: as => (accepts t a).toList ++
      match step cfg t a with
      | some t' => acceptedAlong cfg t' as
      | none => []

/-- Streams, directories and the engine's store hold only batches that were accepted for their session. -/
structure Isolated (A : List (EventBatch × String)) (s : World) : Prop where
  written : ∀ st ∈ s.streams, ∀ m, .batch m ∈ st.up → (m,st.sessionId) ∈ A
  logged : ∀ p m, s.disk.lookup p = some m → (m,p.1) ∈ A
  stored : ∀ x ∈ s.log.stored, (x.2,x.1) ∈ A

def streamNames (s : World) (k : ℕ) (sid : String) : Bool := s.streams[k]?.any fun st => st.sessionId = sid

/-- The log that a failed send goes to is the one of the stream's session. -/
def logNames (s : World) (k : ℕ) : Bool := s.mem.wal.all fun w => streamNames s k w.sessionDir

/-- The stream that a drain sends on is one of the directory's session. -/
def drainNames (s : World) : List WALEntry → Bool
  | [] => true
  | e :: _ => !s.mem.streamHealthy || s.mem.stream.all fun k => streamNames s k e.filePath.1

/-- What `sendBatch` hands the batch to belongs to the open session. -/
def sendNames (s : World) (sid : String) : Bool :=
  match s.mem.streamHealthy,s.mem.stream with
  | true,some k => streamNames s k sid
  | _,_ => s.mem.wal.all fun w => w.sessionDir = sid

def resumesApart (s : World) : Pc → Outcome → Bool
  | .sendBatch _ k,.failed _ => logNames s k
  | .listed _ .drain out,_ => drainNames s out
  | .removed rest,_ => drainNames s rest
  | _,_ => true

/-- No step hands a batch to a stream or a directory of another session. -/
def apart (t : State) : Action → Bool
  | .call (.sendBatch _) => t.world.mem.session.all fun sid => sendNames t.world sid
  | .resume i =>
    match t.tasks[i]? with
    | some ⟨pc,some o⟩ => resumesApart t.world pc o
    | _ => true
  | _ => true

def readEntries : Pc → List WALEntry
  | .readFile _ _ out _ _ | .listed _ _ out => out
  | .drainSend e rest _ | .unlink _ e rest => e :: rest
  | .removed rest => rest
  | _ => []

def toRead : Pc → List (FileName × ℕ)
  | .readFile _ _ _ n rest => n :: rest
  | _ => []

def lastRead (x : Task) : Option (EventBatch × String) :=
  match x.pc,x.outcome with
  | .readFile w _ _ n _,some (.content m) => some (⟨n.2,m.events⟩,w.sessionDir)
  | _,_ => none

def appending : Pc → Option (EventBatch × String)
  | .mkdir w k | .inited w k => k.accepted.map fun m => (m,w.sessionDir)
  | .readdir w l | .readFile w l _ _ _ | .listed w l _ => l.accepted.map fun m => (m,w.sessionDir)
  | .writeFile w m | .rename w m => some (m,w.sessionDir)
  | _ => none

def sending : Pc → Option (EventBatch × ℕ)
  | .sendBatch m k => some (m,k)
  | _ => none

section

variable {A : List (EventBatch × String)} {s s' : World}

/-- Isolation, and the names under which batches are filed. -/
structure Filed (A : List (EventBatch × String)) (s : World) : Prop extends Isolated A s where
  named : ∀ p m, s.disk.lookup p = some m → p.2 = fileName m.batchId ∨ p.2 = tmpName m.batchId

/-- The batches that a task carries were accepted for the session it carries them to. -/
structure Carrying (A : List (EventBatch × String)) (s : World) (x : Task) : Prop where
  entries : ∀ e ∈ readEntries x.pc, (e.message,e.filePath.1) ∈ A
  reads : ∀ n ∈ toRead x.pc, batchIdOf n.1 = some n.2
  content : ∀ a ∈ lastRead x, a ∈ A
  appends : ∀ a ∈ appending x.pc, a ∈ A
  sends : ∀ a ∈ sending x.pc, ∃ st, s.streams[a.2]? = some st ∧ (a.1,st.sessionId) ∈ A

def SameUp (l l' : List Stream) : Prop := ∀ st' ∈ l', ∃ st ∈ l, st'.up = st.up ∧ st'.sessionId = st.sessionId

theorem sameUp_refl (l : List Stream) : SameUp l l := fun st hst => ⟨st,hst,rfl,rfl⟩

theorem sameUp_modify {l : List Stream} {k : ℕ} {f : Stream → Stream}
    (hf : ∀ st, (f st).up = st.up ∧ (f st).sessionId = st.sessionId) : SameUp l (l.modify k f) := by
  intro st' hst'
  obtain ⟨j,hj⟩ := List.mem_iff_getElem?.mp hst'
  rw [List.getElem?_modify] at hj
  obtain ⟨st,hst,rfl⟩ := Option.map_eq_some_iff.mp hj
  refine ⟨st,List.mem_of_getElem? hst,?_⟩
  by_cases hkj : k = j
  · simp only [hkj,if_true]
    exact hf st
  · simp [hkj]

theorem sameUp_set {l : List Stream} {k : ℕ} {st st' : Stream} (hst : l[k]? = some st)
    (h : st'.up = st.up ∧ st'.sessionId = st.sessionId) : SameUp l (l.set k st') := by
  intro x hx
  rcases List.mem_or_eq_of_mem_set hx with hx | rfl
  · exact ⟨x,hx,rfl,rfl⟩
  · exact ⟨st,List.mem_of_getElem? hst,h⟩

theorem SameUp.trans {l l' l'' : List Stream} (h : SameUp l l') (h' : SameUp l' l'') : SameUp l l'' := by
  intro x hx
  obtain ⟨y,hy,hup,hsid⟩ := h' x hx
  obtain ⟨z,hz,hup',hsid'⟩ := h y hy
  exact ⟨z,hz,hup.trans hup',hsid.trans hsid'⟩

theorem Filed.onStreams (h : Filed A s) (hs : SameUp s.streams s'.streams)
    (hdisk : s'.disk = s.disk) (hstored : s'.log.stored = s.log.stored) :
    Filed A s' := by
  refine ⟨⟨?_,?_,?_⟩,?_⟩
  · intro st' hst' m hm
    obtain ⟨st,hst,hup,hsid⟩ := hs st' hst'
    rw [hsid]
    exact h.written st hst m (hup ▸ hm)
  · rw [hdisk]
    exact h.logged
  · rw [hstored]
    exact h.stored
  · rw [hdisk]
    exact h.named

theorem Filed.same (h : Filed A s) (hstreams : s'.streams = s.streams) (hdisk : s'.disk = s.disk)
    (hstored : s'.log.stored = s.log.stored) : Filed A s' := by
  refine h.onStreams ?_ hdisk hstored
  rw [hstreams]
  exact sameUp_refl _

theorem Carrying.along {x : Task} (h : Carrying A s x) (hs : Carries s.streams s'.streams) : Carrying A s' x := by
  refine ⟨h.entries,h.reads,h.content,h.appends,?_⟩
  intro a ha
  obtain ⟨st,hst,hmem⟩ := h.sends a ha
  obtain ⟨st',hst',hsid,-⟩ := hs a.2 st hst
  exact ⟨st',hst',by rwa [hsid]⟩

theorem Carrying.same {x : Task} (h : Carrying A s x) (hs : s'.streams = s.streams) : Carrying A s' x := by
  apply h.along
  rw [hs]
  exact carries_refl _

theorem lastRead_none {pc : Pc} {o : Outcome} (h : ∀ m, o ≠ .content m) : lastRead ⟨pc,some o⟩ = none := by
  cases o with
  | content m => exact absurd rfl (h m)
  | _ => cases pc <;> rfl

theorem Carrying.settled {pc : Pc} {o o' : Option Outcome} (h : Carrying A s ⟨pc,o⟩)
    (ho : lastRead ⟨pc,o'⟩ = none) : Carrying A s ⟨pc,o'⟩ :=
  ⟨h.entries,h.reads,by simp [ho],h.appends,h.sends⟩

theorem carrying_none {x : Task} (he : readEntries x.pc = []) (hr : toRead x.pc = []) (hc : lastRead x = none)
    (ha : appending x.pc = none) (hs : sending x.pc = none) : Carrying A s x :=
  ⟨by simp [he],by simp [hr],by simp [hc],by simp [ha],by simp [hs]⟩

structure Quiet (A : List (EventBatch × String)) (s : World) (n : Next) : Prop where
  streams : n.1.streams = s.streams
  disk : n.1.disk = s.disk
  stored : n.1.log.stored = s.log.stored
  task : ∀ x ∈ n.2, Carrying A s x

theorem Quiet.leaves {n : Next} (hn : Quiet A s n) (h : Filed A s) : Leaves (Filed A) (Carrying A) s n :=
  ⟨h.same hn.streams hn.disk hn.stored,fun _ hx => hx.same hn.streams,fun x hx => (hn.task x hx).same hn.streams⟩

theorem Quiet.after {n : Next} (hn : Quiet A s' n) (hstreams : s'.streams = s.streams) (hdisk : s'.disk = s.disk)
    (hstored : s'.log.stored = s.log.stored) : Quiet A s n :=
  ⟨hn.streams.trans hstreams,hn.disk.trans hdisk,hn.stored.trans hstored,fun x hx => (hn.task x hx).same hstreams.symm⟩

theorem quiet_finish (hstreams : s'.streams = s.streams) (hdisk : s'.disk = s.disk)
    (hstored : s'.log.stored = s.log.stored) : Quiet A s (finish s') :=
  ⟨hstreams,hdisk,hstored,by simp [finish]⟩

theorem quiet_return : Quiet A s (finish s) := quiet_finish rfl rfl rfl

theorem quiet_task (hstreams : s'.streams = s.streams) (hdisk : s'.disk = s.disk)
    (hstored : s'.log.stored = s.log.stored) {x : Task} (hx : Carrying A s x) : Quiet A s (s',some x) :=
  ⟨hstreams,hdisk,hstored,by simpa using hx⟩

theorem quiet_ready {pc : Pc} (hstreams : s'.streams = s.streams) (hdisk : s'.disk = s.disk)
    (hstored : s'.log.stored = s.log.stored) (hx : Carrying A s ⟨pc,some .done⟩) : Quiet A s (ready s' pc) :=
  ⟨hstreams,hdisk,hstored,by simpa [ready] using hx⟩

theorem carrying_append {x : Task} (he : readEntries x.pc = []) (hr : toRead x.pc = []) (hc : lastRead x = none)
    (hs : sending x.pc = none) (ha : ∀ a ∈ appending x.pc, a ∈ A) : Carrying A s x :=
  ⟨by simp [he],by simp [hr],by simp [hc],ha,by simp [hs]⟩

theorem quiet_initWal {w : WAL} {k : Init} (h : ∀ m ∈ k.accepted, (m,w.sessionDir) ∈ A) :
    Quiet A s (s.initWal w k) := by
  have ha : ∀ a ∈ k.accepted.map fun m => (m,w.sessionDir), a ∈ A := by
    intro a ha
    obtain ⟨m,hm,rfl⟩ := Option.mem_map.mp ha
    exact h m hm
  unfold World.initWal
  split_ifs
  · exact quiet_task rfl rfl rfl (carrying_append rfl rfl rfl rfl ha)
  · exact quiet_task rfl rfl rfl (carrying_append rfl rfl rfl rfl ha)

theorem quiet_persistToWAL {m : EventBatch} (h : ∀ w ∈ s.mem.wal, (m,w.sessionDir) ∈ A) :
    Quiet A s (s.persistToWAL m) := by
  unfold World.persistToWAL
  split
  · exact quiet_return
  · rename_i w hw
    apply quiet_initWal
    intro m' hm
    obtain rfl : m = m' := by simpa [Init.accepted] using hm
    exact h w hw

theorem quiet_readNext {w : WAL} {l : Listing} {out : List WALEntry} {ns : List (FileName × ℕ)}
    (hout : ∀ e ∈ out, (e.message,e.filePath.1) ∈ A) (hns : ∀ n ∈ ns, batchIdOf n.1 = some n.2)
    (hl : ∀ a ∈ l.accepted.map fun m => (m,w.sessionDir), a ∈ A) : Quiet A s (readNext s w l out ns) := by
  cases ns with
  | nil => exact quiet_task rfl rfl rfl ⟨hout,by simp [toRead],by simp [lastRead],hl,by simp [sending]⟩
  | cons n rest => exact quiet_task rfl rfl rfl ⟨hout,hns,by simp [lastRead],hl,by simp [sending]⟩

theorem quiet_listFailed (l : Listing) : Quiet A s (s.listFailed l) := by
  cases l with
  | drain => exact quiet_finish rfl rfl rfl
  | init k => exact quiet_return

theorem quiet_drainList : Quiet A s s.drainList := by
  unfold World.drainList
  split
  · exact quiet_task rfl rfl rfl (carrying_none rfl rfl rfl rfl rfl)
  · exact quiet_finish rfl rfl rfl

theorem quiet_drainWAL : Quiet A s s.drainWAL := by
  unfold World.drainWAL
  split_ifs
  · exact quiet_return
  · exact quiet_drainList.after rfl rfl rfl

theorem quiet_scheduleReconnect (cfg : Config) : Quiet A s (finish (s.scheduleReconnect cfg)) := by
  obtain ⟨hstreams,hdisk,hlog,-⟩ := scheduleReconnect_same cfg s
  exact quiet_finish hstreams hdisk (congrArg Log.stored hlog)

theorem quiet_markStreamFailed (cfg : Config) (gone : Bool) {n : Next} (hn : Quiet A (s.markStreamFailed cfg gone) n) :
    Quiet A s n := by
  obtain ⟨hstreams,hdisk,hlog,-⟩ := markStreamFailed_same cfg gone s
  exact hn.after hstreams hdisk (congrArg Log.stored hlog)

/-- A batch is written to a stream of the session it was accepted for. -/
theorem leaves_send {k : ℕ} {m : EventBatch} {pc : Pc} (h : Filed A s)
    (hm : ∀ st, s.streams[k]? = some st → (m,st.sessionId) ∈ A) (hpc : Carrying A s ⟨pc,none⟩) :
    Leaves (Filed A) (Carrying A) s (await (s.sendOverStream k m) pc) := by
  have hcarries := carries_keeps (keeps_sendOverStream s k m)
  refine ⟨⟨⟨?_,h.logged,h.stored⟩,h.named⟩,fun x hx => hx.along hcarries,?_⟩
  · intro st hst m' hm'
    obtain ⟨j,hj⟩ := List.mem_iff_getElem?.mp hst
    rw [show (await (s.sendOverStream k m) pc).1.streams = s.streams.modify k (.write (.batch m)) from rfl,
      List.getElem?_modify] at hj
    obtain ⟨st₀,hst₀,rfl⟩ := Option.map_eq_some_iff.mp hj
    have hold := h.written st₀ (List.mem_of_getElem? hst₀)
    by_cases hk : k = j
    · subst hk
      simp only [if_true,Stream.write] at hm' ⊢
      split_ifs at hm' ⊢
      · rcases List.mem_append.mp hm' with hm' | hm'
        · exact hold m' hm'
        · obtain rfl : m' = m := by simpa using hm'
          exact hm st₀ hst₀
      · exact hold m' hm'
    · simp only [hk,if_false] at hm' ⊢
      exact hold m' hm'
  · intro x hx
    obtain rfl : x = ⟨pc,none⟩ := by simpa [await] using hx.symm
    exact hpc.along hcarries

theorem leaves_openStream {sid : String} {pc : ℕ → Pc} (h : Filed A s) (hpc : ∀ k, Carrying A s ⟨pc k,none⟩) :
    Leaves (Filed A) (Carrying A) s (s.openStream sid pc) := by
  have hcarries : Carries s.streams (s.openStream sid pc).1.streams := carries_append _ _
  refine ⟨⟨⟨?_,h.logged,h.stored⟩,h.named⟩,fun x hx => hx.along hcarries,?_⟩
  · intro st hst m hm
    rcases List.mem_append.mp hst with hst | hst
    · exact h.written st hst m hm
    · obtain rfl := List.mem_singleton.mp hst
      simp at hm
  · intro x hx
    obtain rfl : x = ⟨pc s.streams.length,none⟩ := by simpa [World.openStream,await] using hx.symm
    exact (hpc _).along hcarries

theorem sameUp_endStream (s : World) : SameUp s.streams s.endStream.streams := by
  unfold World.endStream
  cases s.mem.stream with
  | none => exact sameUp_refl _
  | some k =>
    apply sameUp_modify
    intro st
    split_ifs <;> exact ⟨rfl,rfl⟩

theorem leaves_endStream {pc : Pc} (h : Filed A s) (hpc : Carrying A s ⟨pc,none⟩) :
    Leaves (Filed A) (Carrying A) s (await s.endStream pc) := by
  refine ⟨h.onStreams (sameUp_endStream s) rfl rfl,fun x hx => hx.along (carries_endStream s),?_⟩
  · intro x hx
    obtain rfl : x = ⟨pc,none⟩ := by simpa [await] using hx.symm
    exact hpc.along (carries_endStream s)

theorem leaves_closeSession (h : Filed A s) (inflight : Bool) (sid : String) (c : Closing) :
    Leaves (Filed A) (Carrying A) s (s.closeSession inflight sid c) := by
  unfold World.closeSession
  split_ifs
  · exact Quiet.leaves (quiet_task rfl rfl rfl (carrying_none rfl rfl rfl rfl rfl)) h
  · exact leaves_endStream h (carrying_none rfl rfl rfl rfl rfl)

theorem streamNames_iff {k : ℕ} {sid : String} :
    streamNames s k sid = true ↔ ∃ st, s.streams[k]? = some st ∧ st.sessionId = sid := by
  unfold streamNames
  cases s.streams[k]? <;> simp

theorem streamNames_eq {k : ℕ} {sid : String} (h : streamNames s k sid = true) {st : Stream}
    (hst : s.streams[k]? = some st) : st.sessionId = sid := by
  obtain ⟨st',hst',hsid⟩ := streamNames_iff.mp h
  obtain rfl : st = st' := Option.some.inj (hst.symm.trans hst')
  exact hsid

/-- The drain sends its next entry on a stream of the directory's session. -/
theorem leaves_drainEach {es : List WALEntry} (h : Filed A s) (hes : ∀ e ∈ es, (e.message,e.filePath.1) ∈ A)
    (hok : drainNames s es = true) : Leaves (Filed A) (Carrying A) s (s.drainEach es) := by
  cases es with
  | nil => exact Quiet.leaves quiet_drainList h
  | cons e rest =>
    rw [World.drainEach]
    split
    · rename_i k hhealthy hk
      have hnames : streamNames s k e.filePath.1 = true := by simpa [drainNames,hhealthy,hk] using hok
      refine leaves_send h ?_ ⟨hes,by simp [toRead],by simp [lastRead],by simp [appending],by simp [sending]⟩
      intro st hst
      rw [streamNames_eq hnames hst]
      exact hes e (by simp)
    · exact Quiet.leaves (quiet_finish rfl rfl rfl) h

/-- An entry is what its file holds, under the id of the file's name. -/
theorem entry_mem {w : WAL} {n : FileName × ℕ} {m : EventBatch} {out : List WALEntry}
    (hout : ∀ e ∈ out, (e.message,e.filePath.1) ∈ A) (hm : ((⟨n.2,m.events⟩,w.sessionDir) : EventBatch × String) ∈ A) :
    ∀ e ∈ out ++ [WALEntry.of w.sessionDir n m], (e.message,e.filePath.1) ∈ A := by
  intro e he
  rcases List.mem_append.mp he with he | he
  · exact hout e he
  · obtain rfl := List.mem_singleton.mp he
    exact hm

/-- A task that has left the directory for a next file operation. -/
theorem carrying_entries {x : Task} (he : ∀ e ∈ readEntries x.pc, (e.message,e.filePath.1) ∈ A) (hr : toRead x.pc = [])
    (hc : lastRead x = none) (ha : appending x.pc = none) (hs : sending x.pc = none) :
    Carrying A s x :=
  ⟨he,by simp [hr],by simp [hc],by simp [ha],by simp [hs]⟩

/-- A batch whose send failed goes to the log of its stream's session. -/
theorem quiet_unsent {cfg : Config} {m : EventBatch} {k : ℕ} {gone : Bool}
    (hx : Carrying A s ⟨.sendBatch m k,some (.failed gone)⟩) (hok : logNames s k = true) :
    Quiet A s ((s.markStreamFailed cfg gone).persistToWAL m) := by
  refine quiet_markStreamFailed cfg gone (quiet_persistToWAL ?_)
  intro w hw
  obtain ⟨-,-,-,session,timer,-,hmem⟩ := markStreamFailed_same cfg gone s
  rw [hmem] at hw
  obtain ⟨st,hst,hm⟩ := hx.sends (m,k) rfl
  have hnames : streamNames s k w.sessionDir = true := by
    simpa [logNames,show s.mem.wal = some w from hw] using hok
  rw [← streamNames_eq hnames hst]
  exact hm

theorem resume_leaves {cfg : Config} {pc : Pc} {o : Outcome} (h : Filed A s) (hx : Carrying A s ⟨pc,some o⟩)
    (hok : resumesApart s pc o = true) : Leaves (Filed A) (Carrying A) s (resume cfg s pc o) := by
  have hresumes := resumes cfg s pc o
  generalize resume cfg s pc o = n at hresumes ⊢
  cases hresumes with
  | returns => exact Quiet.leaves quiet_return h
  | openUnlogged | openLogged => exact leaves_openStream h fun k => carrying_none rfl rfl rfl rfl rfl
  | openLog p sid =>
    have hq : Quiet A { s with mem := { s.mem with
        wal := some ⟨s.mem.usage.length,sid⟩, usage := s.mem.usage ++ [⟨0,false⟩] } } _ :=
      quiet_initWal (w := ⟨s.mem.usage.length,sid⟩) (k := .opening sid) (by simp [Init.accepted])
    exact Quiet.leaves (hq.after rfl rfl rfl) h
  | made | append | written =>
    exact Quiet.leaves (quiet_task rfl rfl rfl (carrying_append rfl rfl rfl rfl hx.appends)) h
  | named w l ns =>
    have hsel : ∀ n ∈ selected ns, batchIdOf n.1 = some n.2 := fun n hn => (mem_selected.mp hn).2
    exact Quiet.leaves (quiet_readNext (by simp) hsel hx.appends) h
  | read w l out n rest m =>
    have hrest : ∀ n ∈ rest, batchIdOf n.1 = some n.2 := fun n hn => hx.reads n (List.mem_cons_of_mem _ hn)
    exact Quiet.leaves (quiet_readNext (entry_mem hx.entries (hx.content _ rfl)) hrest hx.appends) h
  | unnamed w l | unread w l => exact Quiet.leaves (quiet_listFailed l) h
  | counted => exact Quiet.leaves (quiet_ready rfl rfl rfl (carrying_append rfl rfl rfl rfl hx.appends)) h
  | drain | removed => exact leaves_drainEach h hx.entries hok
  | drained | shaken | sent | appended | sessionGone => exact Quiet.leaves (quiet_finish rfl rfl rfl) h
  | appendedOffline m =>
    have hq : Quiet A s (finish (s.scheduleReconnect cfg)) := quiet_scheduleReconnect cfg
    exact Quiet.leaves (quiet_finish hq.streams hq.disk hq.stored) h
  | unsent m k gone => exact Quiet.leaves (quiet_unsent hx hok) h
  | renamed | stopped => exact Quiet.leaves (quiet_ready rfl rfl rfl (carrying_none rfl rfl rfl rfl rfl)) h
  | restart => exact Quiet.leaves (quiet_task rfl rfl rfl (carrying_none rfl rfl rfl rfl rfl)) h
  | reconnected k =>
    have hq : Quiet A { s with mem := { s.mem with streamHealthy := true, reconnectAttempt := 0 } } _ := quiet_drainWAL
    exact Quiet.leaves (hq.after rfl rfl rfl) h
  | unreachable => exact Quiet.leaves (quiet_scheduleReconnect cfg) h
  | drainSent => exact Quiet.leaves (quiet_task rfl rfl rfl (carrying_entries hx.entries rfl rfl rfl rfl)) h
  | drainLogless => exact Quiet.leaves (quiet_markStreamFailed cfg false (quiet_finish rfl rfl rfl)) h
  | drainUnsent e rest k gone | stuck w e rest gone =>
    exact Quiet.leaves (quiet_markStreamFailed cfg gone (quiet_finish rfl rfl rfl)) h
  | unlinked w e rest | missing w e rest =>
    have hrest : ∀ e ∈ rest, (e.message,e.filePath.1) ∈ A := fun e he => hx.entries e (List.mem_cons_of_mem _ he)
    exact Quiet.leaves (quiet_ready rfl rfl rfl (carrying_entries hrest rfl rfl rfl rfl)) h
  | flushed => exact leaves_endStream h (carrying_none rfl rfl rfl rfl rfl)

/-- An accepted batch goes to what belongs to the open session. -/
theorem send_leaves {b : Batch} (h : Filed A s) (hok : ∀ sid, s.mem.session = some sid → sendNames s sid = true)
    (hA : ∀ sid, s.mem.session = some sid → (⟨s.mem.nextBatchId,b⟩,sid) ∈ A) :
    Leaves (Filed A) (Carrying A) s (sendBatch s b) := by
  unfold sendBatch
  cases hsession : s.mem.session with
  | none => exact Quiet.leaves quiet_return h
  | some sid =>
    have hok := hok sid hsession
    have hA := hA sid hsession
    simp only [Option.isNone_some,Bool.false_eq_true,if_false]
    have hsame : Filed A { s with mem := { s.mem with nextBatchId := s.mem.nextBatchId+1 } } := h.same rfl rfl rfl
    split
    · rename_i k hhealthy hk
      have hnames : streamNames s k sid = true := by
        simpa [sendNames,show s.mem.streamHealthy = true from hhealthy,show s.mem.stream = some k from hk] using hok
      have hm : ∀ st, s.streams[k]? = some st → (⟨s.mem.nextBatchId,b⟩,st.sessionId) ∈ A := by
        intro st hst
        rw [streamNames_eq hnames hst]
        exact hA
      refine (leaves_send hsame hm ?_).pre fun x hx => hx.same rfl
      refine ⟨by simp [readEntries],by simp [toRead],by simp [lastRead],by simp [appending],?_⟩
      intro a ha
      obtain rfl : (⟨s.mem.nextBatchId,b⟩,k) = a := by simpa [sending] using ha
      obtain ⟨st,hst,-⟩ := streamNames_iff.mp hnames
      exact ⟨st,hst,hm st hst⟩
    · rename_i hnot
      have hwal : ∀ w ∈ s.mem.wal, (⟨s.mem.nextBatchId,b⟩,w.sessionDir) ∈ A := by
        intro w hw
        have hdir : w.sessionDir = sid := by
          unfold sendNames at hok
          split at hok
          · rename_i k hhealthy hk
            exact absurd hk (hnot k hhealthy)
          · simpa [Option.mem_def.mp hw] using hok
        rw [hdir]
        exact hA
      have hq : Quiet A { s with mem := { s.mem with nextBatchId := s.mem.nextBatchId+1 } } _ := quiet_persistToWAL hwal
      exact Quiet.leaves (hq.after rfl rfl rfl) h

theorem call_leaves {cfg : Config} {t : State} {c : Call} (h : Filed A t.world) (hok : apart t (.call c) = true)
    (hA : ∀ a ∈ accepts t (.call c), a ∈ A) : Leaves (Filed A) (Carrying A) t.world (t.callNext cfg c) := by
  cases c with
  | start =>
    simp only [State.callNext]
    split_ifs
    · exact Quiet.leaves quiet_return h
    · exact Quiet.leaves (quiet_finish rfl rfl rfl) h
    · exact Quiet.leaves quiet_return h
    · exact Quiet.leaves (quiet_task rfl rfl rfl (carrying_none rfl rfl rfl rfl rfl)) h
  | stop =>
    simp only [State.callNext]
    split
    · have hstop : Filed A { t.world with mem := { t.world.mem with
          shuttingDown := true, reconnectTimer := none, controlStream := false } } := h.same rfl rfl rfl
      exact (leaves_closeSession hstop _ _ _).pre fun x hx => hx.same rfl
    · exact Quiet.leaves (quiet_finish rfl rfl rfl) h
  | sendBatch b =>
    apply send_leaves h
    · intro sid hsession
      simpa [apart,hsession] using hok
    · intro sid hsession
      exact hA _ (by simp [accepts,hsession])
  | track => exact Quiet.leaves (quiet_finish rfl rfl rfl) h
  | untrack => exact Quiet.leaves (quiet_finish rfl rfl rfl) h

theorem handle_leaves (h : Filed A s) (inflight : Bool) (cmd : Cmd) :
    Leaves (Filed A) (Carrying A) s (handleSubscribeResponse s inflight cmd) := by
  cases cmd with
  | start sid =>
    simp only [handleSubscribeResponse]
    split
    · exact Quiet.leaves (quiet_task rfl rfl rfl (carrying_none rfl rfl rfl rfl rfl)) h
    · split_ifs
      · exact Quiet.leaves quiet_return h
      · exact leaves_closeSession h inflight _ _
  | stop sid =>
    simp only [handleSubscribeResponse]
    split
    · exact Quiet.leaves quiet_return h
    · split_ifs
      · exact leaves_closeSession h inflight _ _
      · exact Quiet.leaves quiet_return h
  | ping => exact Quiet.leaves quiet_return h

theorem timer_leaves {t : State} (h : Filed A t.world) : Leaves (Filed A) (Carrying A) t.world t.timerNext := by
  unfold State.timerNext
  simp only
  split
  · exact Quiet.leaves (quiet_finish rfl rfl rfl) h
  · split_ifs
    · exact Quiet.leaves (quiet_finish rfl rfl rfl) h
    · have hs : Filed A { t.world with mem := { t.world.mem with
          reconnectTimer := none, reconnectAttempt := t.world.mem.reconnectAttempt+1 } } := h.same rfl rfl rfl
      exact (leaves_openStream hs fun k => carrying_none rfl rfl rfl rfl rfl).pre fun x hx => hx.same rfl

/-- What a settled file operation leaves on disk was filed before, or is the batch of its append. -/
theorem effect_lookup {d d' : Disk} {pc : Pc} (h : DiskEffect d pc d') {p : Path} {m : EventBatch}
    (hm : d'.lookup p = some m) :
    d.lookup p = some m ∨ (∃ w, pc = .writeFile w m ∧ p = (w.sessionDir,tmpName m.batchId)) ∨
      ∃ w m', pc = .rename w m' ∧ p = (w.sessionDir,fileName m'.batchId) ∧
        d.lookup (w.sessionDir,tmpName m'.batchId) = some m := by
  cases h with
  | none => exact .inl hm
  | write w m' =>
    by_cases hp : p = (w.sessionDir,tmpName m'.batchId)
    · subst hp
      obtain rfl : m' = m := by simpa using hm
      exact .inr (.inl ⟨w,rfl,rfl⟩)
    · rw [AList.lookup_insert_ne hp] at hm
      exact .inl hm
  | rename w m' c hc =>
    by_cases hp : p = (w.sessionDir,fileName m'.batchId)
    · subst hp
      obtain rfl : c = m := by simpa using hm
      exact .inr (.inr ⟨w,m',rfl,rfl,hc⟩)
    · rw [AList.lookup_insert_ne hp] at hm
      by_cases ht : p = (w.sessionDir,tmpName m'.batchId)
      · subst ht
        simp at hm
      · rw [AList.lookup_erase_ne ht] at hm
        exact .inl hm
  | unlink w e rest =>
    by_cases hp : p = e.filePath
    · subst hp
      simp at hm
    · rw [AList.lookup_erase_ne hp] at hm
      exact .inl hm

theorem fileName_ne_tmpName (i j : ℕ) : fileName i ≠ tmpName j := by
  intro h
  have := congrArg batchIdOf h
  simp at this

theorem filed_settle {pc : Pc} (h : Filed A s) (hx : Carrying A s ⟨pc,none⟩) (hstreams : s'.streams = s.streams)
    (hstored : s'.log.stored = s.log.stored) (heffect : DiskEffect s.disk pc s'.disk) : Filed A s' := by
  refine ⟨⟨?_,?_,?_⟩,?_⟩
  · rw [hstreams]
    exact h.written
  · intro p m hm
    rcases effect_lookup heffect hm with hm | ⟨w,rfl,rfl⟩ | ⟨w,m',rfl,rfl,hc⟩
    · exact h.logged p m hm
    · exact hx.appends (m,w.sessionDir) rfl
    · exact h.logged (w.sessionDir,tmpName m'.batchId) m hc
  · rw [hstored]
    exact h.stored
  · intro p m hm
    rcases effect_lookup heffect hm with hm | ⟨w,rfl,rfl⟩ | ⟨w,m',rfl,rfl,hc⟩
    · exact h.named p m hm
    · exact .inr rfl
    · rcases h.named _ m hc with hn | hn
      · exact absurd hn.symm (fileName_ne_tmpName _ _)
      · exact .inl (congrArg fileName (tmpName_injective hn))

/-- What `readFile` returns is the batch under the id of the name. -/
theorem read_mem (h : Filed A s) {w : WAL} {n : FileName × ℕ} {m : EventBatch} (hn : batchIdOf n.1 = some n.2)
    (hm : s.disk.lookup (w.sessionDir,n.1) = some m) : (⟨n.2,m.events⟩,w.sessionDir) ∈ A := by
  have hid : n.2 = m.batchId := by
    rcases h.named _ m hm with hname | hname
    · rw [show n.1 = fileName m.batchId from hname] at hn
      simpa using hn.symm
    · rw [show n.1 = tmpName m.batchId from hname] at hn
      simp at hn
  rw [hid]
  exact h.logged _ m hm

theorem carrying_settle {pc : Pc} {r : Reply} {o : Outcome} (h : Filed A s) (hx : Carrying A s ⟨pc,none⟩)
    (hset : Client.settle s r pc = some (s',o)) : Carrying A s ⟨pc,some o⟩ := by
  cases hread : lastRead ⟨pc,some o⟩ with
  | none => exact hx.settled hread
  | some a =>
    refine ⟨hx.entries,hx.reads,?_,hx.appends,hx.sends⟩
    cases pc with
    | readFile w l out n rest =>
      simp only [Client.settle] at hset
      split at hset
      · rename_i m hm
        cases hset
        intro a ha
        obtain rfl : (⟨n.2,m.events⟩,w.sessionDir) = a := by simpa [lastRead] using ha
        exact read_mem h (hx.reads n (by simp [toRead])) hm
      · cases hset
        simp [lastRead] at hread
    | _ => simp [lastRead] at hread

/-- The engine takes a message of a stream: a batch is stored under the stream's session. -/
theorem filed_engine {k : ℕ} (h : Filed A s) (hs : s.engine k = some s') : Filed A s' := by
  unfold World.engine at hs
  split at hs
  · rename_i st hst
    have hup := h.written st (List.mem_of_getElem? hst)
    have hset : ∀ up down, (∀ r ∈ up, r ∈ st.up) → ∀ st' ∈ s.streams.set k { st with up := up, down := down },
        ∀ m, .batch m ∈ st'.up → (m,st'.sessionId) ∈ A := by
      intro up down hsub st' hst' m hm
      rcases List.mem_or_eq_of_mem_set hst' with hst' | rfl
      · exact h.written st' hst' m hm
      · exact hup m (hsub _ hm)
    split at hs
    · cases hs
    · rename_i up hup'
      cases hs
      exact ⟨⟨hset up _ fun r hr => hup' ▸ List.mem_cons_of_mem _ hr,h.logged,h.stored⟩,h.named⟩
    · rename_i m up hup'
      cases hs
      refine ⟨⟨hset up _ fun r hr => hup' ▸ List.mem_cons_of_mem _ hr,h.logged,?_⟩,h.named⟩
      intro x hx
      rcases List.mem_cons.mp hx with rfl | hx
      · exact hup m (hup' ▸ List.mem_cons_self)
      · exact h.stored x hx
  · cases hs

theorem obligations (cfg : Config) (A : List (EventBatch × String)) :
    Obligations cfg (fun t a => apart t a = true ∧ ∀ x ∈ accepts t a, x ∈ A) (Filed A) (Carrying A) where
  call t c hok h := call_leaves h.world hok.1 hok.2
  command t cmd h := by
    have hlog : Filed A { t.world with log := { t.world.log with commands := t.world.log.commands ++ [cmd] } } :=
      h.world.same rfl rfl rfl
    exact (handle_leaves hlog _ cmd).pre fun x hx => hx.same rfl
  timer t _ h := timer_leaves h.world
  settle t i r pc s o _ hi h hset := by
    have hx := h.tasks _ (List.mem_of_getElem? hi)
    obtain ⟨-,hstreams,hstored,-,-,heffect⟩ := settle_cases hset
    exact ⟨filed_settle h.world hx hstreams hstored heffect,(carrying_settle h.world hx hset).same hstreams,
      fun x _ hx => hx.same hstreams⟩
  resume t i pc o hok hi h := by
    have hok := hok.1
    simp only [apart,hi] at hok
    exact resume_leaves h.world (h.tasks _ (List.mem_of_getElem? hi)) hok
  engine s s' k h hs := ⟨filed_engine h hs,fun x hx => hx.along (carries_keeps (engine_keeps hs).2)⟩
  deliver s tasks k st r down h hst _ := by
    have hcarries := carries_keeps (deliver_keeps tasks r down hst).2
    have hset : SameUp s.streams (s.streams.set k { st with down := down }) := sameUp_set hst ⟨rfl,rfl⟩
    refine ⟨h.onStreams ?_ ?_ ?_,?_⟩
    · cases r with
      | ack => exact hset.trans (sameUp_modify fun st => ⟨rfl,rfl⟩)
      | batchAck m => exact hset
    · cases r <;> rfl
    · cases r <;> rfl
    · intro x hx
      rcases hear_cases k r x with he | ⟨-,he,-⟩
      · rw [he]
        exact hx.along hcarries
      · rw [he]
        exact (hx.settled (lastRead_none (by simp))).along hcarries
  streamError t k gone st _ hst h := by
    obtain ⟨hstreams,hdisk,hlog,-⟩ :=
      markStreamFailed_same cfg gone { t.world with streams := t.world.streams.set k st.kill }
    have hcarries : Carries t.world.streams
        (World.markStreamFailed cfg gone { t.world with streams := t.world.streams.set k st.kill }).streams := by
      rw [hstreams,set_eq_modify hst]
      exact carries_modify fun st => ⟨rfl,rfl⟩
    refine ⟨h.world.onStreams ?_ hdisk (congrArg Log.stored hlog),?_⟩
    · rw [hstreams]
      exact sameUp_set hst ⟨rfl,rfl⟩
    · intro x hx
      rcases lose_cases k gone x with he | ⟨-,he,-⟩
      · rw [he]
        exact hx.along hcarries
      · rw [he]
        exact (hx.settled (lastRead_none (by simp))).along hcarries
  crash t h := by
    refine h.world.onStreams ?_ rfl rfl
    intro st' hst'
    obtain ⟨st,hst,rfl⟩ := List.mem_map.mp hst'
    exact ⟨st,hst,rfl,rfl⟩

end

theorem run_accepted {cfg : Config} {ok : State → Action → Prop} {t t' : State} {as : List Action}
    (hr : Run (step cfg) ok t as t') (A : List (EventBatch × String)) (hA : ∀ x ∈ acceptedAlong cfg t as, x ∈ A) :
    Run (step cfg) (fun t a => ok t a ∧ ∀ x ∈ accepts t a, x ∈ A) t as t' := by
  induction hr with
  | nil t => exact .nil t
  | cons hok hst _ ih =>
    rename_i t u v a as _
    simp only [acceptedAlong,hst,List.mem_append,Option.mem_toList] at hA
    exact .cons ⟨hok,fun x hx => hA x (.inl hx)⟩ hst (ih fun x hx => hA x (.inr hx))

theorem filed_init (A : List (EventBatch × String)) : Sound (Filed A) (Carrying A) init := by
  refine ⟨⟨⟨?_,?_,?_⟩,?_⟩,?_⟩ <;> simp [init]

/-- In every run that hands no batch to a stream or a directory of another session, whatever is on its way on a
stream, in a directory of the log or in the engine's store was accepted while that session was open. -/
theorem apart_run_isolated {cfg : Config} {t : State} {as : List Action}
    (hr : Run (step cfg) (fun t a => apart t a = true) init as t) : Isolated (acceptedAlong cfg init as) t.world :=
  (run_sound (obligations cfg _) (run_accepted hr _ fun _ hx => hx) (filed_init _)).world.toIsolated

/-- A send on the stream of session A fails after the client went on to session B; the batch is logged in the
directory of B and drained on the next stream of B. -/
def lateFailureRun : List Action := List.flatten
  [[.call .start,.command (.start "A")],attach "A" 0 0,
    [.call (.sendBatch ⟨1,10⟩),.command (.start "B"),.settle 1 .ok,.resume 1,.settle 1 .ok,.resume 1,.resume 1],
    [.settle 1 (.session "B"),.resume 1,.settle 1 .ok,.resume 1,.settle 1 .ok,.resume 1,.resume 1,.resume 1],
    [.engine 1,.deliver 1,.resume 1,.streamError 0 false,.resume 0,.resume 0],turn .ok,turn .ok,
    [.resume 0,.timer,.engine 2,.deliver 2,.resume 0],turn .ok,turn .ok,[.resume 0,.engine 2]]

theorem late_failure_crosses : ∃ t, Run (step remoteConfig) (fun _ _ => True) init lateFailureRun t ∧
    acceptedAlong remoteConfig init lateFailureRun = [(⟨1,⟨1,10⟩⟩,"A")] ∧
    t.world.disk.lookup ("B",fileName 1) = some ⟨1,⟨1,10⟩⟩ ∧ ("B",⟨1,⟨1,10⟩⟩) ∈ t.world.log.stored ∧
    ¬ Isolated (acceptedAlong remoteConfig init lateFailureRun) t.world := by
  have hexec : ∃ t ∈ exec (step remoteConfig) init lateFailureRun,
      t.world.disk.lookup ("B",fileName 1) = some ⟨1,⟨1,10⟩⟩ ∧ ("B",⟨1,⟨1,10⟩⟩) ∈ t.world.log.stored := by decide +kernel
  have haccepted : acceptedAlong remoteConfig init lateFailureRun = [(⟨1,⟨1,10⟩⟩,"A")] := by decide +kernel
  obtain ⟨t,ht,hdisk,hstored⟩ := hexec
  refine ⟨t,Run.of_exec_true (Option.mem_def.mp ht),haccepted,hdisk,hstored,?_⟩
  intro h
  have hcross := h.stored _ hstored
  rw [haccepted] at hcross
  simp at hcross

/-- A batch of session A is logged, drained and acked, then session B is opened and gets the next batch. -/
def switchRun : List Action := List.flatten
  [[.call .start,.command (.start "A")],attach "A" 0 0,[.streamError 0 false],persistRun ⟨1,10⟩,
    [.timer,.engine 1,.deliver 1,.resume 0],turn .ok,turn .ok,[.resume 0,.engine 1,.deliver 1,.resume 0],
    turn .ok,[.resume 0],turn .ok,[.resume 0,.command (.start "B")],turn .ok,[.resume 0],
    attach "B" 0 2,[.call (.sendBatch ⟨2,10⟩),.engine 2]]

theorem apart_run_isolated_switchRun : ∃ t,
    Run (step remoteConfig) (fun t a => apart t a = true) init switchRun t ∧
      t.world.log.stored = [("B",⟨2,⟨2,10⟩⟩),("A",⟨1,⟨1,10⟩⟩)] ∧
      Isolated (acceptedAlong remoteConfig init switchRun) t.world := by
  have hexec : ∃ t ∈ exec (step remoteConfig) init switchRun,
      t.world.log.stored = [("B",⟨2,⟨2,10⟩⟩),("A",⟨1,⟨1,10⟩⟩)] := by decide +kernel
  obtain ⟨t,ht,hstored⟩ := hexec
  have hr : Run (step remoteConfig) (fun t a => apart t a = true) init switchRun t :=
    Run.of_exec (by decide +kernel) (Option.mem_def.mp ht)
  exact ⟨t,hr,hstored,apart_run_isolated hr⟩

end SessionIsolation
end Clearvoiance
