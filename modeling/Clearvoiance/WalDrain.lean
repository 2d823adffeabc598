import Clearvoiance.ClientInvariant

/-! The write-ahead log of a healthy client.  A drain starts when a reconnect completes and at no other time, and
runs until a listing is empty.  As long as a session is not opened on a directory that holds batches, no
batch is filed while the stream is healthy and no drain runs, and listings do not fail, the directory of
the open session holds no batch whenever the stream is healthy and no drain is running. -/
namespace Clearvoiance
namespace WalDrain

open Client Wal Transition

def NoFiles (d : Disk) (dir : String) : Prop := ∀ n ∈ readdir d dir, batchIdOf n = none

instance (d : Disk) (dir : String) : Decidable (NoFiles d dir) :=
  inferInstanceAs (Decidable (∀ n ∈ readdir d dir, batchIdOf n = none))

/-- The task is inside `sendBatch`. -/
def sending : Pc → Bool
  | .appended _ => true
  | pc => pc.accepted.isSome

/-- Healthy, with no drain, reconnect, send, append or ack under way. -/
structure Quiescent (t : State) : Prop where
  healthy : t.world.mem.streamHealthy = true
  draining : t.world.mem.draining = false
  timer : t.world.mem.reconnectTimer = none
  tasks : ∀ x ∈ t.tasks, sending x.pc = false
  streams : ∀ st ∈ t.world.streams, st.status = .dead ∨ (∀ r ∈ st.up, r = .handshake) ∧ ∀ r ∈ st.down, r = .ack

/-- The stream is unhealthy or no session is open. -/
def idling (s : World) : Bool := !s.mem.streamHealthy || s.mem.session.isNone

def resumesCalm (cfg : Config) (s : World) : Pc → Outcome → Bool
  | .startSession _,.session sid => cfg.walDisabled || s.mem.session.all fun cur => cur = sid
  | .openStream sid _,.done =>
    s.mem.stream.isSome && (cfg.walDisabled || s.mem.wal.any fun w => w.sessionDir = sid) &&
      (s.mem.draining || NoFiles s.disk sid)
  | .tryReconnect _,.done => s.mem.stream.isSome
  | .readdir _ .drain,.names _ => true
  | .readdir _ .drain,_ => idling s
  | .readFile _ .drain _ _ _,.content _ => true
  | .readFile _ .drain _ _ _,_ => idling s
  | .listed w .drain [],_ => !s.mem.streamHealthy || s.mem.session.all fun cur => cur = w.sessionDir
  | _,_ => true

/-- Sessions open on empty directories, batches are filed only while a drain or a reconnect will see them, and
listings go through. -/
def calm (cfg : Config) (t : State) : Action → Bool
  | .resume i =>
    match t.tasks[i]? with
    | some ⟨pc,some o⟩ => resumesCalm cfg t.world pc o
    | _ => true
  | .settle i .ok =>
    match t.tasks[i]? with
    | some ⟨.rename w _,_⟩ =>
      !(t.world.mem.session = some w.sessionDir && t.world.mem.streamHealthy && !t.world.mem.draining)
    | _ => true
  | _ => true

def usesWal : Pc → Bool
  | .mkdir _ _ | .readdir _ _ | .readFile _ _ _ _ _ | .listed _ _ _ | .inited _ _ => true
  | .writeFile _ _ | .rename _ _ | .drainSend _ _ _ | .unlink _ _ _ | .removed _ => true
  | _ => false

def emptied (x : Task) : Option String :=
  match x.pc,x.outcome with
  | .readdir w .drain,some (.names ns) => if selected ns = [] then some w.sessionDir else none
  | .listed w .drain [],some _ => some w.sessionDir
  | _,_ => none

structure LogOk (cfg : Config) (s : World) : Prop where
  drained : ∀ sid, s.mem.session = some sid → s.mem.streamHealthy = true → s.mem.draining = false → NoFiles s.disk sid
  stream : s.mem.streamHealthy = true → s.mem.stream.isSome = true
  wal : cfg.walDisabled = false → ∀ sid, s.mem.session = some sid → ∃ w, s.mem.wal = some w ∧ w.sessionDir = sid
  off : cfg.walDisabled = true → s.mem.wal = none ∧ s.mem.draining = false
  clean : cfg.walDisabled = true → ∀ sid, s.mem.session = some sid → NoFiles s.disk sid

structure TaskOk (cfg : Config) (s : World) (x : Task) : Prop where
  enabled : usesWal x.pc = true → cfg.walDisabled = false
  empty : ∀ dir ∈ emptied x, NoFiles s.disk dir

section

variable {cfg : Config} {s s' : World}

theorem TaskOk.same {x : Task} (h : TaskOk cfg s x) (hdisk : s'.disk = s.disk) : TaskOk cfg s' x :=
  ⟨h.enabled,by rw [hdisk]; exact h.empty⟩

/-- A function that leaves the files alone and ends no drain. -/
structure Quiet (cfg : Config) (s : World) (n : Next) : Prop where
  disk : n.1.disk = s.disk
  session : ∀ sid, n.1.mem.session = some sid → s.mem.session = some sid
  healthy : n.1.mem.streamHealthy = true → s.mem.streamHealthy = true
  stream : n.1.mem.streamHealthy = true → s.mem.stream.isSome = true → n.1.mem.stream.isSome = true
  wal : n.1.mem.wal = s.mem.wal
  draining : n.1.mem.draining = s.mem.draining
  task : ∀ x ∈ n.2, TaskOk cfg s x

theorem LogOk.same (h : LogOk cfg s) (hmem : s'.mem = s.mem) (hdisk : s'.disk = s.disk) : LogOk cfg s' := by
  refine ⟨?_,?_,?_,?_,?_⟩
  · rw [hmem,hdisk]
    exact h.drained
  · rw [hmem]
    exact h.stream
  · rw [hmem]
    exact h.wal
  · rw [hmem]
    exact h.off
  · rw [hmem,hdisk]
    exact h.clean

theorem Quiet.leaves {n : Next} (hn : Quiet cfg s n) (h : LogOk cfg s) : Leaves (LogOk cfg) (TaskOk cfg) s n := by
  refine ⟨⟨?_,?_,?_,?_,?_⟩,fun x hx => hx.same hn.disk,fun x hx => (hn.task x hx).same hn.disk⟩
  · intro sid hs hh hd
    rw [hn.disk]
    exact h.drained sid (hn.session sid hs) (hn.healthy hh) (hn.draining.symm.trans hd)
  · intro hh
    exact hn.stream hh (h.stream (hn.healthy hh))
  · intro hoff sid hs
    rw [hn.wal]
    exact h.wal hoff sid (hn.session sid hs)
  · intro hoff
    rw [hn.wal,hn.draining]
    exact h.off hoff
  · intro hoff sid hs
    rw [hn.disk]
    exact h.clean hoff sid (hn.session sid hs)

theorem Quiet.after {n : Next} (hn : Quiet cfg s' n) (hdisk : s'.disk = s.disk)
    (hsession : ∀ sid, s'.mem.session = some sid → s.mem.session = some sid)
    (hhealthy : s'.mem.streamHealthy = s.mem.streamHealthy) (hstream : s'.mem.stream = s.mem.stream)
    (hwal : s'.mem.wal = s.mem.wal) (hdraining : s'.mem.draining = s.mem.draining) : Quiet cfg s n :=
  ⟨hn.disk.trans hdisk,fun sid hs => hsession sid (hn.session sid hs),fun hh => hhealthy.symm.trans (hn.healthy hh),
    fun hh hs => hn.stream hh (by rw [hstream,hs]),hn.wal.trans hwal,hn.draining.trans hdraining,
    fun x hx => (hn.task x hx).same hdisk.symm⟩

theorem quiet_return : Quiet cfg s (finish s) :=
  ⟨rfl,fun _ hs => hs,id,fun _ hs => hs,rfl,rfl,by simp [finish]⟩

theorem quiet_task {x : Task} (hx : TaskOk cfg s x) : Quiet cfg s (s,some x) :=
  ⟨rfl,fun _ hs => hs,id,fun _ hs => hs,rfl,rfl,by simpa using hx⟩

theorem taskOk_plain {x : Task} (hu : usesWal x.pc = false) (he : emptied x = none) : TaskOk cfg s x :=
  ⟨by simp [hu],by simp [he]⟩

theorem taskOk_wal {x : Task} (hon : cfg.walDisabled = false) (he : emptied x = none) : TaskOk cfg s x :=
  ⟨fun _ => hon,by simp [he]⟩

theorem quiet_initWal {w : WAL} {k : Init} (hon : cfg.walDisabled = false) : Quiet cfg s (s.initWal w k) := by
  unfold World.initWal
  split_ifs
  · exact quiet_task (taskOk_wal hon rfl)
  · exact quiet_task (taskOk_wal hon rfl)

theorem LogOk.enabled (h : LogOk cfg s) {w : WAL} (hw : s.mem.wal = some w) : cfg.walDisabled = false := by
  by_contra hoff
  rw [Bool.not_eq_false] at hoff
  rw [(h.off hoff).1] at hw
  cases hw

theorem quiet_persistToWAL {m : EventBatch} (hon : ∀ w, s.mem.wal = some w → cfg.walDisabled = false) :
    Quiet cfg s (s.persistToWAL m) := by
  unfold World.persistToWAL
  split
  · exact quiet_return
  · rename_i w hw
    exact quiet_initWal (hon w hw)

theorem leaves_unhealthy {n : Next} (h : LogOk cfg s) (hdisk : n.1.disk = s.disk)
    (hsession : ∀ sid, n.1.mem.session = some sid → s.mem.session = some sid) (hhealthy : n.1.mem.streamHealthy = false)
    (hwal : n.1.mem.wal = s.mem.wal) (hdraining : n.1.mem.draining = true → s.mem.draining = true)
    (htask : ∀ x ∈ n.2, TaskOk cfg s x) : Leaves (LogOk cfg) (TaskOk cfg) s n := by
  refine ⟨⟨?_,?_,?_,?_,?_⟩,fun x hx => hx.same hdisk,fun x hx => (htask x hx).same hdisk⟩
  · intro sid _ hh
    rw [hhealthy] at hh
    cases hh
  · intro hh
    rw [hhealthy] at hh
    cases hh
  · intro hoff sid hs
    rw [hwal]
    exact h.wal hoff sid (hsession sid hs)
  · intro hoff
    obtain ⟨hnone,hd⟩ := h.off hoff
    refine ⟨hwal.trans hnone,?_⟩
    by_contra hd'
    rw [Bool.not_eq_false] at hd'
    rw [hdraining hd'] at hd
    cases hd
  · intro hoff sid hs
    rw [hdisk]
    exact h.clean hoff sid (hsession sid hs)

/-- A drain ends: the stream is unhealthy, no session is open, or its directory holds no batch. -/
theorem leaves_endDrain (h : LogOk cfg s)
    (hend : s.mem.streamHealthy = true → ∀ sid, s.mem.session = some sid → NoFiles s.disk sid) :
    Leaves (LogOk cfg) (TaskOk cfg) s (finish s.endDrain) := by
  refine ⟨⟨?_,h.stream,h.wal,?_,h.clean⟩,fun x hx => hx.same rfl,by simp [finish]⟩
  · intro sid hs hh _
    exact hend hh sid hs
  · intro hoff
    exact ⟨(h.off hoff).1,rfl⟩

/-- The drain goes on with a listing, or the stream is gone. -/
theorem leaves_drainList (h : LogOk cfg s) (hon : cfg.walDisabled = false) :
    Leaves (LogOk cfg) (TaskOk cfg) s s.drainList := by
  unfold World.drainList
  split
  · exact Quiet.leaves (quiet_task (taskOk_wal hon rfl)) h
  · rename_i hnot
    apply leaves_endDrain h
    intro hh sid hs
    obtain ⟨w,hw,-⟩ := h.wal hon sid hs
    obtain ⟨k,hk⟩ := Option.isSome_iff_exists.mp (h.stream hh)
    exact absurd hw (hnot k w hh hk)

theorem leaves_drainEach {es : List WALEntry} (h : LogOk cfg s) (hon : cfg.walDisabled = false) :
    Leaves (LogOk cfg) (TaskOk cfg) s (s.drainEach es) := by
  cases es with
  | nil => exact leaves_drainList h hon
  | cons e rest =>
    rw [World.drainEach]
    split
    · rename_i k _ _
      have hnext : TaskOk cfg s ⟨.drainSend e rest k,none⟩ := taskOk_wal hon rfl
      exact Quiet.leaves ⟨rfl,fun _ hs => hs,id,fun _ hs => hs,rfl,rfl,by simpa [await] using hnext⟩ h
    · rename_i hnot
      apply leaves_endDrain h
      intro hh
      obtain ⟨k,hk⟩ := Option.isSome_iff_exists.mp (h.stream hh)
      exact absurd hk (hnot k hh)

/-- A reconnect starts a drain, unless one is running or there is no log. -/
theorem leaves_drainWAL (h : LogOk cfg s) (hstream : s.mem.stream.isSome = true) :
    Leaves (LogOk cfg) (TaskOk cfg) s
      (World.drainWAL { s with mem := { s.mem with streamHealthy := true, reconnectAttempt := 0 } }) := by
  unfold World.drainWAL
  split_ifs with hskip
  · refine ⟨⟨?_,fun _ => hstream,h.wal,h.off,h.clean⟩,fun x hx => hx.same rfl,by simp [finish]⟩
    intro sid hs _ hd
    have hnone : s.mem.wal = none := by simpa [show s.mem.draining = false from hd] using hskip
    cases hon : cfg.walDisabled with
    | true => exact h.clean hon sid hs
    | false =>
      obtain ⟨w,hw,-⟩ := h.wal hon sid hs
      rw [hnone] at hw
      cases hw
  · have hwal : s.mem.wal ≠ none ∧ s.mem.draining = false := by simpa using hskip
    obtain ⟨w,hw⟩ := Option.ne_none_iff_exists'.mp hwal.1
    have hon := h.enabled hw
    have hdrain : LogOk cfg { s with mem := { s.mem with
        streamHealthy := true, reconnectAttempt := 0, draining := true } } := by
      refine ⟨?_,fun _ => hstream,h.wal,?_,h.clean⟩
      · intro sid _ _ hd
        cases hd
      · intro hoff
        rw [hon] at hoff
        cases hoff
    exact (leaves_drainList hdrain hon).pre fun x hx => hx.same rfl

theorem leaves_openStream {sid : String} {pc : ℕ → Pc} (h : LogOk cfg s) (hpc : ∀ k, TaskOk cfg s ⟨pc k,none⟩) :
    Leaves (LogOk cfg) (TaskOk cfg) s (s.openStream sid pc) :=
  Quiet.leaves ⟨rfl,fun _ hs => hs,id,fun _ _ => rfl,rfl,rfl,by simpa [World.openStream,await] using hpc _⟩ h

theorem leaves_endStream {pc : Pc} (h : LogOk cfg s) (hpc : TaskOk cfg s ⟨pc,none⟩) :
    Leaves (LogOk cfg) (TaskOk cfg) s (await s.endStream pc) :=
  leaves_unhealthy h rfl (fun _ hs => hs) rfl rfl id (by simpa [await] using hpc)

theorem leaves_closeSession (h : LogOk cfg s) (inflight : Bool) (sid : String) (c : Closing) :
    Leaves (LogOk cfg) (TaskOk cfg) s (s.closeSession inflight sid c) := by
  unfold World.closeSession
  split_ifs
  · exact Quiet.leaves (quiet_task (taskOk_plain rfl rfl)) h
  · exact leaves_endStream h (taskOk_plain rfl rfl)

theorem failed_session (gone : Bool) (sid : String) (hs : (s.markStreamFailed cfg gone).mem.session = some sid) :
    s.mem.session = some sid := by
  obtain ⟨-,-,-,session,timer,hsession,hmem⟩ := markStreamFailed_same cfg gone s
  rw [hmem] at hs
  rcases hsession with hsession | hsession
  · exact hsession.symm.trans hs
  · rw [hsession] at hs
    cases hs

theorem leaves_markStreamFailed (h : LogOk cfg s) (gone : Bool) :
    Leaves (LogOk cfg) (TaskOk cfg) s (finish (s.markStreamFailed cfg gone)) := by
  obtain ⟨-,hdisk,-,session,timer,-,hmem⟩ := markStreamFailed_same cfg gone s
  refine leaves_unhealthy h hdisk (failed_session gone) ?_ ?_ ?_ (by simp [finish])
  · simp only [finish,hmem]
  · simp only [finish,hmem]
  · simp only [finish,hmem]
    exact id

theorem leaves_failed (h : LogOk cfg s) (gone : Bool) :
    Leaves (LogOk cfg) (TaskOk cfg) s (finish (s.markStreamFailed cfg gone).endDrain) := by
  obtain ⟨-,hdisk,-,session,timer,-,hmem⟩ := markStreamFailed_same cfg gone s
  refine leaves_unhealthy h hdisk (failed_session gone) ?_ ?_ ?_ (by simp [finish])
  · simp only [finish,World.endDrain,hmem]
  · simp only [finish,World.endDrain,hmem]
  · intro hd
    cases hd

theorem leaves_failedSend (h : LogOk cfg s) (gone : Bool) (m : EventBatch) :
    Leaves (LogOk cfg) (TaskOk cfg) s ((s.markStreamFailed cfg gone).persistToWAL m) := by
  obtain ⟨-,hdisk,-,session,timer,-,hmem⟩ := markStreamFailed_same cfg gone s
  have hon : ∀ w, (s.markStreamFailed cfg gone).mem.wal = some w → cfg.walDisabled = false := by
    intro w hw
    rw [hmem] at hw
    exact h.enabled hw
  have hq := quiet_persistToWAL (m := m) hon
  refine leaves_unhealthy h (hq.disk.trans hdisk) (fun sid hs => failed_session gone sid (hq.session sid hs)) ?_ ?_ ?_ ?_
  · by_contra hh
    rw [Bool.not_eq_false] at hh
    have := hq.healthy hh
    rw [hmem] at this
    cases this
  · rw [hq.wal,hmem]
  · rw [hq.draining,hmem]
    exact id
  · intro x hx
    exact (hq.task x hx).same hdisk.symm

theorem quiet_scheduleReconnect : Quiet cfg s (finish (s.scheduleReconnect cfg)) := by
  obtain ⟨-,hdisk,-,timer,hmem⟩ := scheduleReconnect_same cfg s
  refine ⟨hdisk,?_,?_,?_,?_,?_,by simp [finish]⟩
  · simp only [finish,hmem]
    exact fun _ hs => hs
  · simp only [finish,hmem]
    exact id
  · simp only [finish,hmem]
    exact fun _ hs => hs
  · simp only [finish,hmem]
  · simp only [finish,hmem]

theorem taskOk_listed {w : WAL} {l : Listing} {out : List WALEntry} (hon : cfg.walDisabled = false)
    (hempty : l = .drain → out = [] → NoFiles s.disk w.sessionDir) :
    TaskOk cfg s ⟨.listed w l out,some .done⟩ := by
  refine ⟨fun _ => hon,?_⟩
  intro dir hdir
  cases l with
  | init k => simp [emptied] at hdir
  | drain =>
    cases out with
    | nil =>
      obtain rfl : w.sessionDir = dir := by simpa [emptied] using hdir
      exact hempty rfl rfl
    | cons e es => simp [emptied] at hdir

theorem quiet_readNext {w : WAL} {l : Listing} {out : List WALEntry} {ns : List (FileName × ℕ)}
    (hon : cfg.walDisabled = false) (hempty : l = .drain → out = [] → ns = [] → NoFiles s.disk w.sessionDir) :
    Quiet cfg s (readNext s w l out ns) := by
  cases ns with
  | nil => exact quiet_task (taskOk_listed hon fun hl ho => hempty hl ho rfl)
  | cons n rest =>
    have he : emptied ⟨.readFile w l out n rest,none⟩ = none := rfl
    exact quiet_task (taskOk_wal hon he)

theorem leaves_listFailed {l : Listing} (h : LogOk cfg s) (hok : l = .drain → idling s = true) :
    Leaves (LogOk cfg) (TaskOk cfg) s (s.listFailed l) := by
  cases l with
  | init k => exact Quiet.leaves quiet_return h
  | drain =>
    apply leaves_endDrain h
    intro hh sid hs
    have hidle := hok rfl
    simp [idling,hh,hs] at hidle

theorem named_leaves {w : WAL} {l : Listing} {ns : List FileName} (h : LogOk cfg s)
    (hx : TaskOk cfg s ⟨.readdir w l,some (.names ns)⟩) :
    Leaves (LogOk cfg) (TaskOk cfg) s (readNext s w l [] (selected ns)) := by
  refine Quiet.leaves (quiet_readNext (hx.enabled rfl) ?_) h
  rintro rfl _ hsel
  exact hx.empty w.sessionDir (by simp [emptied,hsel])

theorem drained_leaves {w : WAL} {o : Outcome} (h : LogOk cfg s) (hx : TaskOk cfg s ⟨.listed w .drain [],some o⟩)
    (hok : resumesCalm cfg s (.listed w .drain []) o = true) :
    Leaves (LogOk cfg) (TaskOk cfg) s (finish s.endDrain) := by
  apply leaves_endDrain h
  intro hh sid hs
  obtain rfl : sid = w.sessionDir := by simpa [resumesCalm,hh,hs] using hok
  exact hx.empty w.sessionDir rfl

theorem unnamed_leaves {w : WAL} {l : Listing} {o : Outcome} (h : LogOk cfg s) (ho : ∀ ns, o ≠ .names ns)
    (hok : resumesCalm cfg s (.readdir w l) o = true) : Leaves (LogOk cfg) (TaskOk cfg) s (s.listFailed l) := by
  apply leaves_listFailed h
  rintro rfl
  cases o with
  | names ns => exact absurd rfl (ho ns)
  | _ => exact hok

theorem unread_leaves {w : WAL} {l : Listing} {out : List WALEntry} {n : FileName × ℕ} {rest : List (FileName × ℕ)}
    {o : Outcome} (h : LogOk cfg s) (ho : ∀ m, o ≠ .content m)
    (hok : resumesCalm cfg s (.readFile w l out n rest) o = true) :
    Leaves (LogOk cfg) (TaskOk cfg) s (s.listFailed l) := by
  apply leaves_listFailed h
  rintro rfl
  cases o with
  | content m => exact absurd rfl (ho m)
  | _ => exact hok

theorem opened_leaves {sid : String} {k : ℕ} (h : LogOk cfg s) (hok : resumesCalm cfg s (.openStream sid k) .done = true) :
    Leaves (LogOk cfg) (TaskOk cfg) s
      (finish { s with mem := { s.mem with session := some sid, streamHealthy := true } }) := by
  simp only [resumesCalm,Bool.and_eq_true,Bool.or_eq_true,decide_eq_true_eq] at hok
  obtain ⟨⟨hstream,hwal⟩,hfiles⟩ := hok
  refine ⟨⟨?_,fun _ => hstream,?_,h.off,?_⟩,fun x hx => hx.same rfl,by simp [finish]⟩
  · intro sid' hs _ hd
    obtain rfl : sid = sid' := Option.some.inj hs
    rcases hfiles with hfiles | hfiles
    · rw [show s.mem.draining = false from hd] at hfiles
      cases hfiles
    · exact hfiles
  · intro hon sid' hs
    obtain rfl : sid = sid' := Option.some.inj hs
    rw [hon] at hwal
    have hdir : ∃ w, s.mem.wal = some w ∧ w.sessionDir = sid := by simpa [Option.any_eq_true] using hwal
    exact hdir
  · intro hoff sid' hs
    obtain rfl : sid = sid' := Option.some.inj hs
    rcases hfiles with hfiles | hfiles
    · rw [(h.off hoff).2] at hfiles
      cases hfiles
    · exact hfiles

theorem started_leaves {p : Option String} {sid : String} (h : LogOk cfg s) (hon : cfg.walDisabled = false)
    (hok : resumesCalm cfg s (.startSession p) (.session sid) = true) :
    Leaves (LogOk cfg) (TaskOk cfg) s (World.initWal { s with mem := { s.mem with
      wal := some ⟨s.mem.usage.length,sid⟩, usage := s.mem.usage ++ [⟨0,false⟩] } }
      ⟨s.mem.usage.length,sid⟩ (.opening sid)) := by
  have hcur : ∀ cur, s.mem.session = some cur → cur = sid := by
    intro cur hs
    simpa [resumesCalm,hon,hs] using hok
  have hnew : LogOk cfg { s with mem := { s.mem with
      wal := some ⟨s.mem.usage.length,sid⟩, usage := s.mem.usage ++ [⟨0,false⟩] } } := by
    refine ⟨h.drained,h.stream,?_,?_,h.clean⟩
    · intro _ cur hs
      exact ⟨_,rfl,(hcur cur hs).symm⟩
    · intro hoff
      rw [hon] at hoff
      cases hoff
  exact (Quiet.leaves (quiet_initWal hon) hnew).pre fun x hx => hx.same rfl

/-- A function that returns with other fields than the ones the log depends on. -/
theorem leaves_return (h : LogOk cfg s) (hdisk : s'.disk = s.disk)
    (hsession : ∀ sid, s'.mem.session = some sid → s.mem.session = some sid)
    (hhealthy : s'.mem.streamHealthy = s.mem.streamHealthy) (hstream : s'.mem.stream = s.mem.stream)
    (hwal : s'.mem.wal = s.mem.wal) (hdraining : s'.mem.draining = s.mem.draining) :
    Leaves (LogOk cfg) (TaskOk cfg) s (finish s') :=
  Quiet.leaves (quiet_return.after hdisk hsession hhealthy hstream hwal hdraining) h

theorem leaves_setUsage {w : WAL} {f : Usage → Usage} {pc : Pc} (h : LogOk cfg s) (hpc : TaskOk cfg s ⟨pc,some .done⟩) :
    Leaves (LogOk cfg) (TaskOk cfg) s (ready (s.setUsage w f) pc) :=
  Quiet.leaves ⟨rfl,fun _ hs => hs,id,fun _ hs => hs,rfl,rfl,by simpa [ready] using hpc⟩ h

theorem resume_leaves {pc : Pc} {o : Outcome} (h : LogOk cfg s) (hx : TaskOk cfg s ⟨pc,some o⟩)
    (hok : resumesCalm cfg s pc o = true) : Leaves (LogOk cfg) (TaskOk cfg) s (resume cfg s pc o) := by
  have hresumes := resumes cfg s pc o
  generalize resume cfg s pc o = n at hresumes ⊢
  cases hresumes with
  | returns => exact Quiet.leaves quiet_return h
  | openUnlogged | openLogged => exact leaves_openStream h fun k => taskOk_plain rfl rfl
  | openLog p sid hon => exact started_leaves h hon hok
  | made | append | written | drainSent => exact Quiet.leaves (quiet_task (taskOk_wal (hx.enabled rfl) rfl)) h
  | named w l ns => exact named_leaves h hx
  | read w l out n rest m =>
    refine Quiet.leaves (quiet_readNext (hx.enabled rfl) ?_) h
    intro _ hout
    simp at hout
  | unnamed w l o ho => exact unnamed_leaves h ho hok
  | unread w l out n rest o ho => exact unread_leaves h ho hok
  | drained w o => exact drained_leaves h hx hok
  | drain | removed => exact leaves_drainEach h (hx.enabled rfl)
  | counted | unlinked => exact leaves_setUsage h (taskOk_wal (hx.enabled rfl) rfl)
  | renamed => exact leaves_setUsage h (taskOk_plain rfl rfl)
  | shaken => exact opened_leaves h hok
  | sent | appended => exact leaves_return h rfl (fun _ hs => hs) rfl rfl rfl rfl
  | unsent m k gone => exact leaves_failedSend h gone m
  | appendedOffline m =>
    have hq : Quiet cfg s (finish (s.scheduleReconnect cfg)) := quiet_scheduleReconnect
    exact Quiet.leaves ⟨hq.disk,hq.session,hq.healthy,hq.stream,hq.wal,hq.draining,by simp [finish]⟩ h
  | reconnected => exact leaves_drainWAL h hok
  | sessionGone => exact leaves_return h rfl (by simp) rfl rfl rfl rfl
  | unreachable => exact Quiet.leaves quiet_scheduleReconnect h
  | drainLogless => exact leaves_failed h false
  | drainUnsent e rest k gone | stuck w e rest gone => exact leaves_failed h gone
  | missing => exact Quiet.leaves (quiet_task (taskOk_wal (hx.enabled rfl) rfl)) h
  | flushed => exact leaves_endStream h (taskOk_plain rfl rfl)
  | stopped sid c =>
    have hnext : TaskOk cfg s ⟨.closed c,some .done⟩ := taskOk_plain rfl rfl
    exact Quiet.leaves ⟨rfl,by simp [ready],id,fun _ hs => hs,rfl,rfl,by simpa [ready] using hnext⟩ h
  | restart => exact Quiet.leaves (quiet_task (taskOk_plain rfl rfl)) h

theorem call_leaves {t : State} {c : Call} (h : LogOk cfg t.world) :
    Leaves (LogOk cfg) (TaskOk cfg) t.world (t.callNext cfg c) := by
  cases c with
  | start =>
    simp only [State.callNext]
    split_ifs
    · exact Quiet.leaves quiet_return h
    · exact Quiet.leaves (quiet_return.after rfl (fun _ hs => hs) rfl rfl rfl rfl) h
    · exact Quiet.leaves quiet_return h
    · exact Quiet.leaves (quiet_task (taskOk_plain rfl rfl)) h
  | stop =>
    simp only [State.callNext]
    split
    · have hstop : LogOk cfg { t.world with mem := { t.world.mem with
          shuttingDown := true, reconnectTimer := none, controlStream := false } } :=
        ⟨h.drained,h.stream,h.wal,h.off,h.clean⟩
      exact (leaves_closeSession hstop _ _ _).pre fun x hx => hx.same rfl
    · exact Quiet.leaves (quiet_return.after rfl (fun _ hs => hs) rfl rfl rfl rfl) h
  | sendBatch b =>
    refine Quiet.leaves ?_ h
    simp only [State.callNext,sendBatch]
    split_ifs
    · exact quiet_return
    · split
      · rename_i k _ _
        have hnext : TaskOk cfg t.world ⟨.sendBatch ⟨t.world.mem.nextBatchId,b⟩ k,none⟩ := taskOk_plain rfl rfl
        exact ⟨rfl,fun _ hs => hs,id,fun _ hs => hs,rfl,rfl,by simpa [await] using hnext⟩
      · have hq : Quiet cfg { t.world with mem := { t.world.mem with nextBatchId := t.world.mem.nextBatchId+1 } } _ :=
          quiet_persistToWAL (m := ⟨t.world.mem.nextBatchId,b⟩) fun w hw => h.enabled hw
        exact hq.after rfl (fun _ hs => hs) rfl rfl rfl rfl
  | track => exact Quiet.leaves (quiet_return.after rfl (fun _ hs => hs) rfl rfl rfl rfl) h
  | untrack => exact Quiet.leaves (quiet_return.after rfl (fun _ hs => hs) rfl rfl rfl rfl) h

theorem handle_leaves (h : LogOk cfg s) (inflight : Bool) (cmd : Cmd) :
    Leaves (LogOk cfg) (TaskOk cfg) s (handleSubscribeResponse s inflight cmd) := by
  cases cmd with
  | start sid =>
    simp only [handleSubscribeResponse]
    split
    · exact Quiet.leaves (quiet_task (taskOk_plain rfl rfl)) h
    · split_ifs
      · exact Quiet.leaves quiet_return h
      · exact leaves_closeSession h inflight _ _
  | stop sid =>
    simp only [handleSubscribeResponse]
    split
    · exact Quiet.leaves quiet_return h
    · split_ifs
      · exact leaves_closeSession h inflight _ _
      · exact Quiet.leaves quiet_return h
  | ping => exact Quiet.leaves quiet_return h

theorem timer_leaves {t : State} (h : LogOk cfg t.world) : Leaves (LogOk cfg) (TaskOk cfg) t.world t.timerNext := by
  unfold State.timerNext
  simp only
  split
  · exact Quiet.leaves (quiet_return.after rfl (fun _ hs => hs) rfl rfl rfl rfl) h
  · split_ifs
    · exact Quiet.leaves (quiet_return.after rfl (fun _ hs => hs) rfl rfl rfl rfl) h
    · have hs : LogOk cfg { t.world with mem := { t.world.mem with
          reconnectTimer := none, reconnectAttempt := t.world.mem.reconnectAttempt+1 } } :=
        ⟨h.drained,h.stream,h.wal,h.off,h.clean⟩
      exact (leaves_openStream hs fun k => taskOk_plain rfl rfl).pre fun x hx => hx.same rfl

theorem noFiles_iff {d : Disk} {dir : String} : NoFiles d dir ↔ ∀ n, (dir,n) ∈ d → batchIdOf n = none := by
  simp only [NoFiles,mem_readdir]

/-- A settled file operation adds no batch to a directory, unless it is a rename there. -/
theorem noFiles_effect {d d' : Disk} {pc : Pc} {dir : String} (h : DiskEffect d pc d') (hd : NoFiles d dir)
    (hne : ∀ w m, pc = .rename w m → w.sessionDir ≠ dir) : NoFiles d' dir := by
  rw [noFiles_iff] at hd ⊢
  intro n hn
  cases h with
  | none => exact hd n hn
  | write w m =>
    rcases (AList.mem_insert _).mp hn with hn | hn
    · obtain ⟨-,rfl⟩ := Prod.ext_iff.mp hn
      exact batchIdOf_tmpName m.batchId
    · exact hd n hn
  | rename w m c hc =>
    rcases (AList.mem_insert _).mp hn with hn | hn
    · obtain ⟨hdir,-⟩ := Prod.ext_iff.mp hn
      exact absurd hdir.symm (hne w m rfl)
    · exact hd n (AList.mem_erase.mp hn).2
  | unlink w e rest => exact hd n (AList.mem_erase.mp hn).2

theorem disk_of_failed {r : Reply} {w : WAL} {m : EventBatch} {o : Outcome} (hr : r ≠ .ok)
    (h : Client.settle s r (.rename w m) = some (s',o)) : s'.disk = s.disk := by
  cases r with
  | ok => exact absurd rfl hr
  | session sid =>
    cases h
    rfl
  | fail gone =>
    cases h
    rfl

theorem emptied_settle {pc : Pc} {r : Reply} {o : Outcome} {dir : String}
    (hset : Client.settle s r pc = some (s',o)) (hdir : dir ∈ emptied ⟨pc,some o⟩) : NoFiles s'.disk dir := by
  cases pc with
  | readdir w l =>
    cases r with
    | ok =>
      cases hset
      cases l with
      | init k => simp [emptied] at hdir
      | drain =>
        simp only [emptied] at hdir
        split_ifs at hdir with hsel
        obtain rfl : w.sessionDir = dir := by simpa using hdir
        intro n hn
        cases hid : batchIdOf n with
        | none => rfl
        | some i =>
          have : (n,i) ∈ selected (readdir s.disk w.sessionDir) := mem_selected.mpr ⟨hn,hid⟩
          rw [hsel] at this
          cases this
        simp at hdir
    | session sid =>
      cases hset
      cases l <;> simp [emptied] at hdir
    | fail gone =>
      cases hset
      cases l <;> simp [emptied] at hdir
  | listed w l out => cases hset
  | _ => simp [emptied] at hdir

theorem taskOk_pending {x : Task} (h : TaskOk cfg s x) (ho : x.outcome = none) : TaskOk cfg s' x := by
  refine ⟨h.enabled,?_⟩
  have he : emptied x = none := by
    obtain ⟨pc,o⟩ := x
    cases ho
    cases pc with
    | readdir w l => cases l <;> rfl
    | listed w l out => cases l <;> cases out <;> rfl
    | _ => rfl
  simp [he]

theorem logOk_settle {t : State} {i : ℕ} {r : Reply} {pc : Pc} {o : Outcome} (hok : calm cfg t (.settle i r) = true)
    (hi : t.tasks[i]? = some ⟨pc,none⟩) (h : LogOk cfg t.world) (hx : TaskOk cfg t.world ⟨pc,none⟩)
    (hset : Client.settle t.world r pc = some (s',o)) : LogOk cfg s' := by
  obtain ⟨hmem,-,-,-,-,heffect⟩ := settle_cases hset
  refine ⟨?_,by rw [hmem]; exact h.stream,by rw [hmem]; exact h.wal,by rw [hmem]; exact h.off,?_⟩
  · rw [hmem]
    intro sid hs hh hd
    have hold := h.drained sid hs hh hd
    by_cases hr : r = .ok
    · subst hr
      apply noFiles_effect heffect hold
      rintro w m rfl rfl
      simp [calm,hi,hs,hh,hd] at hok
    · by_cases hpc : ∃ w m, pc = .rename w m
      · obtain ⟨w,m,rfl⟩ := hpc
        rw [disk_of_failed hr hset]
        exact hold
      · apply noFiles_effect heffect hold
        intro w m hpc'
        exact absurd ⟨w,m,hpc'⟩ hpc
  · rw [hmem]
    intro hoff sid hs
    apply noFiles_effect heffect (h.clean hoff sid hs)
    rintro w m rfl
    have hon := hx.enabled rfl
    rw [hoff] at hon
    cases hon

/-- A delivered response or a stream error gives a task no listing. -/
theorem taskOk_settled {x : Task} {o : Outcome} (h : TaskOk cfg s x) (hx : x.pc.shakes ≠ none ∨ x.pc.waits ≠ none) :
    TaskOk cfg s ⟨x.pc,some o⟩ := by
  refine ⟨h.enabled,?_⟩
  have he : emptied ⟨x.pc,some o⟩ = none := by
    obtain ⟨pc,o'⟩ := x
    cases pc with
    | readdir w l => simp [Pc.shakes,Pc.waits] at hx
    | listed w l out => simp [Pc.shakes,Pc.waits] at hx
    | _ => rfl
  simp [he]

theorem obligations (cfg : Config) :
    Obligations cfg (fun t a => calm cfg t a = true) (LogOk cfg) (TaskOk cfg) where
  call t c _ h := call_leaves h.world
  command t cmd h := by
    have hlog : LogOk cfg { t.world with log := { t.world.log with commands := t.world.log.commands ++ [cmd] } } :=
      ⟨h.world.drained,h.world.stream,h.world.wal,h.world.off,h.world.clean⟩
    exact (handle_leaves hlog _ cmd).pre fun x hx => hx.same rfl
  timer t _ h := timer_leaves h.world
  settle t i r pc s o hok hi h hset := by
    have hx := h.tasks _ (List.mem_of_getElem? hi)
    refine ⟨logOk_settle hok hi h.world hx hset,⟨hx.enabled,?_⟩,?_⟩
    · intro dir hdir
      exact emptied_settle hset hdir
    · intro x ho hx
      exact taskOk_pending hx ho
  resume t i pc o hok hi h := by
    simp only [calm,hi] at hok
    exact resume_leaves h.world (h.tasks _ (List.mem_of_getElem? hi)) hok
  engine s s' k h hs := by
    have hdisk := engine_disk hs
    exact ⟨h.same (engine_keeps hs).1 hdisk,fun x hx => hx.same hdisk⟩
  deliver s tasks k st r down h hst _ := by
    have hdisk : (World.hear { s with streams := s.streams.set k { st with down := down } } k tasks r).disk = s.disk := by
      cases r <;> rfl
    refine ⟨h.same (deliver_keeps tasks r down hst).1 hdisk,?_⟩
    intro x hx
    rcases hear_cases k r x with he | ⟨-,he,hwaits⟩
    · rw [he]
      exact hx.same hdisk
    · rw [he]
      refine (taskOk_settled hx ?_).same hdisk
      rcases hwaits with hshakes | ⟨m,m',-,hwaits,-⟩
      · exact .inl (by simp [hshakes])
      · exact .inr (by simp [hwaits])
  streamError t k gone st _ hst h := by
    have hworld : LogOk cfg { t.world with streams := t.world.streams.set k st.kill } := h.world.same rfl rfl
    have hleaves := leaves_markStreamFailed hworld gone
    refine ⟨hleaves.world,?_⟩
    intro x hx
    rcases lose_cases k gone x with he | ⟨-,he,hwaits⟩
    · rw [he]
      exact hleaves.frame x (hx.same rfl)
    · rw [he]
      refine hleaves.frame _ ((taskOk_settled hx ?_).same rfl)
      rcases hwaits with hshakes | ⟨m,hwaits⟩
      · exact .inl (by simp [hshakes])
      · exact .inr (by simp [hwaits])
  crash t h := by
    refine ⟨?_,?_,?_,?_,?_⟩
    · intro sid hs
      cases hs
    · intro hh
      cases hh
    · intro _ sid hs
      cases hs
    · intro _
      exact ⟨rfl,rfl⟩
    · intro _ sid hs
      cases hs

end

theorem logOk_init (cfg : Config) (d : Disk) : Sound (LogOk cfg) (TaskOk cfg) (initOn d) := by
  refine ⟨⟨?_,?_,?_,?_,?_⟩,?_⟩
  · intro sid hs
    cases hs
  · intro hh
    cases hh
  · intro _ sid hs
    cases hs
  · intro _
    exact ⟨rfl,rfl⟩
  · intro _ sid hs
    cases hs
  · simp [initOn]

/-- In every calm run, over whatever files an earlier process left, the directory of the open session holds no
batch in any quiescent state. -/
theorem calm_run_drained {cfg : Config} {d : Disk} {t : State} {as : List Action}
    (hr : Run (step cfg) (fun t a => calm cfg t a = true) (initOn d) as t) (hq : Quiescent t) :
    ∀ sid, t.world.mem.session = some sid → NoFiles t.world.disk sid := by
  intro sid hs
  exact (run_sound (obligations cfg) hr (logOk_init cfg d)).world.drained sid hs hq.healthy hq.draining

instance (t : State) : Decidable (Quiescent t) :=
  decidable_of_iff (t.world.mem.streamHealthy = true ∧ t.world.mem.draining = false ∧ t.world.mem.reconnectTimer = none ∧
    (∀ x ∈ t.tasks, sending x.pc = false) ∧ ∀ st ∈ t.world.streams,
      st.status = .dead ∨ (∀ r ∈ st.up, r = .handshake) ∧ ∀ r ∈ st.down, r = .ack)
    ⟨fun h => ⟨h.1,h.2.1,h.2.2.1,h.2.2.2.1,h.2.2.2.2⟩,fun h => ⟨h.healthy,h.draining,h.timer,h.tasks,h.streams⟩⟩

/-- A batch is logged, the process restarts and is told to start the same session. -/
def attachRun : List Action := List.flatten
  [commandRun 0 0,[.streamError 0 false],persistRun ⟨1,10⟩,[.crash],commandRun 1 1]

theorem attached_not_drained : ∃ t, Run (step remoteConfig) (fun _ _ => True) init attachRun t ∧
    Quiescent t ∧ t.world.mem.session = some "S" ∧ ¬ NoFiles t.world.disk "S" := by
  have hexec : ∃ t ∈ exec (step remoteConfig) init attachRun,
      Quiescent t ∧ t.world.mem.session = some "S" ∧ ¬ NoFiles t.world.disk "S" := by decide +kernel
  obtain ⟨t,ht,h⟩ := hexec
  exact ⟨t,Run.of_exec_true (Option.mem_def.mp ht),h⟩

/-- A batch is logged, the client reconnects, and the drain sends the batch and removes its file. -/
def drainRun : List Action := List.flatten
  [openRun 0 0,[.streamError 0 false],persistRun ⟨1,10⟩,[.timer,.engine 1,.deliver 1,.resume 0],turn .ok,turn .ok,
    [.resume 0,.engine 1,.deliver 1,.resume 0],turn .ok,[.resume 0],turn .ok,[.resume 0]]

theorem calm_run_drained_drainRun : ∃ t,
    Run (step localConfig) (fun t a => calm localConfig t a = true) (initOn ∅) drainRun t ∧ Quiescent t ∧
      t.world.mem.session = some "S" ∧ t.world.log.stored = [("S",⟨1,⟨1,10⟩⟩)] ∧ NoFiles t.world.disk "S" := by
  have hexec : ∃ t ∈ exec (step localConfig) (initOn ∅) drainRun,
      Quiescent t ∧ t.world.mem.session = some "S" ∧ t.world.log.stored = [("S",⟨1,⟨1,10⟩⟩)] := by decide +kernel
  obtain ⟨t,ht,hq,hs,hstored⟩ := hexec
  have hr : Run (step localConfig) (fun t a => calm localConfig t a = true) (initOn ∅) drainRun t :=
    Run.of_exec (by decide +kernel) (Option.mem_def.mp ht)
  exact ⟨t,hr,hq,hs,hstored,calm_run_drained hr hq "S" hs⟩

end WalDrain
end Clearvoiance
