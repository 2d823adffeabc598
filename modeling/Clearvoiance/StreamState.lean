import Clearvoiance.ClientInvariant

/-! The stream of the client.  Health flag, stream reference, reconnect timer and pending handshakes are
changed by listeners that do not ask whose stream they belong to.  As long as a stream is opened, a
handshake completes and an error arrives only for the stream the client refers to, there is one live
stream at most, and a healthy one is acked for the open session. -/
namespace Clearvoiance
namespace StreamState

open Client Wal Transition

/-- A stream that the client has not ended and that has not failed. -/
def Live (s : World) (k : ℕ) : Prop := ∃ st, s.streams[k]? = some st ∧ st.status = .live

/-- The client refers to no stream, and a reconnect is pending or not wanted. -/
def nothingToLose (cfg : Config) (gone : Bool) (s : World) : Bool :=
  !s.mem.streamHealthy && s.mem.stream.isNone &&
    (s.mem.shuttingDown ||
      if cfg.remote && gone then s.mem.reconnectTimer.isNone else s.mem.reconnectTimer.isSome || s.mem.session.isNone)

/-- The session that a stream was opened for is not another one than the open one. -/
def namesSession (s : World) (k : ℕ) : Bool :=
  match s.streams[k]?,s.mem.session with
  | some st,some sid => st.sessionId = sid
  | _,_ => true

/-- A resumed task opens a stream or reports a failure only if the client refers to no stream, and completes
a handshake only of the stream the client refers to. -/
def resumesSteady (cfg : Config) (s : World) : Pc → Outcome → Bool
  | .startSession _,.session _ => !cfg.walDisabled || s.mem.stream.isNone
  | .inited _ (.opening _),_ => s.mem.stream.isNone
  | .openStream _ k,.done => s.mem.stream = some k
  | .tryReconnect k,.done => s.mem.stream = some k && namesSession s k
  | .sendBatch _ _,.failed _ => s.mem.stream.isNone
  | .drainSend _ _ _,.failed _ => s.mem.stream.isNone
  | .drainSend _ _ _,.done => s.mem.wal.isSome || s.mem.stream.isNone
  | .unlink _ _ _,.failed _ => s.mem.stream.isNone
  | _,_ => true

/-- No step touches a stream that the client no longer refers to. -/
def steady (cfg : Config) (t : State) : Action → Bool
  | .timer => t.world.mem.session.isNone || t.world.mem.shuttingDown || t.world.mem.stream.isNone
  | .resume i =>
    match t.tasks[i]? with
    | some ⟨pc,some o⟩ => resumesSteady cfg t.world pc o
    | _ => true
  | .streamError k gone => t.world.mem.stream = some k || nothingToLose cfg gone t.world
  | _ => true

/-- The live stream is the one the client refers to, and while it is healthy it is acked for the session. -/
structure StreamOk (s : World) : Prop where
  current : ∀ k, Live s k ↔ s.mem.stream = some k
  healthy : s.mem.streamHealthy = true → ∃ k st, s.mem.stream = some k ∧ s.streams[k]? = some st ∧ st.acked = true ∧
    ∀ sid, s.mem.session = some sid → st.sessionId = sid

/-- The stream of a handshake is there for its session, and acked once the handshake is done. -/
structure HandshakeOk (s : World) (x : Task) : Prop where
  named : ∀ sid k, x.pc = .openStream sid k → ∃ st, s.streams[k]? = some st ∧ st.sessionId = sid
  acked : ∀ k, x.pc.shakes = some k → x.outcome = some .done → ∃ st, s.streams[k]? = some st ∧ st.acked = true

theorem handshakeOk_plain {s : World} {x : Task} (h : x.pc.shakes = none) : HandshakeOk s x := by
  constructor
  · intro sid k hpc
    rw [hpc] at h
    cases h
  · intro k hk
    rw [hk] at h
    cases h

theorem HandshakeOk.keeps {s s' : World} {x : Task} (h : HandshakeOk s x) (hs : Carries s.streams s'.streams) :
    HandshakeOk s' x := by
  constructor
  · intro sid k hpc
    obtain ⟨st,hst,hsid⟩ := h.named sid k hpc
    obtain ⟨st',hst',hsid',-⟩ := hs k st hst
    exact ⟨st',hst',hsid'.trans hsid⟩
  · intro k hk ho
    obtain ⟨st,hst,hack⟩ := h.acked k hk ho
    obtain ⟨st',hst',-,hack'⟩ := hs k st hst
    exact ⟨st',hst',hack' hack⟩

theorem HandshakeOk.same {s s' : World} {x : Task} (h : HandshakeOk s x) (hs : s'.streams = s.streams) :
    HandshakeOk s' x := by
  apply h.keeps
  intro k st hst
  exact ⟨st,by rw [hs,hst],rfl,id⟩

theorem HandshakeOk.along {s s' : World} {x : Task} (h : HandshakeOk s x)
    (hs : List.Forall₂ Keeps s.streams s'.streams) : HandshakeOk s' x :=
  h.keeps (carries_keeps hs)

theorem Live.along {s s' : World} (hs : List.Forall₂ Keeps s.streams s'.streams) (k : ℕ) : Live s' k ↔ Live s k := by
  constructor
  · rintro ⟨st',hst',hlive⟩
    obtain ⟨st,hst,hk⟩ := keeps_getElem_back hs hst'
    exact ⟨st,hst,hk.2.1 ▸ hlive⟩
  · rintro ⟨st,hst,hlive⟩
    obtain ⟨st',hst',hk⟩ := keeps_getElem hs hst
    exact ⟨st',hst',hk.2.1.trans hlive⟩

/-- Streams that are the same up to what is on its way. -/
theorem StreamOk.along {s s' : World} (h : StreamOk s) (hs : List.Forall₂ Keeps s.streams s'.streams)
    (hstream : s'.mem.stream = s.mem.stream) (hhealthy : s'.mem.streamHealthy = true → s.mem.streamHealthy = true)
    (hsession : ∀ sid, s'.mem.session = some sid → s.mem.session = some sid) : StreamOk s' := by
  constructor
  · intro k
    rw [Live.along hs,hstream]
    exact h.current k
  · intro hh
    obtain ⟨k,st,hk,hst,hack,hsid⟩ := h.healthy (hhealthy hh)
    obtain ⟨st',hst',hkeep⟩ := keeps_getElem hs hst
    exact ⟨k,st',hstream.trans hk,hst',hkeep.2.2 hack,fun sid hs' => hkeep.1.trans (hsid sid (hsession sid hs'))⟩

/-- A function that leaves the streams alone, up to what is on its way, and waits for no handshake. -/
structure Quiet (s : World) (n : Next) : Prop where
  streams : List.Forall₂ Keeps s.streams n.1.streams
  stream : n.1.mem.stream = s.mem.stream
  healthy : n.1.mem.streamHealthy = true → s.mem.streamHealthy = true
  session : ∀ sid, n.1.mem.session = some sid → s.mem.session = some sid
  task : ∀ x ∈ n.2, x.pc.shakes = none

theorem Quiet.leaves {s : World} {n : Next} (hn : Quiet s n) (h : StreamOk s) : Leaves StreamOk HandshakeOk s n :=
  ⟨h.along hn.streams hn.stream hn.healthy hn.session,fun _ hx => hx.along hn.streams,
    fun x hx => handshakeOk_plain (hn.task x hx)⟩

theorem quiet_finish {s s' : World} (hs : s'.streams = s.streams) (hstream : s'.mem.stream = s.mem.stream)
    (hhealthy : s'.mem.streamHealthy = s.mem.streamHealthy)
    (hsession : ∀ sid, s'.mem.session = some sid → s.mem.session = some sid) : Quiet s (finish s') :=
  ⟨by rw [show (finish s').1.streams = s'.streams from rfl,hs]; exact keeps_refl _,hstream,
    fun h => hhealthy.symm.trans h,hsession,by simp [finish]⟩

theorem quiet_task {s s' : World} (hs : s'.streams = s.streams) (hmem : s'.mem.stream = s.mem.stream)
    (hhealthy : s'.mem.streamHealthy = s.mem.streamHealthy)
    (hsession : ∀ sid, s'.mem.session = some sid → s.mem.session = some sid) {x : Task} (hx : x.pc.shakes = none) :
    Quiet s (s',some x) :=
  ⟨by rw [hs]; exact keeps_refl _,hmem,fun h => hhealthy.symm.trans h,hsession,by simpa using hx⟩

theorem Quiet.after {s s' : World} {n : Next} (hn : Quiet s' n) (hs : s'.streams = s.streams)
    (hstream : s'.mem.stream = s.mem.stream) (hhealthy : s'.mem.streamHealthy = s.mem.streamHealthy)
    (hsession : ∀ sid, s'.mem.session = some sid → s.mem.session = some sid) : Quiet s n :=
  ⟨hs ▸ hn.streams,hn.stream.trans hstream,fun h => hhealthy.symm.trans (hn.healthy h),
    fun sid h => hsession sid (hn.session sid h),hn.task⟩

theorem quiet_setUsage (s : World) (w : WAL) (f : Usage → Usage) {pc : Pc} (hpc : pc.shakes = none) :
    Quiet s (ready (s.setUsage w f) pc) :=
  ⟨keeps_refl _,rfl,id,fun _ h => h,by simpa [ready] using hpc⟩

theorem quiet_initWal (s : World) (w : WAL) (k : Init) : Quiet s (s.initWal w k) := by
  unfold World.initWal
  split_ifs
  · exact quiet_task rfl rfl rfl (fun _ h => h) rfl
  · exact quiet_task rfl rfl rfl (fun _ h => h) rfl

theorem quiet_persistToWAL (s : World) (m : EventBatch) : Quiet s (s.persistToWAL m) := by
  unfold World.persistToWAL
  split
  · exact quiet_finish rfl rfl rfl fun _ h => h
  · exact quiet_initWal s _ _

theorem quiet_send (s : World) (k : ℕ) (m : EventBatch) {pc : Pc} (hpc : pc.shakes = none) :
    Quiet s (await (s.sendOverStream k m) pc) :=
  ⟨keeps_sendOverStream s k m,rfl,id,fun _ h => h,by simpa [await] using hpc⟩

theorem quiet_drainList (s : World) : Quiet s s.drainList := by
  unfold World.drainList
  split
  · exact quiet_task rfl rfl rfl (fun _ h => h) rfl
  · exact quiet_finish rfl rfl rfl fun _ h => h

theorem quiet_drainEach (s : World) (es : List WALEntry) : Quiet s (s.drainEach es) := by
  cases es with
  | nil => exact quiet_drainList s
  | cons e rest =>
    rw [World.drainEach]
    split
    · exact quiet_send s _ _ rfl
    · exact quiet_finish rfl rfl rfl fun _ h => h

theorem quiet_drainWAL (s : World) : Quiet s s.drainWAL := by
  unfold World.drainWAL
  split_ifs
  · exact quiet_finish rfl rfl rfl fun _ h => h
  · exact (quiet_drainList _).after rfl rfl rfl fun _ h => h

theorem quiet_readNext (s : World) (w : WAL) (l : Listing) (out : List WALEntry) (ns : List (FileName × ℕ)) :
    Quiet s (readNext s w l out ns) := by
  cases ns with
  | nil => exact quiet_task rfl rfl rfl (fun _ h => h) rfl
  | cons n rest => exact quiet_task rfl rfl rfl (fun _ h => h) rfl

theorem quiet_listFailed (s : World) (l : Listing) : Quiet s (s.listFailed l) := by
  cases l with
  | drain => exact quiet_finish rfl rfl rfl fun _ h => h
  | init k => exact quiet_finish rfl rfl rfl fun _ h => h

theorem quiet_scheduleReconnect (cfg : Config) (s : World) : Quiet s (finish (s.scheduleReconnect cfg)) := by
  obtain ⟨hstreams,-,-,timer,hmem⟩ := scheduleReconnect_same cfg s
  exact quiet_finish hstreams (by rw [hmem]) (by rw [hmem]) (by rw [hmem]; exact fun _ h => h)

theorem not_healthy_of_none {s : World} (h : StreamOk s) (hn : s.mem.stream = none) : s.mem.streamHealthy = false := by
  by_contra hh
  rw [Bool.not_eq_false] at hh
  obtain ⟨k,st,hk,-⟩ := h.healthy hh
  rw [hn] at hk
  cases hk

theorem leaves_openStream {s : World} (h : StreamOk s) (hn : s.mem.stream = none) (sid : String) {pc : ℕ → Pc}
    (hpc : ∀ k sid' k', pc k = .openStream sid' k' → k' = k ∧ sid' = sid) :
    Leaves StreamOk HandshakeOk s (s.openStream sid pc) := by
  have hdead : ∀ k, ¬ Live s k := by
    intro k hk
    rw [h.current,hn] at hk
    cases hk
  have hcarries : Carries s.streams (s.openStream sid pc).1.streams := carries_append _ _
  refine ⟨⟨?_,?_⟩,fun x hx => hx.keeps hcarries,?_⟩
  · intro k
    change Live { s with streams := _, mem := _ } k ↔ some s.streams.length = some k
    rw [Option.some.injEq]
    constructor
    · rintro ⟨st,hst,hlive⟩
      by_contra hne
      have hlt : k < s.streams.length+1 := by simpa [World.openStream,await] using (List.getElem?_eq_some_iff.mp hst).1
      have hst' : s.streams[k]? = some st := by
        rw [← hst]
        exact (List.getElem?_append_left (by omega)).symm
      exact hdead k ⟨st,hst',hlive⟩
    · rintro rfl
      exact ⟨⟨sid,[.handshake],[],.live,false⟩,by simp,rfl⟩
  · intro hh
    have hold := not_healthy_of_none h hn
    rw [show (s.openStream sid pc).1.mem.streamHealthy = s.mem.streamHealthy from rfl,hold] at hh
    cases hh
  · intro x hx
    obtain rfl : x = ⟨pc s.streams.length,none⟩ := by simpa [World.openStream,await] using hx.symm
    constructor
    · intro sid' k hk
      obtain ⟨rfl,rfl⟩ := hpc _ _ _ hk
      exact ⟨⟨sid',[.handshake],[],.live,false⟩,by simp [World.openStream,await],rfl⟩
    · intro k _ ho
      cases ho

/-- The stream that the client refers to is ended or killed, and the client refers to none. -/
theorem streamOk_drop {s s' : World} (h : StreamOk s) {f : Stream → Stream} (hf : ∀ st, st.status = .live → (f st).status ≠ .live)
    (hf' : ∀ st, (f st).status = .live → st.status = .live) {k : ℕ} (hk : s.mem.stream = some k ∨ s.mem.stream = none)
    (hstreams : s'.streams = s.streams.modify k f) (hstream : s'.mem.stream = none)
    (hhealthy : s'.mem.streamHealthy = false) : StreamOk s' := by
  constructor
  · intro j
    rw [hstream]
    refine iff_of_false ?_ (by simp)
    rintro ⟨st',hst',hlive⟩
    rw [hstreams,List.getElem?_modify] at hst'
    obtain ⟨st,hst,rfl⟩ := Option.map_eq_some_iff.mp hst'
    by_cases hj : k = j
    · subst hj
      simp only [if_true] at hlive
      exact hf st (hf' st hlive) hlive
    · simp only [hj,if_false] at hlive
      have hcur := (h.current j).mp ⟨st,hst,hlive⟩
      rcases hk with hk | hk
      · rw [hk] at hcur
        exact hj (Option.some.inj hcur)
      · rw [hk] at hcur
        cases hcur
  · intro hh
    rw [hhealthy] at hh
    cases hh

theorem streamOk_endStream {s : World} (h : StreamOk s) : StreamOk s.endStream := by
  cases hk : s.mem.stream with
  | none =>
    have hstreams : s.endStream.streams = s.streams := by simp [World.endStream,hk]
    refine h.along (by rw [hstreams]; exact keeps_refl _) (by rw [hk]; rfl) (fun hh => ?_) (fun sid hs => hs)
    cases hh
  | some k =>
    have hstreams : s.endStream.streams =
        s.streams.modify k fun st => if st.status = .live then { st with status := .ended } else st := by
      simp [World.endStream,hk]
    refine streamOk_drop h ?_ ?_ (.inl hk) hstreams rfl rfl
    · intro st hlive
      simp [hlive]
    · intro st hlive
      split_ifs at hlive
      exact hlive

theorem leaves_endStream {s : World} (h : StreamOk s) {pc : Pc} (hpc : pc.shakes = none) :
    Leaves StreamOk HandshakeOk s (await s.endStream pc) := by
  refine ⟨streamOk_endStream h,fun x hx => hx.keeps (carries_endStream s),?_⟩
  intro x hx
  obtain rfl : x = ⟨pc,none⟩ := by simpa [await] using hx.symm
  exact handshakeOk_plain hpc

theorem leaves_closeSession {s : World} (h : StreamOk s) (inflight : Bool) (sid : String) (c : Closing) :
    Leaves StreamOk HandshakeOk s (s.closeSession inflight sid c) := by
  unfold World.closeSession
  split_ifs
  · have hquiet : Quiet s (await s (.flush sid c)) := quiet_task rfl rfl rfl (fun _ hs => hs) rfl
    exact hquiet.leaves h
  · exact leaves_endStream h rfl

theorem streamOk_markStreamFailed {cfg : Config} {gone : Bool} {s : World} (h : StreamOk s) (hn : s.mem.stream = none) :
    StreamOk (s.markStreamFailed cfg gone) := by
  obtain ⟨hstreams,-,-,session,timer,hsession,hmem⟩ := markStreamFailed_same cfg gone s
  refine h.along (by rw [hstreams]; exact keeps_refl _) (by rw [hmem,hn]) ?_ ?_
  · rw [hmem]
    intro hh
    cases hh
  · rw [hmem]
    rintro sid rfl
    rcases hsession with hsession | hsession
    · exact hsession.symm
    · cases hsession

/-- A failure that is reported while the client refers to no stream. -/
theorem Leaves.afterFailure {cfg : Config} {gone : Bool} {s : World} {n : Next} (h : StreamOk s)
    (hn : s.mem.stream = none) (hq : Quiet (s.markStreamFailed cfg gone) n) : Leaves StreamOk HandshakeOk s n := by
  obtain ⟨hstreams,-⟩ := markStreamFailed_same cfg gone s
  exact (hq.leaves (streamOk_markStreamFailed h hn)).pre fun x hx => hx.same hstreams

theorem quiet_return (s : World) : Quiet s (finish s) := quiet_finish rfl rfl rfl fun _ h => h

theorem streamOk_shaken {s s' : World} (h : StreamOk s) {k : ℕ} {st : Stream} (hk : s.mem.stream = some k)
    (hst : s.streams[k]? = some st) (hack : st.acked = true) (hstreams : s'.streams = s.streams)
    (hstream : s'.mem.stream = s.mem.stream) (hsession : ∀ sid, s'.mem.session = some sid → st.sessionId = sid) :
    StreamOk s' := by
  constructor
  · intro j
    rw [hstream,← h.current j,Live,hstreams]
    rfl
  · intro _
    exact ⟨k,st,hstream.trans hk,by rw [hstreams,hst],hack,hsession⟩

theorem leaves_session {s : World} {sid : String} (h : StreamOk s) (hn : s.mem.stream = none) :
    Leaves StreamOk HandshakeOk s (s.openStream sid (.openStream sid)) := by
  apply leaves_openStream h hn
  intro k sid' k' hpc
  cases hpc
  exact ⟨rfl,rfl⟩

/-- A handshake is done for the stream that the client refers to. -/
theorem leaves_shaken {cfg : Config} {s : World} {sid : String} {k : ℕ} (h : StreamOk s)
    (hx : HandshakeOk s ⟨.openStream sid k,some .done⟩) (hok : resumesSteady cfg s (.openStream sid k) .done = true) :
    Leaves StreamOk HandshakeOk s
      (finish { s with mem := { s.mem with session := some sid, streamHealthy := true } }) := by
  have hk : s.mem.stream = some k := by simpa [resumesSteady] using hok
  obtain ⟨st,hst,hack⟩ := hx.acked k rfl rfl
  obtain ⟨st',hst',hsid⟩ := hx.named sid k rfl
  obtain rfl : st = st' := Option.some.inj (hst.symm.trans hst')
  refine ⟨streamOk_shaken h hk hst hack rfl rfl ?_,fun x hx => hx.same rfl,by simp [finish]⟩
  intro sid' hs
  cases hs
  exact hsid

/-- A reconnect is done on the stream that the client refers to. -/
theorem leaves_reconnected {cfg : Config} {s : World} {k : ℕ} (h : StreamOk s)
    (hx : HandshakeOk s ⟨.tryReconnect k,some .done⟩) (hok : resumesSteady cfg s (.tryReconnect k) .done = true) :
    Leaves StreamOk HandshakeOk s
      (World.drainWAL { s with mem := { s.mem with streamHealthy := true, reconnectAttempt := 0 } }) := by
  have hk : s.mem.stream = some k ∧ namesSession s k = true := by simpa [resumesSteady] using hok
  obtain ⟨st,hst,hack⟩ := hx.acked k rfl rfl
  have hnames := hk.2
  simp only [namesSession,hst] at hnames
  have hshaken : StreamOk { s with mem := { s.mem with streamHealthy := true, reconnectAttempt := 0 } } := by
    refine streamOk_shaken h hk.1 hst hack rfl rfl ?_
    intro sid hs
    rw [show s.mem.session = some sid from hs] at hnames
    simpa using hnames
  exact ((quiet_drainWAL _).leaves hshaken).pre fun x hx => hx.same rfl

theorem resume_leaves {cfg : Config} {s : World} {pc : Pc} {o : Outcome} (h : StreamOk s)
    (hx : HandshakeOk s ⟨pc,some o⟩) (hok : resumesSteady cfg s pc o = true) :
    Leaves StreamOk HandshakeOk s (resume cfg s pc o) := by
  have hresumes := resumes cfg s pc o
  generalize resume cfg s pc o = n at hresumes ⊢
  cases hresumes with
  | returns => exact Quiet.leaves (quiet_return s) h
  | openUnlogged p sid hdis => exact leaves_session h (by simpa [resumesSteady,hdis] using hok)
  | openLogged w sid => exact leaves_session h (by simpa [resumesSteady] using hok)
  | openLog => exact Quiet.leaves (Quiet.after (quiet_initWal _ _ _) rfl rfl rfl fun _ hs => hs) h
  | named w l ns => exact Quiet.leaves (quiet_readNext s w l [] (selected ns)) h
  | read w l out n rest m => exact Quiet.leaves (quiet_readNext s w l _ rest) h
  | unnamed w l | unread w l => exact Quiet.leaves (quiet_listFailed s l) h
  | drain w out => exact Quiet.leaves (quiet_drainEach s out) h
  | removed rest => exact Quiet.leaves (quiet_drainEach s rest) h
  | counted w | renamed w | unlinked w => exact Quiet.leaves (quiet_setUsage s w _ rfl) h
  | made | append | written | drainSent | missing | restart =>
    exact Quiet.leaves (quiet_task rfl rfl rfl (fun _ hs => hs) rfl) h
  | drained | sent | appended => exact Quiet.leaves (quiet_finish rfl rfl rfl fun _ hs => hs) h
  | appendedOffline m =>
    have hq := quiet_scheduleReconnect cfg s
    exact Quiet.leaves ⟨hq.streams,hq.stream,hq.healthy,hq.session,by simp [finish]⟩ h
  | shaken sid k => exact leaves_shaken h hx hok
  | reconnected k => exact leaves_reconnected h hx hok
  | sessionGone => exact Quiet.leaves (quiet_finish rfl rfl rfl (by simp)) h
  | unreachable => exact Quiet.leaves (quiet_scheduleReconnect cfg s) h
  | unsent m => exact Leaves.afterFailure h (by simpa [resumesSteady] using hok) (quiet_persistToWAL _ m)
  | drainLogless e rest k hwal =>
    exact Leaves.afterFailure h (by simpa [resumesSteady,hwal] using hok) (quiet_finish rfl rfl rfl fun _ hs => hs)
  | drainUnsent | stuck =>
    exact Leaves.afterFailure h (by simpa [resumesSteady] using hok) (quiet_finish rfl rfl rfl fun _ hs => hs)
  | flushed => exact leaves_endStream h rfl
  | stopped sid c =>
    exact Quiet.leaves ⟨keeps_refl _,rfl,id,by simp [ready],by simp [ready,Pc.shakes]⟩ h

theorem call_leaves {cfg : Config} {t : State} (h : StreamOk t.world) (c : Call) :
    Leaves StreamOk HandshakeOk t.world (t.callNext cfg c) := by
  cases c with
  | start =>
    simp only [State.callNext]
    split_ifs
    · exact Quiet.leaves (quiet_return _) h
    · exact Quiet.leaves ⟨keeps_refl _,rfl,id,fun _ hs => hs,by simp [finish]⟩ h
    · exact Quiet.leaves (quiet_return _) h
    · exact Quiet.leaves (quiet_task rfl rfl rfl (fun _ hs => hs) rfl) h
  | stop =>
    have hstop : StreamOk { t.world with mem := { t.world.mem with
        shuttingDown := true, reconnectTimer := none, controlStream := false } } :=
      h.along (keeps_refl _) rfl id fun _ hs => hs
    simp only [State.callNext]
    split
    · exact (leaves_closeSession hstop _ _ _).pre fun x hx => hx.same rfl
    · exact Quiet.leaves ⟨keeps_refl _,rfl,id,fun _ hs => hs,by simp [finish]⟩ h
  | sendBatch events =>
    refine Quiet.leaves ?_ h
    simp only [State.callNext,sendBatch]
    split_ifs
    · exact quiet_return _
    · split
      · exact Quiet.after (quiet_send _ _ _ rfl) rfl rfl rfl fun _ hs => hs
      · exact Quiet.after (quiet_persistToWAL _ _) rfl rfl rfl fun _ hs => hs
  | track => exact Quiet.leaves ⟨keeps_refl _,rfl,id,fun _ hs => hs,by simp [State.callNext,finish]⟩ h
  | untrack => exact Quiet.leaves ⟨keeps_refl _,rfl,id,fun _ hs => hs,by simp [State.callNext,finish]⟩ h

theorem handle_leaves {s : World} (h : StreamOk s) (inflight : Bool) (cmd : Cmd) :
    Leaves StreamOk HandshakeOk s (handleSubscribeResponse s inflight cmd) := by
  cases cmd with
  | start sid =>
    simp only [handleSubscribeResponse]
    split
    · exact Quiet.leaves (quiet_task rfl rfl rfl (fun _ hs => hs) rfl) h
    · split_ifs
      · exact Quiet.leaves (quiet_return s) h
      · exact leaves_closeSession h inflight _ _
  | stop sid =>
    simp only [handleSubscribeResponse]
    split
    · exact Quiet.leaves (quiet_return s) h
    · split_ifs
      · exact leaves_closeSession h inflight _ _
      · exact Quiet.leaves (quiet_return s) h
  | ping => exact Quiet.leaves (quiet_return s) h

theorem timer_leaves {cfg : Config} {t : State} (h : StreamOk t.world) (hok : steady cfg t .timer = true) :
    Leaves StreamOk HandshakeOk t.world t.timerNext := by
  unfold State.timerNext
  simp only
  split
  · exact Quiet.leaves ⟨keeps_refl _,rfl,id,fun _ hs => hs,by simp [finish]⟩ h
  · rename_i sid hsession
    split_ifs with hdown
    · exact Quiet.leaves ⟨keeps_refl _,rfl,id,fun _ hs => hs,by simp [finish]⟩ h
    · have hn : t.world.mem.stream = none := by
        simp only [steady,hsession,Option.isNone_some,Bool.false_or,Bool.or_eq_true] at hok
        rcases hok with hok | hok
        · exact absurd hok hdown
        · simpa using hok
      have hs : StreamOk { t.world with mem := { t.world.mem with
          reconnectTimer := none, reconnectAttempt := t.world.mem.reconnectAttempt+1 } } :=
        h.along (keeps_refl _) rfl id fun _ hs => hs
      refine (leaves_openStream hs hn sid ?_).pre fun x hx => hx.same rfl
      intro k sid' k' hpc
      cases hpc

theorem deliver_acked {s : World} {tasks : List Task} {k : ℕ} {st : Stream} {down : List Response}
    (hst : s.streams[k]? = some st) :
    ∃ st', (World.hear { s with streams := s.streams.set k { st with down := down } } k tasks .ack).streams[k]? =
      some st' ∧ st'.acked = true := by
  have hlt := (List.getElem?_eq_some_iff.mp hst).1
  exact ⟨{ st with down := down, acked := true },by simp [World.hear,hlt],rfl⟩

theorem waits_of_shakes {pc : Pc} {k : ℕ} (h : pc.shakes = some k) : pc.waits = none := by
  cases pc <;> first | rfl | cases h

theorem hear_handshakeOk {s s' : World} {k : ℕ} {r : Response} {x : Task} (hx : HandshakeOk s x)
    (hs : List.Forall₂ Keeps s.streams s'.streams)
    (hack : r = .ack → ∃ st, s'.streams[k]? = some st ∧ st.acked = true) : HandshakeOk s' (x.hear k r) := by
  have hframe := hx.along hs
  constructor
  · intro sid j hpc
    rw [hear_pc] at hpc
    exact hframe.named sid j hpc
  · intro j hj ho
    rw [hear_pc] at hj
    rcases hear_cases k r x with h | ⟨-,-,h | ⟨m,m',-,hw,-⟩⟩
    · rw [h] at ho
      exact hframe.acked j hj ho
    · obtain rfl : j = k := Option.some.inj (hj.symm.trans h)
      cases r with
      | ack => exact hack rfl
      | batchAck m =>
        have hsame : x.hear j (.batchAck m) = x := by
          unfold Task.hear
          rw [waits_of_shakes hj]
          split_ifs <;> rfl
        rw [hsame] at ho
        exact hframe.acked j hj ho
    · rw [waits_of_shakes hj] at hw
      cases hw

theorem lose_handshakeOk {s s' : World} {k : ℕ} {gone : Bool} {x : Task} (hx : HandshakeOk s x)
    (hs : Carries s.streams s'.streams) : HandshakeOk s' (x.lose k gone) := by
  have hframe := hx.keeps hs
  constructor
  · intro sid j hpc
    rw [lose_pc] at hpc
    exact hframe.named sid j hpc
  · intro j hj ho
    rw [lose_pc] at hj
    rcases lose_cases k gone x with h | ⟨-,h,-⟩
    · rw [h] at ho
      exact hframe.acked j hj ho
    · rw [h] at ho
      cases ho

/-- An error of the stream the client refers to, or one that finds nothing to change. -/
theorem streamError_ok {cfg : Config} {gone : Bool} {s : World} {k : ℕ} {st : Stream} (h : StreamOk s)
    (hst : s.streams[k]? = some st) (hok : s.mem.stream = some k ∨ nothingToLose cfg gone s = true) :
    StreamOk (World.markStreamFailed cfg gone { s with streams := s.streams.set k st.kill }) := by
  obtain ⟨hstreams,-,-,session,timer,-,hmem⟩ :=
    markStreamFailed_same cfg gone { s with streams := s.streams.set k st.kill }
  have hk : s.mem.stream = some k ∨ s.mem.stream = none := by
    rcases hok with hok | hok
    · exact .inl hok
    · simp only [nothingToLose,Bool.and_eq_true] at hok
      exact .inr (by simpa using hok.1.2)
  refine streamOk_drop h ?_ ?_ hk (hstreams.trans (set_eq_modify hst)) (by rw [hmem]) (by rw [hmem])
  · intro st _
    simp [Stream.kill]
  · intro st hlive
    cases hlive

theorem obligations (cfg : Config) : Obligations cfg (fun t a => steady cfg t a = true) StreamOk HandshakeOk where
  call t c _ h := call_leaves h.world c
  command t cmd h := by
    have hlog : StreamOk { t.world with log := { t.world.log with commands := t.world.log.commands ++ [cmd] } } :=
      h.world.along (keeps_refl _) rfl id fun _ hs => hs
    exact (handle_leaves hlog _ cmd).pre fun x hx => hx.same rfl
  timer t hok h := timer_leaves h.world hok
  settle t i r pc s o _ _ h hset := by
    obtain ⟨hmem,hstreams,-,hshakes,-,-⟩ := settle_cases hset
    refine ⟨?_,handshakeOk_plain hshakes,fun x _ hx => hx.same hstreams⟩
    refine h.world.along (by rw [hstreams]; exact keeps_refl _) (by rw [hmem]) (by rw [hmem]; exact id) ?_
    rw [hmem]
    exact fun _ hs => hs
  resume t i pc o hok hi h := by
    simp only [steady,hi] at hok
    exact resume_leaves h.world (h.tasks _ (List.mem_of_getElem? hi)) hok
  engine s s' k h hs := by
    obtain ⟨hmem,hkeeps⟩ := engine_keeps hs
    refine ⟨h.along hkeeps (by rw [hmem]) (by rw [hmem]; exact id) ?_,fun x hx => hx.along hkeeps⟩
    rw [hmem]
    exact fun _ hs => hs
  deliver s tasks k st r down h hst _ := by
    obtain ⟨hmem,hkeeps⟩ := deliver_keeps tasks r down hst
    refine ⟨h.along hkeeps (by rw [hmem]) (by rw [hmem]; exact id) ?_,?_⟩
    · rw [hmem]
      exact fun _ hs => hs
    · intro x hx
      refine hear_handshakeOk hx hkeeps ?_
      rintro rfl
      exact deliver_acked hst
  streamError t k gone st hok hst h := by
    have hcond : t.world.mem.stream = some k ∨ nothingToLose cfg gone t.world = true := by
      simpa [steady] using hok
    refine ⟨streamError_ok h.world hst hcond,?_⟩
    intro x hx
    apply lose_handshakeOk hx
    rw [(markStreamFailed_same cfg gone _).1,set_eq_modify hst]
    exact carries_modify fun st => ⟨rfl,rfl⟩
  crash t h := by
    constructor
    · intro k
      refine iff_of_false ?_ (by simp [State.crash])
      rintro ⟨st,hst,hlive⟩
      simp only [State.crash,List.getElem?_map] at hst
      obtain ⟨st',-,rfl⟩ := Option.map_eq_some_iff.mp hst
      cases hlive
    · intro hh
      cases hh

def Unmoved (s s' : World) : Prop :=
  s'.mem.streamHealthy = s.mem.streamHealthy ∧ s'.mem.stream = s.mem.stream ∧
    s'.mem.reconnectTimer = s.mem.reconnectTimer ∧ s'.mem.reconnectAttempt = s.mem.reconnectAttempt

theorem unmoved_of_nothingToLose {cfg : Config} {gone : Bool} {s : World} (h : nothingToLose cfg gone s = true)
    (streams : List Stream) : Unmoved s (World.markStreamFailed cfg gone { s with streams := streams }) := by
  unfold nothingToLose at h
  rw [Bool.and_eq_true,Bool.and_eq_true,Bool.or_eq_true,Bool.not_eq_true',Option.isNone_iff_eq_none] at h
  obtain ⟨⟨hhealthy,hstream⟩,hrest⟩ := h
  unfold World.markStreamFailed World.scheduleReconnect Unmoved
  simp only
  split_ifs with hdown hgone hskip
  · exact ⟨hhealthy.symm,hstream.symm,rfl,rfl⟩
  · rcases hrest with hrest | hrest
    · exact absurd hrest hdown
    · rw [if_pos hgone,Option.isNone_iff_eq_none] at hrest
      exact ⟨hhealthy.symm,hstream.symm,hrest.symm,rfl⟩
  · exact ⟨hhealthy.symm,hstream.symm,rfl,rfl⟩
  · rcases hrest with hrest | hrest
    · exact absurd hrest hdown
    · rw [if_neg hgone] at hrest
      refine absurd ?_ hskip
      simp only [Bool.or_eq_true] at hrest ⊢
      rcases hrest with hrest | hrest
      · exact .inl (.inl hrest)
      · exact .inr hrest

theorem streamOk_init (d : Disk) : Sound StreamOk HandshakeOk (initOn d) := by
  refine ⟨⟨?_,?_⟩,by simp [initOn]⟩
  · intro k
    refine iff_of_false ?_ (by simp [initOn])
    rintro ⟨st,hst,-⟩
    simp [initOn] at hst
  · intro hh
    cases hh

/-- In every run that touches no stream the client no longer refers to, there is one live stream at most, a
healthy stream of an open session is live and acked for it, and an error of another stream changes
nothing. -/
theorem steady_stream_state {cfg : Config} {d : Disk} {t : State} {as : List Action}
    (hr : Run (step cfg) (fun t a => steady cfg t a = true) (initOn d) as t) :
    (∀ j k, Live t.world j → Live t.world k → j = k) ∧
    (t.world.mem.streamHealthy = true → ∀ sid, t.world.mem.session = some sid → ∃ k st, t.world.mem.stream = some k ∧
      t.world.streams[k]? = some st ∧ st.status = .live ∧ st.acked = true ∧ st.sessionId = sid) ∧
    ∀ k gone t', t.world.mem.stream ≠ some k → steady cfg t (.streamError k gone) = true →
      step cfg t (.streamError k gone) = some t' → Unmoved t.world t'.world := by
  have h := (run_sound (obligations cfg) hr (streamOk_init d)).world
  refine ⟨?_,?_,?_⟩
  · intro j k hj hk
    rw [h.current] at hj hk
    exact Option.some.inj (hj.symm.trans hk)
  · intro hh sid hsid
    obtain ⟨k,st,hk,hst,hack,hnames⟩ := h.healthy hh
    obtain ⟨st',hst',hlive⟩ := (h.current k).mpr hk
    obtain rfl : st = st' := Option.some.inj (hst.symm.trans hst')
    exact ⟨k,st,hk,hst,hlive,hack,hnames sid hsid⟩
  · intro k gone t' hk hok hst
    have hcond : nothingToLose cfg gone t.world = true := by simpa [steady,hk] using hok
    simp only [step] at hst
    split at hst
    · split at hst
      · cases hst
      · cases hst
        exact unmoved_of_nothingToLose hcond _
    · cases hst

/-- A batch goes to the log while a reconnect waits for its ack, and arms the timer again. -/
def secondReconnectRun : List Action :=
  openRun 0 0 ++ ([.streamError 0 false,.timer,.call (.sendBatch ⟨1,10⟩),.resume 1,.settle 1 .ok,.resume 1,
    .settle 1 .ok,.resume 1,.resume 1,.timer] : List Action)

def staleAckRun : List Action := secondReconnectRun ++ ([.engine 1,.deliver 1,.resume 0] : List Action)

theorem live_of_status {s : World} {k : ℕ} (h : (s.streams[k]?).map (·.status) = some .live) : Live s k := by
  obtain ⟨st,hst,hlive⟩ := Option.map_eq_some_iff.mp h
  exact ⟨st,hst,hlive⟩

/-- Two live streams, then health without an acked stream, then an error of the other stream that ends it. -/
theorem streams_cross :
    (∃ t, Run (step localConfig) (fun _ _ => True) init secondReconnectRun t ∧ Live t.world 1 ∧ Live t.world 2) ∧
    ∃ t, Run (step localConfig) (fun _ _ => True) init staleAckRun t ∧
      (t.world.mem.streamHealthy = true ∧ t.world.mem.session = some "S" ∧
        ∃ st, t.world.mem.stream = some 2 ∧ t.world.streams[2]? = some st ∧ st.acked = false) ∧
      ∃ t', step localConfig t (.streamError 1 false) = some t' ∧ ¬ Unmoved t.world t'.world := by
  have hall : ∀ as : List Action, ∀ t, exec (step localConfig) init as = some t →
      Run (step localConfig) (fun _ _ => True) init as t := fun as t ht => Run.of_exec_true ht
  have htwo : ∃ t ∈ exec (step localConfig) init secondReconnectRun,
      (t.world.streams[1]?).map (·.status) = some .live ∧ (t.world.streams[2]?).map (·.status) = some .live := by
    decide +kernel
  have hstale : ∃ t ∈ exec (step localConfig) init staleAckRun,
      (t.world.mem.streamHealthy = true ∧ t.world.mem.session = some "S" ∧ t.world.mem.stream = some 2 ∧
        (t.world.streams[2]?).map (·.acked) = some false) ∧
      ∃ t' ∈ step localConfig t (.streamError 1 false), t'.world.mem.stream = none := by decide +kernel
  obtain ⟨t,ht,h₁,h₂⟩ := htwo
  obtain ⟨u,hu,⟨hhealthy,hsession,hstream,hacked⟩,u',hu',hnone⟩ := hstale
  obtain ⟨st,hst,hack⟩ := Option.map_eq_some_iff.mp hacked
  refine ⟨⟨t,hall _ t (Option.mem_def.mp ht),live_of_status h₁,live_of_status h₂⟩,u,hall _ u (Option.mem_def.mp hu),
    ⟨hhealthy,hsession,st,hstream,hst,hack⟩,u',Option.mem_def.mp hu',?_⟩
  intro hsame
  have := hsame.2.1
  rw [hnone,hstream] at this
  cases this

def reconnectRun : List Action :=
  openRun 0 0 ++ ([.streamError 0 false,.timer,.engine 1,.deliver 1,.resume 0] : List Action)

theorem steady_stream_state_reconnectRun : ∃ t,
    Run (step localConfig) (fun t a => steady localConfig t a = true) (initOn ∅) reconnectRun t ∧
      t.world.mem.streamHealthy = true ∧ ∃ k st, t.world.mem.stream = some k ∧ t.world.streams[k]? = some st ∧
        st.status = .live ∧ st.acked = true ∧ st.sessionId = "S" := by
  have hexec : ∃ t ∈ exec (step localConfig) (initOn ∅) reconnectRun,
      t.world.mem.streamHealthy = true ∧ t.world.mem.session = some "S" := by decide +kernel
  obtain ⟨t,ht,hhealthy,hsession⟩ := hexec
  have hr : Run (step localConfig) (fun t a => steady localConfig t a = true) (initOn ∅) reconnectRun t :=
    Run.of_exec (by decide +kernel) (Option.mem_def.mp ht)
  exact ⟨t,hr,hhealthy,(steady_stream_state hr).2.1 hhealthy "S" hsession⟩

end StreamState
end Clearvoiance
