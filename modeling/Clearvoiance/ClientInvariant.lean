import Clearvoiance.Client

/-! Invariants of the client in two parts, one about the world and one about each task, and what each
kind of step has to keep of them.  A call, a command, the timer and a resumed task run a function up to
its next `await`; the other steps settle promises. -/
namespace Clearvoiance
namespace Client

open Wal Transition

section Invariant

variable (W : World → Prop) (T : World → Task → Prop)

structure Sound (t : State) : Prop where
  world : W t.world
  tasks : ∀ x ∈ t.tasks, T t.world x

/-- What a function leaves keeps the invariant, for the tasks that were there and for its own. -/
structure Leaves (s : World) (n : Next) : Prop where
  world : W n.1
  frame : ∀ x, T s x → T n.1 x
  task : ∀ x ∈ n.2, T n.1 x

variable {W T}

theorem Leaves.pre {s s' : World} {n : Next} (h : Leaves W T s' n) (hs : ∀ x, T s x → T s' x) : Leaves W T s n :=
  ⟨h.world,fun x hx => h.frame x (hs x hx),h.task⟩

end Invariant

theorem giveUp_same (s : World) (p : Path) (why : EventBatch → Incident) :
    (s.giveUp p why).mem = s.mem ∧ (s.giveUp p why).streams = s.streams ∧ (s.giveUp p why).disk = s.disk ∧
      (s.giveUp p why).log.stored = s.log.stored := by
  unfold World.giveUp
  split
  · split_ifs <;> exact ⟨rfl,rfl,rfl,rfl⟩
  · exact ⟨rfl,rfl,rfl,rfl⟩

/-- What settling a promise can do to the disk. -/
inductive DiskEffect (d : Disk) : Pc → Disk → Prop
  | none (pc : Pc) : DiskEffect d pc d
  | write (w : WAL) (m : EventBatch) : DiskEffect d (.writeFile w m) (d.insert (w.sessionDir,tmpName m.batchId) m)
  | rename (w : WAL) (m c : EventBatch) (hc : d.lookup (w.sessionDir,tmpName m.batchId) = some c) :
      DiskEffect d (.rename w m)
        ((d.erase (w.sessionDir,tmpName m.batchId)).insert (w.sessionDir,fileName m.batchId) c)
  | unlink (w : WAL) (e : WALEntry) (rest : List WALEntry) : DiskEffect d (.unlink w e rest) (d.erase e.filePath)

/-- Settling a promise changes the disk at most, and no task that settles so waits on a stream. -/
theorem settle_cases {s s' : World} {r : Reply} {pc : Pc} {o : Outcome} (h : Client.settle s r pc = some (s',o)) :
    s'.mem = s.mem ∧ s'.streams = s.streams ∧ s'.log.stored = s.log.stored ∧ pc.shakes = none ∧ pc.waits = none ∧
      DiskEffect s.disk pc s'.disk := by
  unfold settle at h
  split at h
  · split at h <;> cases h <;> exact ⟨rfl,rfl,rfl,rfl,rfl,.none _⟩
  · split at h <;> cases h <;> exact ⟨rfl,rfl,rfl,rfl,rfl,.none _⟩
  · split at h <;> cases h <;> exact ⟨rfl,rfl,rfl,rfl,rfl,.none _⟩
  · split at h <;> cases h <;> exact ⟨rfl,rfl,rfl,rfl,rfl,.none _⟩
  · rename_i w m
    split at h
    · cases h
      exact ⟨rfl,rfl,rfl,rfl,rfl,.write w m⟩
    · cases h
      exact ⟨rfl,rfl,rfl,rfl,rfl,.none _⟩
  · rename_i w m
    split at h
    · rename_i c hc
      cases h
      obtain ⟨hmem,hstreams,hdisk,hstored⟩ := giveUp_same s (w.sessionDir,fileName m.batchId) .overwritten
      refine ⟨hmem,hstreams,hstored,rfl,rfl,?_⟩
      simp only [hdisk]
      exact .rename w m c hc
    · cases h
      exact ⟨rfl,rfl,rfl,rfl,rfl,.none _⟩
  · rename_i w e rest
    split at h
    · cases h
      obtain ⟨hmem,hstreams,hdisk,hstored⟩ := giveUp_same s e.filePath .removed
      refine ⟨hmem,hstreams,hstored,rfl,rfl,?_⟩
      simp only [hdisk]
      exact .unlink w e rest
    · cases h
      exact ⟨rfl,rfl,rfl,rfl,rfl,.none _⟩
    · cases h
      exact ⟨rfl,rfl,rfl,rfl,rfl,.none _⟩
  · cases h
    exact ⟨rfl,rfl,rfl,rfl,rfl,.none _⟩
  · split at h <;> cases h <;> exact ⟨rfl,rfl,rfl,rfl,rfl,.none _⟩
  · cases h

theorem scheduleReconnect_same (cfg : Config) (s : World) :
    (s.scheduleReconnect cfg).streams = s.streams ∧ (s.scheduleReconnect cfg).disk = s.disk ∧
      (s.scheduleReconnect cfg).log = s.log ∧ ∃ timer,
        (s.scheduleReconnect cfg).mem = { s.mem with reconnectTimer := timer } := by
  unfold World.scheduleReconnect
  split_ifs
  · exact ⟨rfl,rfl,rfl,s.mem.reconnectTimer,rfl⟩
  · exact ⟨rfl,rfl,rfl,_,rfl⟩

/-- What a failed stream leaves: no stream, no health, and the session or none. -/
theorem markStreamFailed_same (cfg : Config) (gone : Bool) (s : World) :
    (s.markStreamFailed cfg gone).streams = s.streams ∧ (s.markStreamFailed cfg gone).disk = s.disk ∧
      (s.markStreamFailed cfg gone).log = s.log ∧ ∃ session timer,
        (session = s.mem.session ∨ session = none) ∧ (s.markStreamFailed cfg gone).mem =
          { s.mem with streamHealthy := false, stream := none, session := session, reconnectTimer := timer } := by
  unfold World.markStreamFailed
  simp only
  split_ifs
  · exact ⟨rfl,rfl,rfl,s.mem.session,s.mem.reconnectTimer,.inl rfl,rfl⟩
  · exact ⟨rfl,rfl,rfl,none,none,.inr rfl,rfl⟩
  · obtain ⟨hstreams,hdisk,hlog,timer,hmem⟩ :=
      scheduleReconnect_same cfg { s with mem := { s.mem with streamHealthy := false, stream := none } }
    exact ⟨hstreams,hdisk,hlog,s.mem.session,timer,.inl rfl,hmem⟩

/-- The streams are still there, for their sessions and with their acks. -/
def Carries (l l' : List Stream) : Prop :=
  ∀ (k : ℕ) (st : Stream), l[k]? = some st →
    ∃ st' : Stream, l'[k]? = some st' ∧ st'.sessionId = st.sessionId ∧ (st.acked = true → st'.acked = true)

theorem carries_refl (l : List Stream) : Carries l l := fun _ st hst => ⟨st,hst,rfl,id⟩

theorem carries_keeps {l l' : List Stream} (h : List.Forall₂ Keeps l l') : Carries l l' := by
  intro k st hst
  obtain ⟨st',hst',hk⟩ := keeps_getElem h hst
  exact ⟨st',hst',hk.1,hk.2.2⟩

theorem carries_append (l : List Stream) (st : Stream) : Carries l (l ++ [st]) := by
  intro k st' hst
  have hlt := (List.getElem?_eq_some_iff.mp hst).1
  exact ⟨st',(List.getElem?_append_left hlt).trans hst,rfl,id⟩

theorem carries_modify {l : List Stream} {k : ℕ} {f : Stream → Stream}
    (hf : ∀ st, (f st).sessionId = st.sessionId ∧ (f st).acked = st.acked) : Carries l (l.modify k f) := by
  intro j st hst
  rw [List.getElem?_modify,hst]
  by_cases hj : k = j
  · exact ⟨f st,by simp [hj],(hf st).1,fun h => (hf st).2.trans h⟩
  · exact ⟨st,by simp [hj],rfl,id⟩

theorem carries_endStream (s : World) : Carries s.streams s.endStream.streams := by
  unfold World.endStream
  cases s.mem.stream with
  | none => exact fun k st hst => ⟨st,hst,rfl,id⟩
  | some k =>
    apply carries_modify
    intro st
    split_ifs <;> exact ⟨rfl,rfl⟩

theorem set_eq_modify {l : List Stream} {k : ℕ} {st : Stream} (hst : l[k]? = some st) :
    l.set k st.kill = l.modify k Stream.kill := by
  rw [List.modify_eq_set_getElem?,hst]
  rfl

theorem keeps_sendOverStream (s : World) (k : ℕ) (m : EventBatch) :
    List.Forall₂ Keeps s.streams (s.sendOverStream k m).streams := by
  apply keeps_modify
  intro st
  unfold Stream.write
  split_ifs <;> exact ⟨rfl,rfl,id⟩

theorem engine_keeps {s s' : World} {k : ℕ} (h : s.engine k = some s') :
    s'.mem = s.mem ∧ List.Forall₂ Keeps s.streams s'.streams := by
  unfold World.engine at h
  split at h
  · rename_i st hst
    split at h
    · cases h
    · cases h
      exact ⟨rfl,keeps_set hst ⟨rfl,rfl,id⟩⟩
    · cases h
      exact ⟨rfl,keeps_set hst ⟨rfl,rfl,id⟩⟩
  · cases h

theorem engine_disk {s s' : World} {k : ℕ} (h : s.engine k = some s') : s'.disk = s.disk := by
  unfold World.engine at h
  split at h
  · split at h
    · cases h
    · cases h
      rfl
    · cases h
      rfl
  · cases h

theorem deliver_keeps {s : World} (tasks : List Task) {k : ℕ} {st : Stream} (r : Response) (down : List Response)
    (hst : s.streams[k]? = some st) :
    (World.hear { s with streams := s.streams.set k { st with down := down } } k tasks r).mem = s.mem ∧
      List.Forall₂ Keeps s.streams
        (World.hear { s with streams := s.streams.set k { st with down := down } } k tasks r).streams := by
  have hset : List.Forall₂ Keeps s.streams (s.streams.set k { st with down := down }) :=
    keeps_set hst ⟨rfl,rfl,id⟩
  cases r with
  | ack => exact ⟨rfl,keeps_trans hset (keeps_modify fun st => ⟨rfl,rfl,fun _ => rfl⟩)⟩
  | batchAck m => exact ⟨rfl,hset⟩

def State.callNext (cfg : Config) (t : State) : Call → Next
  | .start =>
    if cfg.remote then
      if t.world.mem.shuttingDown then finish t.world
      else finish { t.world with mem := { t.world.mem with controlStream := true } }
    else if t.world.mem.session.isSome then finish t.world
    else await t.world (.startSession none)
  | .stop =>
    let s := { t.world with mem := { t.world.mem with
      shuttingDown := true, reconnectTimer := none, controlStream := false } }
    match s.mem.session with
    | some sid => s.closeSession t.inflight sid .stop
    | none => finish s
  | .sendBatch events => sendBatch t.world events
  | .track => finish { t.world with mem := { t.world.mem with tracked := t.world.mem.tracked+1 } }
  | .untrack => finish { t.world with mem := { t.world.mem with tracked := t.world.mem.tracked-1 } }

theorem spawn_finish (t : State) (s : World) : t.spawn (finish s) = ⟨s,t.tasks⟩ := by
  simp [State.spawn,finish]

theorem call_eq (cfg : Config) (t : State) (c : Call) : t.call cfg c = t.spawn (t.callNext cfg c) := by
  cases c with
  | start =>
    simp only [State.call,State.callNext]
    split_ifs <;> simp [spawn_finish]
  | stop =>
    simp only [State.call,State.callNext]
    cases t.world.mem.session <;> rfl
  | sendBatch events => rfl
  | track => simp [State.call,State.callNext,spawn_finish]
  | untrack => simp [State.call,State.callNext,spawn_finish]

def State.commandNext (t : State) (cmd : Cmd) : Next :=
  handleSubscribeResponse
    { t.world with log := { t.world.log with commands := t.world.log.commands ++ [cmd] } } t.inflight cmd

def State.timerNext (t : State) : Next :=
  let s := { t.world with mem := { t.world.mem with reconnectTimer := none } }
  match s.mem.session with
  | none => finish s
  | some sid =>
    if s.mem.shuttingDown then finish s
    else { s with mem := { s.mem with reconnectAttempt := s.mem.reconnectAttempt+1 } }.openStream sid .tryReconnect

theorem tryReconnect_eq (t : State) : t.tryReconnect = t.spawn t.timerNext := by
  unfold State.tryReconnect State.timerNext
  cases hsession : t.world.mem.session with
  | none => simp only [hsession]
  | some sid =>
    simp only [hsession]
    split_ifs <;> rfl

/-- What the steps of the client have to keep under a side condition. -/
structure Obligations (cfg : Config) (ok : State → Action → Prop) (W : World → Prop) (T : World → Task → Prop) :
    Prop where
  call : ∀ t c, ok t (.call c) → Sound W T t → Leaves W T t.world (t.callNext cfg c)
  command : ∀ t cmd, Sound W T t → Leaves W T t.world (t.commandNext cmd)
  timer : ∀ t, ok t .timer → Sound W T t → Leaves W T t.world t.timerNext
  settle : ∀ t i r pc s o, ok t (.settle i r) → t.tasks[i]? = some ⟨pc,none⟩ → Sound W T t →
    Client.settle t.world r pc = some (s,o) →
    W s ∧ T s ⟨pc,some o⟩ ∧ ∀ x, x.outcome = none → T t.world x → T s x
  resume : ∀ t i pc o, ok t (.resume i) → t.tasks[i]? = some ⟨pc,some o⟩ → Sound W T t →
    Leaves W T t.world (Client.resume cfg t.world pc o)
  engine : ∀ s s' k, W s → s.engine k = some s' → W s' ∧ ∀ x, T s x → T s' x
  deliver : ∀ s tasks k st r down, W s → s.streams[k]? = some st → st.down = r :: down →
    W (World.hear { s with streams := s.streams.set k { st with down := down } } k tasks r) ∧
      ∀ x, T s x → T (World.hear { s with streams := s.streams.set k { st with down := down } } k tasks r) (x.hear k r)
  streamError : ∀ t k gone st, ok t (.streamError k gone) → t.world.streams[k]? = some st → Sound W T t →
    W (World.markStreamFailed cfg gone { t.world with streams := t.world.streams.set k st.kill }) ∧
      ∀ x, T t.world x →
        T (World.markStreamFailed cfg gone { t.world with streams := t.world.streams.set k st.kill }) (x.lose k gone)
  crash : ∀ t, Sound W T t → W t.crash.world

section Rule

variable {cfg : Config} {ok : State → Action → Prop} {W : World → Prop} {T : World → Task → Prop}

theorem Sound.spawn {t : State} {n : Next} (h : Sound W T t) (hn : Leaves W T t.world n) : Sound W T (t.spawn n) := by
  refine ⟨hn.world,?_⟩
  intro x hx
  rcases List.mem_append.mp hx with hx | hx
  · exact hn.frame x (h.tasks x hx)
  · exact hn.task x (by simpa using hx)

theorem idle_outcome {t : State} (h : t.idle = true) {x : Task} (hx : x ∈ t.tasks) : x.outcome = none := by
  unfold State.idle at h
  have := List.all_eq_true.mp h x hx
  simpa using this

theorem step_sound (h : Obligations cfg ok W T) {t t' : State} {a : Action} (hs : Sound W T t) (hok : ok t a)
    (hst : step cfg t a = some t') : Sound W T t' := by
  cases a with
  | call c =>
    cases hst
    rw [call_eq]
    exact hs.spawn (h.call t c hok hs)
  | command cmd =>
    simp only [step] at hst
    split at hst
    · cases hst
      exact hs.spawn (h.command t cmd hs)
    · cases hst
  | settle i r =>
    simp only [step] at hst
    split at hst
    · rename_i pc hidle hi
      obtain ⟨⟨s,o⟩,hn,rfl⟩ := Option.map_eq_some_iff.mp hst
      obtain ⟨hw,hx,hframe⟩ := h.settle t i r pc s o hok hi hs hn
      refine ⟨hw,?_⟩
      intro x hx'
      rcases List.mem_or_eq_of_mem_set hx' with hx' | rfl
      · exact hframe x (idle_outcome hidle hx') (hs.tasks x hx')
      · exact hx
    · cases hst
  | resume i =>
    simp only [step] at hst
    split at hst
    · rename_i pc o hi
      cases hst
      have hn := h.resume t i pc o hok hi hs
      refine ⟨hn.world,?_⟩
      intro x hx
      rcases List.mem_append.mp hx with hx | hx
      · rcases List.mem_append.mp hx with hx | hx
        · exact hn.frame x (hs.tasks x (List.mem_of_mem_take hx))
        · exact hn.task x (by simpa using hx)
      · exact hn.frame x (hs.tasks x (List.mem_of_mem_drop hx))
    · cases hst
  | timer =>
    simp only [step] at hst
    split at hst
    · cases hst
      rw [tryReconnect_eq]
      exact hs.spawn (h.timer t hok hs)
    · cases hst
  | engine k =>
    obtain ⟨s,hn,rfl⟩ := Option.map_eq_some_iff.mp hst
    obtain ⟨hw,hframe⟩ := h.engine t.world s k hs.world hn
    exact ⟨hw,fun x hx => hframe x (hs.tasks x hx)⟩
  | deliver k =>
    simp only [step] at hst
    split at hst
    · rename_i sid up r down status acked _ hk
      split at hst
      · cases hst
      · cases hst
        obtain ⟨hw,hframe⟩ := h.deliver t.world t.tasks k _ r down hs.world hk rfl
        refine ⟨hw,?_⟩
        intro x hx
        obtain ⟨y,hy,rfl⟩ := List.mem_map.mp hx
        exact hframe y (hs.tasks y hy)
    · cases hst
  | streamError k gone =>
    simp only [step] at hst
    split at hst
    · rename_i st _ hk
      split at hst
      · cases hst
      · cases hst
        obtain ⟨hw,hframe⟩ := h.streamError t k gone st hok hk hs
        refine ⟨hw,?_⟩
        intro x hx
        obtain ⟨y,hy,rfl⟩ := List.mem_map.mp hx
        exact hframe y (hs.tasks y hy)
    · cases hst
  | crash =>
    cases hst
    refine ⟨h.crash t hs,?_⟩
    intro x hx
    simp [State.crash] at hx

theorem run_sound (h : Obligations cfg ok W T) {t t' : State} {as : List Action} (hr : Run (step cfg) ok t as t')
    (hs : Sound W T t) : Sound W T t' :=
  hr.invariant (Sound W T) (fun _ _ _ hs hok hst => step_sound h hs hok hst) hs

end Rule

end Client
end Clearvoiance
