import Clearvoiance.StreamIngest

/-! The idle sweeper beside the capture streams.  It reads `last_heartbeat_at`, which only the `Heartbeat` RPC
refreshes; the client opens sessions, streams and stops them, and never calls that RPC. -/
namespace Clearvoiance
namespace StreamIngest

open SessionStore Transition
open SessionManager hiding Env State Action step init advance entry call

/-- When the streams of a session accepted a handshake or a batch. -/
def Engine.accepted (g : Engine) (id : String) : List ℕ :=
  (g.handshakes.filter (·.1 = id)).map (·.2) ++ (g.acked.filter (·.sessionID = id)).map (·.ackedAt)

/-- A stream of the session accepted something in the last `idle` interval. -/
def Live (g : Engine) (id : String) (idle now : ℕ) : Prop := ∃ t ∈ g.accepted id, now ≤ t+idle

instance (g : Engine) (id : String) (idle now : ℕ) : Decidable (Live g id idle now) :=
  inferInstanceAs (Decidable (∃ t ∈ g.accepted id, now ≤ t+idle))

/-- The step is the sweeper's statement, which commits: its interval and its time. -/
def sweep (s : State) : Action → Option (ℕ × ℕ)
  | .invoke _ => none
  | .advance i e =>
    match s.threads[i]? with
    | some (.rpc (.sweepStore idle)) => if e.mgr.fault = some false then none else some (idle,e.mgr.now)
    | _ => none

def SparesLive (s : State) (a : Action) : Prop :=
  ∀ w ∈ sweep s a, ∀ id ∈ (s.shared.mgr.store.sweepIdle w.1 w.2).2, ¬ Live s.shared id w.1 w.2

/-- The active sessions that are live when the sweeper runs were created in its last interval. -/
def LiveAreYoung (s : State) (a : Action) : Prop :=
  ∀ w ∈ sweep s a, s.shared.mgr.store.backend = .postgres → ∀ r ∈ s.shared.mgr.store.rows, r.status = .active →
    Live s.shared r.id w.1 w.2 → w.2 ≤ r.startedAt+w.1

instance (s : State) (a : Action) : Decidable (SparesLive s a) :=
  inferInstanceAs (Decidable (∀ w ∈ sweep s a, ∀ id ∈ _, ¬ Live s.shared id w.1 w.2))

instance (s : State) (a : Action) : Decidable (LiveAreYoung s a) :=
  inferInstanceAs (Decidable (∀ w ∈ sweep s a, _ → ∀ r ∈ s.shared.mgr.store.rows, _ → _ → _))

def ClientOnly (_ : State) : Action → Prop
  | .invoke (.rpc (.touchHeartbeat _)) => False
  | _ => True

instance (s : State) : DecidablePred (ClientOnly s)
  | .invoke (.rpc (.touchHeartbeat _)) => inferInstanceAs (Decidable False)
  | .invoke (.rpc (.start _)) | .invoke (.rpc (.get _)) | .invoke (.rpc (.stop _)) | .invoke (.rpc (.sweepIdle _))
  | .invoke (.rpc (.recordEvents ..)) | .invoke (.stream _) | .advance .. => inferInstanceAs (Decidable True)

/-- The call of the manager that a thread is in. -/
def Thread.inCall : Thread → Option Pc
  | .rpc p | .opening _ p | .recording _ _ _ p => some p
  | _ => none

def Unbeaten (st : Store) : Prop := ∀ id r, st.find id = some r → r.lastHeartbeatAt = r.startedAt

structure NeverBeaten (s : State) : Prop where
  rows : Unbeaten s.shared.mgr.store
  threads : ∀ th ∈ s.threads, ∀ id, th.inCall ≠ some (.heartbeat id)

theorem advance_not_heartbeat {e : SessionManager.Env} {m m' : Manager} {p p' : Pc} {id : String}
    (h : SessionManager.advance e m p = (m',.inl p')) : p' ≠ .heartbeat id := by
  rintro rfl
  cases p <;> simp only [SessionManager.advance,goto,reply] at h <;> (repeat' split at h) <;> cases h

theorem Unbeaten.map {st : Store} (h : Unbeaten st) {f : SessionRow → SessionRow} {id : String} {r : SessionRow}
    (hf : ∀ r, (f r).lastHeartbeatAt = r.lastHeartbeatAt ∧ (f r).startedAt = r.startedAt)
    (hr : (st.find id).map f = some r) : r.lastHeartbeatAt = r.startedAt := by
  obtain ⟨r',hr',rfl⟩ := Option.map_eq_some_iff.mp hr
  rw [(hf r').1,(hf r').2]
  exact h id r' hr'

theorem Unbeaten.markStopped {st st' : Store} (h : Unbeaten st) {i : String} {now : ℕ} {ev by' : ℤ}
    (hs : st.markStopped i now ev by' = .ok st') : Unbeaten st' := by
  intro id r hr
  rw [(find_markStopped hs id).2] at hr
  split at hr
  · exact h.map (f := .stop now ev by') (fun _ => ⟨rfl,rfl⟩) hr
  · exact h id r hr

/-- Rows are created with their start as the heartbeat, and every other statement but the heartbeat keeps both. -/
theorem Unbeaten.advance {e : SessionManager.Env} {m m' : Manager} {p : Pc} {o : Pc ⊕ Reply} (hm : Unbeaten m.store)
    (hp : ∀ id, p ≠ .heartbeat id) (h : SessionManager.advance e m p = (m',o)) : Unbeaten m'.store := by
  rcases advance_store h with hs | ⟨req,-,hs⟩ | ⟨i,q,now,ev,by',-,hs⟩ | ⟨i,row,ev,by',-,hs⟩ |
    ⟨i,rfl,-⟩ | ⟨idle,-,-,hs⟩
  · exact hs ▸ hm
  · intro id r hr
    obtain ⟨-,hold,hnew⟩ := find_create hs id
    cases hfind : m.store.find id with
    | some r' =>
      rw [hold (by simp [hfind])] at hr
      exact hm id r hr
    | none =>
      rw [hnew hfind] at hr
      split at hr <;> cases hr
      rfl
  · exact hm.markStopped hs
  · exact hm.markStopped hs
  · exact absurd rfl (hp i)
  · intro id r hr
    rw [hs,(find_sweepIdle m.store idle e.now id).2] at hr
    refine hm.map (fun r => ?_) hr
    split <;> exact ⟨rfl,rfl⟩

/-- A step of a thread is a step of the call that it is in, or leaves the manager alone. -/
theorem advance_inCall {e : Env} {g g' : Engine} {th : Thread} {o : Thread ⊕ Unit} (h : advance e g th = (g',o)) :
    (g'.mgr = g.mgr ∨ ∃ p out, th.inCall = some p ∧ SessionManager.advance e.mgr g.mgr p = (g'.mgr,out)) ∧
    ∀ th' p', o = .inl th' → th'.inCall = some p' →
      (∃ p m', SessionManager.advance e.mgr g.mgr p = (m',.inl p')) ∨
      ∃ id events bytes, p' = .recordLookup id events bytes := by
  cases th with
  | rpc p =>
    cases ha : SessionManager.advance e.mgr g.mgr p with
    | mk m' out =>
      cases out with
      | inl q =>
        simp only [advance,ha,Prod.mk.injEq] at h
        obtain ⟨rfl,rfl⟩ := h
        refine ⟨.inr ⟨p,_,rfl,ha⟩,?_⟩
        rintro _ _ ⟨⟩ ⟨⟩
        exact .inl ⟨p,m',ha⟩
      | inr r =>
        simp only [advance,ha,Prod.mk.injEq] at h
        obtain ⟨rfl,rfl⟩ := h
        exact ⟨.inr ⟨p,_,rfl,ha⟩,by simp⟩
  | opening id p =>
    cases ha : SessionManager.advance e.mgr g.mgr p with
    | mk m' out =>
      cases out with
      | inl q =>
        simp only [advance,ha,Prod.mk.injEq] at h
        obtain ⟨rfl,rfl⟩ := h
        refine ⟨.inr ⟨p,_,rfl,ha⟩,?_⟩
        rintro _ _ ⟨⟩ ⟨⟩
        exact .inl ⟨p,m',ha⟩
      | inr r =>
        simp only [advance,ha,Prod.mk.injEq] at h
        obtain ⟨rfl,rfl⟩ := h
        refine ⟨.inr ⟨p,_,rfl,ha⟩,fun th' p' hth hp => ?_⟩
        split at hth <;> cases hth
        cases hp
  | recording id b late p =>
    cases ha : SessionManager.advance e.mgr g.mgr p with
    | mk m' out =>
      cases out with
      | inl q =>
        simp only [advance,ha,Prod.mk.injEq] at h
        obtain ⟨rfl,rfl⟩ := h
        refine ⟨.inr ⟨p,_,rfl,ha⟩,?_⟩
        rintro _ _ ⟨⟩ ⟨⟩
        exact .inl ⟨p,m',ha⟩
      | inr r =>
        simp only [advance,ha,Prod.mk.injEq] at h
        obtain ⟨rfl,rfl⟩ := h
        refine ⟨.inr ⟨p,_,rfl,ha⟩,?_⟩
        rintro _ _ ⟨⟩ ⟨⟩
  | checking id ptr =>
    simp only [advance] at h
    split_ifs at h <;> cases h <;> refine ⟨.inl rfl,?_⟩ <;> rintro _ _ ⟨⟩ ⟨⟩
  | receiving id =>
    cases hmsg : e.received <;> simp only [advance,hmsg,Prod.mk.injEq] at h <;> obtain ⟨rfl,rfl⟩ := h <;>
      refine ⟨.inl rfl,?_⟩ <;> rintro _ _ ⟨⟩ ⟨⟩
  | inserting id b late =>
    simp only [advance] at h
    split_ifs at h <;> cases h <;> refine ⟨.inl rfl,?_⟩ <;> rintro _ _ ⟨⟩ ⟨⟩
    exact .inr ⟨id,b.events,b.bytes,rfl⟩
  | acking id b late =>
    simp only [advance] at h
    split_ifs at h <;> cases h <;> refine ⟨.inl rfl,?_⟩ <;> rintro _ _ ⟨⟩ ⟨⟩

theorem neverBeaten_step {s t : State} {a : Action} (hs : NeverBeaten s) (hok : ClientOnly s a)
    (h : step s a = some t) : NeverBeaten t := by
  have hadv : ∀ {e g' th o}, th ∈ s.threads → advance e s.shared th = (g',o) →
      Unbeaten g'.mgr.store ∧ ∀ th', o = .inl th' → ∀ id, th'.inCall ≠ some (.heartbeat id) := by
    intro e g' th o hth ha
    obtain ⟨hmgr,hnext⟩ := advance_inCall ha
    refine ⟨?_,fun th' ho id hp => ?_⟩
    · rcases hmgr with hmgr | ⟨p,out,hp,hmgr⟩
      · exact hmgr ▸ hs.rows
      · exact hs.rows.advance (fun id hid => hs.threads th hth id (hid ▸ hp)) hmgr
    · rcases hnext th' _ ho hp with ⟨p,m',hm⟩ | ⟨_,_,_,hrec⟩
      · exact advance_not_heartbeat hm rfl
      · cases hrec
  rcases Pool.step_cases h with ⟨c,rfl,rfl⟩ | ⟨i,e,l,r,p,σ',p',rfl,hl,hp,ha,rfl⟩ |
    ⟨i,e,l,r,p,σ',v,rfl,hl,hp,ha,rfl⟩
  · refine ⟨hs.rows,fun th hth id => ?_⟩
    rcases List.mem_append.mp hth with hth | hth
    · exact hs.threads th hth id
    · obtain rfl := List.mem_singleton.mp hth
      cases c with
      | rpc c => cases c <;> first | exact hok.elim | simp [entry,Thread.inCall,SessionManager.entry]
      | stream i => simp [entry,Thread.inCall,SessionManager.entry]
  · obtain ⟨hrows,hnext⟩ := hadv (List.mem_of_getElem? hp) ha
    refine ⟨hrows,fun th hth => ?_⟩
    rcases List.mem_cons.mp (List.perm_middle.subset hth) with rfl | hth
    · exact hnext _ rfl
    · exact hs.threads th (by rw [hl]; exact List.perm_middle.symm.subset (List.mem_cons_of_mem _ hth))
  · obtain ⟨hrows,-⟩ := hadv (List.mem_of_getElem? hp) ha
    refine ⟨hrows,fun th hth => ?_⟩
    exact hs.threads th (by rw [hl]; exact List.perm_middle.symm.subset (List.mem_cons_of_mem _ hth))

/-- While no row was ever beaten, the sweeper closes the active sessions created before its interval. -/
theorem sparesLive_iff {s : State} {a : Action} (hs : NeverBeaten s) : SparesLive s a ↔ LiveAreYoung s a := by
  refine forall₂_congr fun w hw => ?_
  rw [sweepIdle_ids,Store.idleIds]
  cases s.shared.mgr.store.backend with
  | noop => simp
  | postgres =>
    simp only [List.mem_map,List.mem_filter,SessionRow.idleSince,Bool.and_eq_true,decide_eq_true_eq,forall_const]
    constructor
    · intro h r hr hact hlive
      by_contra hold
      have hbeat := hs.rows r.id r (find_of_mem hr)
      exact h r.id ⟨r,⟨hr,hact,by omega⟩,rfl⟩ hlive
    · rintro h _ ⟨r,⟨hr,hact,hidle⟩,rfl⟩ hlive
      have hbeat := hs.rows r.id r (find_of_mem hr)
      have hyoung := h r hr hact hlive
      omega

/-- With a client that never calls `Heartbeat`, the sweeps of a run spare the live captures exactly when each
of them was started in the last interval. -/
theorem sweeps_spare_live_iff {b : Backend} {as : List Action} {s : State} (hr : Run step ClientOnly (init b) as s) :
    Along step SparesLive (init b) as ↔ Along step LiveAreYoung (init b) as := by
  refine hr.along_congr NeverBeaten (fun _ _ _ hs hok _ h => neverBeaten_step hs hok h)
    (fun _ _ _ hs _ => sparesLive_iff hs) ⟨?_,?_⟩
  · intro id r hfind
    cases hfind
  · intro th hth
    cases hth

/-- A session is started at 0 and its stream accepts a batch at `accepted`. -/
def capture (accepted : ℕ) : List Action :=
  call 0 (.rpc (.start ⟨"api",[],"sess_1"⟩)) 5 ++ call 0 (.stream "sess_1") 2 ++
    (.advance 0 { received := .batch ⟨1,2,100⟩ } : Action) :: List.replicate 4 (.advance 0 {} : Action) ++
    ([.advance 0 { mgr := { now := accepted } }] : List Action)

/-- The sweeper of `serve` at `now`, with its five minutes, behind `k` calls and streams. -/
def sweepAt (k now : ℕ) : List Action :=
  .invoke (.rpc (.sweepIdle 300)) :: List.replicate 2 (.advance k { mgr := { now := now } })

/-- The sweeper closes a capture whose last batch was accepted two seconds before. -/
theorem live_capture_swept : Along step ClientOnly (init .postgres) (capture 299 ++ sweepAt 1 301) ∧
    (∃ s ∈ exec step (init .postgres) (capture 299 ++ sweepAt 1 301),
      s.shared.acked = [⟨"sess_1",⟨1,2,100⟩,false,299⟩] ∧ StoppedIn "sess_1" s.shared.history) ∧
    ¬ Along step SparesLive (init .postgres) (capture 299 ++ sweepAt 1 301) := by
  decide +kernel

/-- A capture is spared while it is young, ends, and is swept when it is idle. -/
def briefRun : List Action := capture 200 ++ sweepAt 1 260 ++ .advance 0 { received := .eof } :: sweepAt 0 560

theorem sweeps_spare_live_iff_briefRun : ∃ s ∈ exec step (init .postgres) briefRun,
    StoppedIn "sess_1" s.shared.history ∧ Along step LiveAreYoung (init .postgres) briefRun ∧
      Along step SparesLive (init .postgres) briefRun := by
  obtain ⟨s,hs,hstopped⟩ : ∃ s ∈ exec step (init .postgres) briefRun, StoppedIn "sess_1" s.shared.history := by
    decide +kernel
  have hrun : Run step ClientOnly (init .postgres) briefRun s := Run.of_exec (by decide +kernel) (Option.mem_def.mp hs)
  have hyoung : Along step LiveAreYoung (init .postgres) briefRun := by decide +kernel
  exact ⟨s,hs,hstopped,hyoung,(sweeps_spare_live_iff hrun).mpr hyoung⟩

end StreamIngest
end Clearvoiance
