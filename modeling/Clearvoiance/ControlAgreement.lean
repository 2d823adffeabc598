import Clearvoiance.ControlPlane

/-! Agreement between a monitor's row and what its streams told the client: when no handler
runs and a stream's buffer is empty, following the delivered commands gives the session
of the row.  The handlers do not keep this in general; they do when a stop meets no other
handler of the same monitor, starts do not overlap, and no push meets a full buffer. -/
namespace Clearvoiance
namespace ControlPlane

open SessionStore Transition

/-- What the client captures once it has followed everything sent or buffered. -/
def ControlStream.heading (cs : ControlStream) : Option String :=
  (cs.delivered ++ cs.commands).foldl follow none

/-- Every drained open stream has told its client what the row says. -/
def Agreement (t : State) : Prop :=
  Quiet t → ∀ (k : ℕ) (cs : ControlStream), t.shared.streams[k]? = some cs → cs.live = true →
    cs.commands = [] → cs.delivered.foldl follow none = t.shared.session cs.clientName

/-- Subscriptions, monitor starts and monitor stops over a store whose calls succeed. -/
def Served : Action → Prop
  | .invoke (.subscribe _) | .invoke (.startMonitor _ _) | .invoke (.stopMonitor _) => True
  | .invoke _ => False
  | .advance _ e => e.fault = none

instance : DecidablePred Served
  | .invoke c => by induction c using Call.casesOn <;> unfold Served <;> infer_instance
  | .advance _ e => inferInstanceAs (Decidable (e.fault = none))

def Pc.toggles (n : String) : Pc → Prop
  | .startGet m _ | .startSession m _ _ _ | .startSet m _ _ _ | .startSnapshot m _ _ _
  | .startPush m _ _ _ _ _ | .stopGet m | .stopSet m _ | .stopSession m _ _ | .stopSnapshot m _
  | .stopPush m _ _ _ => m = n
  | _ => False

def Pc.stopping (n : String) : Pc → Prop
  | .stopGet m | .stopSet m _ | .stopSession m _ _ | .stopSnapshot m _ | .stopPush m _ _ _ => m = n
  | _ => False

/-- Subscriptions of a monitor that have not finished their resume step. -/
def Pc.joining (n : String) : Pc → Prop
  | .subscribe req | .addStream req => req.clientName = n
  | .resume m _ | .resumePush m _ _ _ => m = n
  | _ => False

instance (n : String) : DecidablePred (Pc.toggles n) := fun p => by
  induction p using Pc.casesOn <;> unfold Pc.toggles <;> infer_instance

instance (n : String) : DecidablePred (Pc.stopping n) := fun p => by
  induction p using Pc.casesOn <;> unfold Pc.stopping <;> infer_instance

instance (n : String) : DecidablePred (Pc.joining n) := fun p => by
  induction p using Pc.casesOn <;> unfold Pc.joining <;> infer_instance

/-- The open stream with key `k` has room for one more command. -/
def Engine.Room (g : Engine) (k : ℕ) : Prop := ∀ cs ∈ g.streams[k]?, cs.live = true → cs.full = false

instance (g : Engine) (k : ℕ) : Decidable (g.Room k) :=
  inferInstanceAs (Decidable (∀ cs ∈ g.streams[k]?, cs.live = true → cs.full = false))

/-- The next step of the handler drops no command. -/
def Pc.fits (g : Engine) : Pc → Prop
  | .resumePush _ k _ _ | .startPush _ _ _ _ (k :: _) _ | .stopPush _ _ (k :: _) _ => g.Room k
  | _ => True

instance (g : Engine) (p : Pc) : Decidable (p.fits g) := by
  unfold Pc.fits
  split <;> infer_instance

/-- Admitted steps: starts and stops of one monitor do not overlap each other, a stop does not
overlap a subscription that has yet to resume, and no push meets a full buffer. -/
def Unhurried (t : State) : Action → Prop
  | .invoke (.subscribe req) => ∀ p ∈ t.threads, ¬ p.stopping req.clientName
  | .invoke (.startMonitor n _) => ∀ p ∈ t.threads, ¬ p.toggles n
  | .invoke (.stopMonitor n) => ∀ p ∈ t.threads, ¬ p.toggles n ∧ ¬ p.joining n
  | .invoke _ => True
  | .advance i _ => ∀ p ∈ t.threads[i]?, p.fits t.shared

instance (t : State) : DecidablePred (Unhurried t)
  | .invoke c => by induction c using Call.casesOn <;> unfold Unhurried <;> infer_instance
  | .advance i _ => inferInstanceAs (Decidable (∀ p ∈ t.threads[i]?, p.fits t.shared))

theorem heading_push {cs : ControlStream} (h : cs.full = false) (cmd : Cmd) :
    (cs.push cmd).heading = follow cs.heading cmd := by
  simp [ControlStream.push,h,ControlStream.heading,← List.append_assoc]

theorem heading_deliver (cs : ControlStream) : cs.deliver.heading = cs.heading := by
  obtain ⟨n,q,d,l⟩ := cs
  cases q <;> simp [ControlStream.deliver,ControlStream.heading]

@[simp] theorem push_clientName (cs : ControlStream) (cmd : Cmd) :
    (cs.push cmd).clientName = cs.clientName := by
  unfold ControlStream.push
  split <;> rfl

@[simp] theorem push_live (cs : ControlStream) (cmd : Cmd) : (cs.push cmd).live = cs.live := by
  unfold ControlStream.push
  split <;> rfl

theorem session_upsert (g : Engine) (req : SubscribeRequest) (n : String) :
    (g.upsert req).session n = g.session n := by
  unfold Engine.upsert
  split
  · rfl
  · by_cases hn : n = req.clientName
    · subst hn
      cases hr : g.monitors req.clientName <;> simp [Engine.session,hr]
    · simp [Engine.session,hn]

/-- A capture-state write without faults: refused, or the row is rewritten. -/
theorem writeState_cases {g g' : Engine} {n : String} {en : Bool} {sid : Option String}
    {o : Option MonitorError} (hb : g.mgr.store.backend = .postgres)
    (h : g.writeState none n en sid = (o,g')) :
    (o ≠ none ∧ g' = g) ∨ (o = none ∧ (∀ id ∈ sid, g.mgr.store.find id ≠ none) ∧
      ∃ row, g.monitors n ≠ none ∧ row.captureEnabled = en ∧ row.activeSessionID = sid ∧
        g' = { g with monitors := Function.update g.monitors n (some row) }) := by
  unfold Engine.writeState at h
  cases hset : g.setCaptureState n en sid with
  | error err =>
    rw [hset] at h
    cases h
    exact .inl ⟨by simp,rfl⟩
  | ok g'' =>
    rw [hset] at h
    cases h
    simp only [Engine.setCaptureState,hb] at hset
    cases hr : g.monitors n with
    | none => simp [hr] at hset
    | some r =>
      simp only [hr] at hset
      split at hset
      · cases hset
      · rename_i hfk
        cases hset
        refine .inr ⟨rfl,fun id hid hn => hfk ⟨id,hid,hn⟩,_,by simp,rfl,rfl,rfl⟩

theorem session_update (g : Engine) (n m : String) (row : MonitorRow) :
    ({ g with monitors := Function.update g.monitors n (some row) } : Engine).session m =
      if m = n then (if row.captureEnabled then row.activeSessionID else none) else g.session m := by
  by_cases hm : m = n
  · subst hm
    simp [Engine.session]
  · simp [Engine.session,hm]

/-- Stream `k` belongs to client `n`. -/
def Engine.Owns (g : Engine) (n : String) (k : ℕ) : Prop :=
  ∃ cs : ControlStream, g.streams[k]? = some cs ∧ cs.clientName = n

/-- A `Start` call without a preferred id. -/
def Minting : SessionManager.Pc → Prop
  | .startLookup req | .startCreate req => req.preferredID = ""
  | .startInstall _ s => s.id ≠ ""
  | _ => False

/-- A `Stop` call of session `id`. -/
def Stopping (id : String) : SessionManager.Pc → Prop
  | .stopLookup i | .stopMark i _ | .stopFetch i | .stopMarkRow i _ => i = id
  | _ => False

theorem minting_move {e : SessionManager.Env} {m m' : SessionManager.Manager}
    {pc pc' : SessionManager.Pc} (h : SessionManager.advance e m pc = (m',.inl pc'))
    (hm : Minting pc) : Minting pc' := by
  cases pc with
  | startLookup req =>
    have hne : req.preferredID = "" := hm
    simp only [SessionManager.advance,SessionManager.goto,hne,if_true] at h
    cases h
    exact hne
  | startCreate req =>
    have hne : req.preferredID = "" := hm
    simp only [SessionManager.advance,SessionManager.goto,SessionManager.reply] at h
    split at h <;> cases h
    simpa [Minting,SessionManager.freshSession,hne] using SessionManager.newID_ne e.buf
  | startInstall req s => cases h
  | _ => exact hm.elim

theorem minting_reply {e : SessionManager.Env} {m m' : SessionManager.Manager}
    {pc : SessionManager.Pc} {r : SessionManager.Reply}
    (h : SessionManager.advance e m pc = (m',.inr r)) (hm : Minting pc) :
    (∃ s, r.result = .session s ∧ s.id ≠ "") ∨ ∃ err, r.result = .error err := by
  cases pc with
  | startLookup req =>
    have hne : req.preferredID = "" := hm
    simp only [SessionManager.advance,SessionManager.goto,hne,if_true] at h
    cases h
  | startCreate req =>
    simp only [SessionManager.advance,SessionManager.goto,SessionManager.reply] at h
    split at h <;> cases h
    exact .inr ⟨_,rfl⟩
  | startInstall req s =>
    cases h
    exact .inl ⟨s,rfl,hm⟩
  | _ => exact hm.elim

theorem stopping_move {e : SessionManager.Env} {m m' : SessionManager.Manager} {id : String}
    {pc pc' : SessionManager.Pc} (h : SessionManager.advance e m pc = (m',.inl pc'))
    (hs : Stopping id pc) : Stopping id pc' := by
  cases pc with
  | stopLookup i =>
    simp only [SessionManager.advance,SessionManager.goto,SessionManager.reply] at h
    split at h
    · cases h; exact hs
    · split at h
      · cases h; exact hs
      · split at h <;> cases h
        exact hs
  | stopMark i q =>
    simp only [SessionManager.advance,SessionManager.reply] at h
    split at h
    · cases h
    · split at h <;> cases h
  | stopFetch i =>
    simp only [SessionManager.advance,SessionManager.goto,SessionManager.reply] at h
    split at h
    · cases h
    · cases h
    · split at h <;> cases h
      exact hs
  | stopMarkRow i row =>
    simp only [SessionManager.advance,SessionManager.reply] at h
    split at h <;> cases h
  | _ => exact hs.elim

theorem write_none {m : SessionManager.Manager} {e : SessionManager.Env} (hf : e.fault = none)
    (s : Store) : m.write e (.ok s) = (none,m.withStore s) := by
  simp [SessionManager.Manager.write,Store.write,hf]

theorem markStopped_ok {s : Store} {id : String} (hb : s.backend = .postgres)
    (hid : s.find id ≠ none) (now : ℕ) (ev by' : ℤ) : ∃ s', s.markStopped id now ev by' = .ok s' := by
  obtain ⟨r,hr⟩ := Option.ne_none_iff_exists'.mp hid
  simp [Store.markStopped,hb,hr]

/-- Without faults, stopping a session that has a row meets no store error. -/
theorem stopping_reply {e : SessionManager.Env} {m m' : SessionManager.Manager} {id : String}
    {pc : SessionManager.Pc} {r : SessionManager.Reply} (hf : e.fault = none)
    (h : SessionManager.advance e m pc = (m',.inr r)) (hs : Stopping id pc)
    (hb : m.store.backend = .postgres) (hid : m.store.find id ≠ none) (err : StoreError) :
    r.result ≠ .error (.store err) := by
  cases pc with
  | stopLookup i =>
    simp only [SessionManager.advance,SessionManager.goto,SessionManager.reply] at h
    split at h
    · cases h
    · split at h
      · cases h
      · split at h <;> cases h
        simp
  | stopMark i q =>
    obtain rfl : i = id := hs
    simp only [SessionManager.advance,SessionManager.reply] at h
    split at h
    · cases h; simp
    · rename_i s _
      obtain ⟨s',hs'⟩ := markStopped_ok hb hid (s.stoppedAt.getD 0) s.eventsCaptured s.bytesCaptured
      rw [hs',write_none hf] at h
      cases h
      simp
  | stopFetch i =>
    simp only [SessionManager.advance,SessionManager.goto,SessionManager.reply,
      SessionManager.Manager.fetch,hf,Store.get,hb] at h
    obtain ⟨r,hr⟩ := Option.ne_none_iff_exists'.mp hid
    obtain rfl : i = id := hs
    simp only [hr,Option.isSome_none,Bool.false_eq_true,if_false] at h
    split at h <;> cases h
    simp
  | stopMarkRow i row =>
    obtain rfl : i = id := hs
    obtain ⟨s',hs'⟩ := markStopped_ok hb hid e.now row.eventsCaptured row.bytesCaptured
    simp only [SessionManager.advance,SessionManager.reply,hs',write_none hf] at h
    cases h
    simp
  | _ => exact hs.elim

/-- What a handler in flight knows about its monitor's row and its streams. -/
def Local (g : Engine) : Pc → Prop
  | .resume n k | .serve n k => g.Owns n k
  | .resumePush n k _ id => g.Owns n k ∧ g.session n = some id
  | .startSession n _ _ pc => g.session n = none ∧ g.mgr.store.backend = .postgres ∧ Minting pc
  | .startSet n _ _ id => g.session n = none ∧ g.mgr.store.backend = .postgres ∧ id ≠ ""
  | .startSnapshot n _ _ id => g.session n = some id
  | .startPush n _ _ id rest _ => g.session n = some id ∧ ∀ k ∈ rest, g.Owns n k
  | .stopSet n id => g.session n = some id ∧ g.mgr.store.backend = .postgres
  | .stopSession n id pc => g.session n = none ∧ g.mgr.store.backend = .postgres ∧
    g.mgr.store.find id ≠ none ∧ Stopping id pc
  | .stopSnapshot n _ => g.session n = none
  | .stopPush n _ rest _ => g.session n = none ∧ ∀ k ∈ rest, g.Owns n k
  | .endSession _ _ | .deleteSession _ | .sweep _ => False
  | _ => True

def Compatible (p q : Pc) : Prop :=
  ∀ n, (p.toggles n → ¬ q.toggles n) ∧ (p.stopping n → ¬ q.joining n) ∧ (q.stopping n → ¬ p.joining n)

theorem compatible_symm (p q : Pc) (h : Compatible p q) : Compatible q p :=
  fun n => ⟨fun hq hp => (h n).1 hp hq,(h n).2.2,(h n).2.1⟩

/-- The handler still owes stream `k` the command that brings it in line with the row. -/
def Pc.owes (k : ℕ) (cs : ControlStream) : Pc → Prop
  | .resume _ j | .resumePush _ j _ _ => j = k ∧ cs.heading = none
  | .startSnapshot n _ _ _ => n = cs.clientName ∧ cs.heading = none
  | .startPush n _ _ _ rest _ => n = cs.clientName ∧ k ∈ rest ∧ cs.heading = none
  | .stopSession n id _ | .stopSnapshot n id => n = cs.clientName ∧ cs.heading = some id
  | .stopPush n id rest _ => n = cs.clientName ∧ k ∈ rest ∧ cs.heading = some id
  | _ => False

theorem owes_congr {k : ℕ} {cs cs' : ControlStream} {p : Pc} (hn : cs'.clientName = cs.clientName)
    (hh : cs'.heading = cs.heading) (h : p.owes k cs) : p.owes k cs' := by
  cases p <;> simp_all [Pc.owes]

/-- Every open stream heads for the session of its row, or some handler owes it a command. -/
structure Synced (g : Engine) (P : Set Pc) : Prop where
  registered : ∀ (k : ℕ) (cs : ControlStream), g.streams[k]? = some cs → cs.live = true →
    k ∈ g.registry cs.clientName
  owns : ∀ n, ∀ k ∈ g.registry n, g.Owns n k
  row : ∀ n id, g.session n = some id → id ≠ "" ∧ g.mgr.store.find id ≠ none
  bare : g.mgr.store.backend = .noop → ∀ n, g.session n = none
  heads : ∀ (k : ℕ) (cs : ControlStream), g.streams[k]? = some cs → cs.live = true →
    cs.heading = g.session cs.clientName ∨ ∃ p ∈ P, p.owes k cs

structure Frame (g g' : Engine) : Prop where
  backend : g'.mgr.store.backend = g.mgr.store.backend
  rows : ∀ id, g.mgr.store.find id ≠ none → g'.mgr.store.find id ≠ none
  owns : ∀ n k, g.Owns n k → g'.Owns n k

/-- The handler relies on the session of row `n`. -/
def Pc.watches (n : String) : Pc → Prop
  | .resumePush m _ _ _ => m = n
  | p => p.toggles n

theorem Local.stable {g g' : Engine} {q : Pc} (h : Local g q) (hf : Frame g g')
    (hs : ∀ n, q.watches n → g'.session n = g.session n) : Local g' q := by
  cases q with
  | resume n k | serve n k => exact hf.owns n k h
  | resumePush n k row id => exact ⟨hf.owns n k h.1,(hs n rfl).trans h.2⟩
  | startSession n sn ls pc | startSet n sn ls id =>
    exact ⟨(hs n rfl).trans h.1,hf.backend.trans h.2.1,h.2.2⟩
  | startSnapshot n sn ls id => exact (hs n rfl).trans h
  | startPush n sn ls id rest r => exact ⟨(hs n rfl).trans h.1,fun k hk => hf.owns n k (h.2 k hk)⟩
  | stopSet n id => exact ⟨(hs n rfl).trans h.1,hf.backend.trans h.2⟩
  | stopSession n id pc =>
    exact ⟨(hs n rfl).trans h.1,hf.backend.trans h.2.1,hf.rows id h.2.2.1,h.2.2.2⟩
  | stopSnapshot n id => exact (hs n rfl).trans h
  | stopPush n id rest r => exact ⟨(hs n rfl).trans h.1,fun k hk => hf.owns n k (h.2 k hk)⟩
  | endSession id pc => exact h.elim
  | deleteSession id => exact h.elim
  | sweep pc => exact h.elim
  | _ => trivial

theorem Frame.refl (g : Engine) : Frame g g := ⟨rfl,fun _ h => h,fun _ _ h => h⟩

theorem Frame.ofMgr {g : Engine} {e : SessionManager.Env} {pc : SessionManager.Pc}
    {m' : SessionManager.Manager} {o : SessionManager.Pc ⊕ SessionManager.Reply} (l : Ledger)
    (h : SessionManager.advance e g.mgr pc = (m',o)) : Frame g { g with mgr := m', ledger := l } :=
  ⟨(SessionManager.advance_rows h).1,(SessionManager.advance_rows h).2,fun _ _ h => h⟩

theorem Frame.ofMonitors (g : Engine) (f : String → Option MonitorRow) :
    Frame g { g with monitors := f } := ⟨rfl,fun _ h => h,fun _ _ h => h⟩

theorem Frame.ofModify (g : Engine) (k : ℕ) (f : ControlStream → ControlStream)
    (hf : ∀ cs, (f cs).clientName = cs.clientName) (r : String → List ℕ) :
    Frame g { g with streams := g.streams.modify k f, registry := r } := by
  refine ⟨rfl,fun _ h => h,fun n j hj => ?_⟩
  obtain ⟨cs,hcs,hn⟩ := hj
  by_cases hk : k = j
  · exact ⟨f cs,by simp [hk,hcs],(hf cs).trans hn⟩
  · exact ⟨cs,by simp [hk,hcs],hn⟩

theorem frame_upsert (g : Engine) (req : SubscribeRequest) : Frame g (g.upsert req) := by
  unfold Engine.upsert
  split
  · exact .refl g
  · exact .ofMonitors g _

theorem frame_addStream (g : Engine) (n : String) : Frame g (g.addStream n) := by
  refine ⟨rfl,fun _ h => h,fun m k hk => ?_⟩
  obtain ⟨cs,hcs,hm⟩ := hk
  have hlt := (List.getElem?_eq_some_iff.mp hcs).1
  exact ⟨cs,by simpa [Engine.addStream,List.getElem?_append_left hlt] using hcs,hm⟩

theorem frame_removeStream (g : Engine) (n : String) (k : ℕ) : Frame g (g.removeStream n k) :=
  .ofModify g k (fun cs => { cs with live := false }) (fun _ => rfl) _

/-- Only start and stop handlers move a row's session: a start only from none. -/
def Tame (g : Engine) (p : Pc) (g' : Engine) : Prop :=
  ∀ n, g'.session n = g.session n ∨ (p.toggles n ∧ (p.stopping n ∨ g.session n = none))

/-- What an advancing handler leaves standing, whether or not it finishes. -/
theorem advance_frame {e : Env} {g g' : Engine} {p : Pc} {o : Pc ⊕ Response} (hf : e.fault = none)
    (hT : Local g p) (h : advance e g p = (g',o)) : Frame g g' ∧ Tame g p g' := by
  have hsame : Tame g p g := fun _ => .inl rfl
  cases p with
  | subscribe req =>
    simp only [advance,goto,reply,hf] at h
    split at h <;> cases h
    · exact ⟨.refl g,hsame⟩
    · exact ⟨frame_upsert g req,fun n => .inl (session_upsert g req n)⟩
  | addStream req => cases h; exact ⟨frame_addStream g _,hsame⟩
  | resume n k =>
    simp only [advance,goto] at h
    split at h
    · cases h; exact ⟨.refl g,hsame⟩
    · split at h
      · split at h <;> cases h <;> exact ⟨.refl g,hsame⟩
      · cases h; exact ⟨.refl g,hsame⟩
  | resumePush n k row id => cases h; exact ⟨.ofModify g k _ (by simp) g.registry,hsame⟩
  | serve n k =>
    simp only [advance,goto,reply] at h
    split at h <;> cases h
    · exact ⟨.ofModify g k ControlStream.deliver (fun _ => rfl) g.registry,hsame⟩
    · exact ⟨.refl g,hsame⟩
    · exact ⟨frame_removeStream g n k,hsame⟩
    · exact ⟨frame_removeStream g n k,hsame⟩
  | startGet n body =>
    simp only [advance,goto,reply] at h
    split at h
    · cases h; exact ⟨.refl g,hsame⟩
    · split at h
      · cases h; exact ⟨.refl g,hsame⟩
      · cases h; exact ⟨.refl g,hsame⟩
      · split at h <;> cases h <;> exact ⟨.refl g,hsame⟩
  | startSession n sn ls pc =>
    simp only [advance,goto,reply] at h
    split at h <;> rename_i hm <;> cases h <;> exact ⟨.ofMgr _ hm,hsame⟩
  | startSet n sn ls id =>
    simp only [advance,goto,reply,hf] at h
    split at h <;> rename_i hw <;> cases h <;> rcases writeState_cases hT.2.1 hw with ⟨hne,rfl⟩ | ⟨ho,-,row,-,-,-,rfl⟩
    · exact ⟨.refl _,hsame⟩
    · cases ho
    · exact absurd rfl hne
    · refine ⟨.ofMonitors _ _,fun m => ?_⟩
      by_cases hm : m = n
      · exact .inr ⟨hm.symm,.inr (hm ▸ hT.1)⟩
      · exact .inl (by rw [session_update,if_neg hm])
  | startSnapshot n sn ls id => cases h; exact ⟨.refl g,hsame⟩
  | startPush n sn ls id rest r =>
    simp only [advance,goto,reply] at h
    split at h <;> cases h
    · exact ⟨.refl g,hsame⟩
    · exact ⟨.ofModify g _ _ (by simp) g.registry,hsame⟩
  | stopGet n =>
    simp only [advance,goto,reply] at h
    split at h
    · cases h; exact ⟨.refl g,hsame⟩
    · cases h; exact ⟨.refl g,hsame⟩
    · split at h <;> cases h <;> exact ⟨.refl g,hsame⟩
  | stopSet n id =>
    simp only [advance,goto,reply,hf] at h
    split at h <;> rename_i hw <;> cases h <;> rcases writeState_cases hT.2 hw with ⟨hne,rfl⟩ | ⟨ho,-,row,-,-,-,rfl⟩
    · exact ⟨.refl _,hsame⟩
    · cases ho
    · exact absurd rfl hne
    · refine ⟨.ofMonitors _ _,fun m => ?_⟩
      by_cases hm : m = n
      · exact .inr ⟨hm.symm,.inl hm.symm⟩
      · exact .inl (by rw [session_update,if_neg hm])
  | stopSession n id pc =>
    simp only [advance,goto,reply] at h
    split at h <;> rename_i hm <;> cases h <;> exact ⟨.ofMgr _ hm,hsame⟩
  | stopSnapshot n id => cases h; exact ⟨.refl g,hsame⟩
  | stopPush n id rest r =>
    simp only [advance,goto,reply] at h
    split at h <;> cases h
    · exact ⟨.refl g,hsame⟩
    · exact ⟨.ofModify g _ _ (by simp) g.registry,hsame⟩
  | endSession id pc => exact hT.elim
  | deleteSession id => exact hT.elim
  | sweep pc => exact hT.elim

theorem names_move {e : Env} {g g' : Engine} {p p' : Pc} (h : advance e g p = (g',.inl p')) (n : String) :
    (p'.toggles n → p.toggles n) ∧ (p'.stopping n → p.stopping n) ∧ (p'.joining n → p.joining n) := by
  cases p with
  | subscribe req =>
    simp only [advance,goto,reply] at h
    split at h <;> cases h
    exact ⟨fun h => h,fun h => h,fun h => h⟩
  | addStream req => cases h; exact ⟨fun h => h,fun h => h,fun h => h⟩
  | resume n k =>
    simp only [advance,goto] at h
    split at h
    · cases h; exact ⟨fun h => h,fun h => h,False.elim⟩
    · split at h
      · split at h <;> cases h
        · exact ⟨fun h => h,fun h => h,False.elim⟩
        · exact ⟨fun h => h,fun h => h,fun h => h⟩
      · cases h; exact ⟨fun h => h,fun h => h,False.elim⟩
  | resumePush n k row id => cases h; exact ⟨fun h => h,fun h => h,False.elim⟩
  | serve n k =>
    simp only [advance,goto,reply] at h
    split at h <;> cases h <;> exact ⟨fun h => h,fun h => h,fun h => h⟩
  | startGet n body =>
    simp only [advance,goto,reply] at h
    split at h
    · cases h
    · split at h
      · cases h
      · cases h
      · split at h <;> cases h
        exact ⟨fun h => h,fun h => h,fun h => h⟩
  | startSession n sn ls pc =>
    simp only [advance,goto,reply] at h
    split at h <;> cases h <;> exact ⟨fun h => h,fun h => h,fun h => h⟩
  | startSet n sn ls id =>
    simp only [advance,goto,reply] at h
    split at h <;> cases h
    exact ⟨fun h => h,fun h => h,fun h => h⟩
  | startSnapshot n sn ls id => cases h; exact ⟨fun h => h,fun h => h,fun h => h⟩
  | startPush n sn ls id rest r =>
    simp only [advance,goto,reply] at h
    split at h <;> cases h
    exact ⟨fun h => h,fun h => h,fun h => h⟩
  | stopGet n =>
    simp only [advance,goto,reply] at h
    split at h
    · cases h
    · cases h
    · split at h <;> cases h
      exact ⟨fun h => h,fun h => h,fun h => h⟩
  | stopSet n id =>
    simp only [advance,goto,reply] at h
    split at h <;> cases h
    exact ⟨fun h => h,fun h => h,fun h => h⟩
  | stopSession n id pc =>
    simp only [advance,goto,reply] at h
    split at h <;> cases h <;> exact ⟨fun h => h,fun h => h,fun h => h⟩
  | stopSnapshot n id => cases h; exact ⟨fun h => h,fun h => h,fun h => h⟩
  | stopPush n id rest r =>
    simp only [advance,goto,reply] at h
    split at h <;> cases h
    exact ⟨fun h => h,fun h => h,fun h => h⟩
  | endSession id pc =>
    simp only [advance,goto,reply] at h
    split at h <;> cases h
    exact ⟨fun h => h,fun h => h,fun h => h⟩
  | deleteSession id =>
    simp only [advance,reply] at h
    split at h <;> cases h
  | sweep pc =>
    simp only [advance,goto,reply] at h
    split at h <;> cases h
    exact ⟨fun h => h,fun h => h,fun h => h⟩

/-- A step that touches neither streams nor sessions hands over what the handler owes. -/
theorem Synced.silent {g g' : Engine} {P P' : Set Pc} (h : Synced g P) (hf : Frame g g')
    (hstr : g'.streams = g.streams) (hreg : g'.registry = g.registry)
    (hses : ∀ n, g'.session n = g.session n)
    (howes : ∀ k cs, g.streams[k]? = some cs → cs.live = true → ∀ p ∈ P, p.owes k cs →
      cs.heading = g.session cs.clientName ∨ ∃ p' ∈ P', p'.owes k cs) : Synced g' P' := by
  refine ⟨fun k cs hk hl => ?_,fun n k hk => ?_,fun n id hid => ?_,fun hb n => ?_,fun k cs hk hl => ?_⟩
  · rw [hreg]
    exact h.registered k cs (hstr ▸ hk) hl
  · exact hf.owns n k (h.owns n k (hreg ▸ hk))
  · have hrow := h.row n id (hses n ▸ hid)
    exact ⟨hrow.1,hf.rows id hrow.2⟩
  · rw [hses]
    exact h.bare (hf.backend ▸ hb) n
  · rw [hses]
    rcases h.heads k cs (hstr ▸ hk) hl with heq | ⟨p,hp,ho⟩
    · exact .inl heq
    · exact howes k cs (hstr ▸ hk) hl p hp ho

theorem Synced.modify {g : Engine} {P P' : Set Pc} (h : Synced g P) (j : ℕ)
    (f : ControlStream → ControlStream) (hname : ∀ cs, (f cs).clientName = cs.clientName)
    (hlive : ∀ cs, (f cs).live = cs.live)
    (hheads : ∀ k cs, g.streams[k]? = some cs → cs.live = true →
      (cs.heading = g.session cs.clientName ∨ ∃ p ∈ P, p.owes k cs) →
      let cs' := if j = k then f cs else cs
      cs'.heading = g.session cs.clientName ∨ ∃ p ∈ P', p.owes k cs') :
    Synced { g with streams := g.streams.modify j f } P' := by
  have hget : ∀ (k : ℕ) (cs' : ControlStream), (g.streams.modify j f)[k]? = some cs' →
      ∃ cs, g.streams[k]? = some cs ∧ cs' = if j = k then f cs else cs := by
    intro k cs' hk
    rw [List.getElem?_modify] at hk
    obtain ⟨cs,hcs,he⟩ := Option.map_eq_some_iff.mp hk
    exact ⟨cs,hcs,he ▸ by split <;> rfl⟩
  have hkeep : ∀ (k : ℕ) (cs : ControlStream), (if j = k then f cs else cs).clientName = cs.clientName ∧
      (if j = k then f cs else cs).live = cs.live := by
    intro k cs
    split
    · exact ⟨hname cs,hlive cs⟩
    · exact ⟨rfl,rfl⟩
  refine ⟨fun k cs' hk hl => ?_,fun n k hk => ?_,h.row,h.bare,fun k cs' hk hl => ?_⟩
  · obtain ⟨cs,hcs,rfl⟩ := hget k cs' hk
    rw [(hkeep k cs).1]
    exact h.registered k cs hcs ((hkeep k cs).2 ▸ hl)
  · exact (Frame.ofModify g j f hname g.registry).owns n k (h.owns n k hk)
  · obtain ⟨cs,hcs,rfl⟩ := hget k cs' hk
    have hl' : cs.live = true := (hkeep k cs).2 ▸ hl
    rw [(hkeep k cs).1]
    exact hheads k cs hcs hl' (h.heads k cs hcs hl')

theorem synced_addStream {g : Engine} {O : Set Pc} {req : SubscribeRequest}
    (h : Synced g (insert (.addStream req) O)) :
    Synced (g.addStream req.clientName) (insert (.resume req.clientName g.streams.length) O) := by
  have hf := frame_addStream g req.clientName
  have hget : ∀ (k : ℕ) (cs : ControlStream), (g.addStream req.clientName).streams[k]? = some cs →
      g.streams[k]? = some cs ∨ (k = g.streams.length ∧ cs = ⟨req.clientName,[],[],true⟩) := by
    intro k cs hk
    rcases lt_trichotomy k g.streams.length with hlt | rfl | hgt
    · exact .inl (by simpa [Engine.addStream,List.getElem?_append_left hlt] using hk)
    · exact .inr ⟨rfl,by simpa [Engine.addStream,eq_comm] using hk⟩
    · have hlen := (List.getElem?_eq_some_iff.mp hk).1
      simp only [Engine.addStream,List.length_append,List.length_singleton] at hlen
      omega
  refine ⟨fun k cs hk hl => ?_,fun n k hk => ?_,h.row,h.bare,fun k cs hk hl => ?_⟩
  · rcases hget k cs hk with hold | ⟨rfl,rfl⟩
    · have hreg := h.registered k cs hold hl
      by_cases hn : cs.clientName = req.clientName
      · simp [Engine.addStream,hn,hn ▸ hreg]
      · simp [Engine.addStream,hn,hreg]
    · simp [Engine.addStream]
  · by_cases hn : n = req.clientName
    · subst hn
      have hk' : k ∈ g.registry req.clientName ∨ k = g.streams.length := by
        simpa [Engine.addStream] using hk
      rcases hk' with hk' | rfl
      · exact hf.owns _ k (h.owns _ k hk')
      · exact ⟨⟨req.clientName,[],[],true⟩,by simp [Engine.addStream],rfl⟩
    · exact hf.owns n k (h.owns n k (by simpa [Engine.addStream,hn] using hk))
  · rcases hget k cs hk with hold | ⟨rfl,rfl⟩
    · rcases h.heads k cs hold hl with heq | ⟨p,hp,ho⟩
      · exact .inl heq
      · rcases Set.mem_insert_iff.mp hp with rfl | hp
        · exact ho.elim
        · exact .inr ⟨p,Set.mem_insert_of_mem _ hp,ho⟩
    · exact .inr ⟨_,Set.mem_insert _ _,rfl,rfl⟩

theorem synced_removeStream {g : Engine} {O : Set Pc} {n : String} {j : ℕ}
    (h : Synced g (insert (.serve n j) O)) : Synced (g.removeStream n j) O := by
  have hf := frame_removeStream g n j
  have hget : ∀ (k : ℕ) (cs : ControlStream), (g.removeStream n j).streams[k]? = some cs →
      cs.live = true → k ≠ j ∧ g.streams[k]? = some cs := by
    intro k cs hk hl
    simp only [Engine.removeStream,List.getElem?_modify] at hk
    obtain ⟨cs₀,hcs₀,he⟩ := Option.map_eq_some_iff.mp hk
    by_cases hj : j = k
    · rw [if_pos hj] at he
      subst he
      cases hl
    · rw [if_neg hj] at he
      exact ⟨fun hk => hj hk.symm,by rw [hcs₀]; exact congrArg some he⟩
  refine ⟨fun k cs hk hl => ?_,fun m k hk => ?_,h.row,h.bare,fun k cs hk hl => ?_⟩
  · obtain ⟨hne,hold⟩ := hget k cs hk hl
    have hreg := h.registered k cs hold hl
    by_cases hn : cs.clientName = n
    · simp [Engine.removeStream,hn,hn ▸ hreg,hne]
    · simp [Engine.removeStream,hn,hreg]
  · refine hf.owns m k (h.owns m k ?_)
    by_cases hm : m = n
    · subst hm
      have hk' : k ∈ g.registry m ∧ k ≠ j := by simpa [Engine.removeStream] using hk
      exact hk'.1
    · simpa [Engine.removeStream,hm] using hk
  · obtain ⟨-,hold⟩ := hget k cs hk hl
    rcases h.heads k cs hold hl with heq | ⟨p,hp,ho⟩
    · exact .inl heq
    · rcases Set.mem_insert_iff.mp hp with rfl | hp
      · exact ho.elim
      · exact .inr ⟨p,hp,ho⟩

/-- Announcing the session of the row brings the stream in line. -/
theorem synced_pushStart {g : Engine} {O : Set Pc} {p p' : Pc} {n id sn : String} {ls : Labels} {j : ℕ}
    (h : Synced g (insert p O)) (hroom : g.Room j) (hown : g.Owns n j) (hses : g.session n = some id)
    (howes : ∀ k cs, j ≠ k → p.owes k cs → p'.owes k cs) :
    Synced (g.push j (.start id sn ls)) (insert p' O) := by
  refine h.modify j _ (by simp) (by simp) ?_
  intro k cs hk hl hold
  by_cases hj : j = k
  · subst hj
    obtain ⟨cs',hcs',hn⟩ := hown
    obtain rfl : cs = cs' := Option.some.inj (hk.symm.trans hcs')
    refine .inl ?_
    rw [if_pos rfl,heading_push (hroom cs hk hl),hn,hses]
    rfl
  · simp only [if_neg hj]
    rcases hold with heq | ⟨q,hq,ho⟩
    · exact .inl heq
    · rcases Set.mem_insert_iff.mp hq with rfl | hq
      · exact .inr ⟨p',Set.mem_insert _ _,howes k cs hj ho⟩
      · exact .inr ⟨q,Set.mem_insert_of_mem _ hq,ho⟩

/-- Retracting a session: a stream that headed for it heads for none, the others do not move. -/
theorem synced_pushStop {g : Engine} {O : Set Pc} {n id : String} {j r r' ms : ℕ} {rest : List ℕ}
    (h : Synced g (insert (.stopPush n id (j :: rest) r) O)) (hroom : g.Room j)
    (hses : g.session n = none) (hown : g.Owns n j) :
    Synced (g.push j (.stop id ms)) (insert (.stopPush n id rest r') O) := by
  refine h.modify j _ (by simp) (by simp) ?_
  intro k cs hk hl hold
  by_cases hj : j = k
  · subst hj
    obtain ⟨cs',hcs',hn⟩ := hown
    obtain rfl : cs = cs' := Option.some.inj (hk.symm.trans hcs')
    simp only [if_true]
    have hhead := heading_push (hroom cs hk hl) (.stop id ms)
    by_cases hid : cs.heading = some id
    · refine .inl ?_
      rw [hhead,hn,hses]
      simp [follow,hid]
    · have hsame : (cs.push (.stop id ms)).heading = cs.heading := by
        rw [hhead]
        simp [follow,hid]
      rcases hold with heq | ⟨q,hq,ho⟩
      · exact .inl (hsame.trans heq)
      · rcases Set.mem_insert_iff.mp hq with rfl | hq
        · exact absurd ho.2.2 hid
        · refine .inr ⟨q,Set.mem_insert_of_mem _ hq,?_⟩
          exact owes_congr (by simp) hsame ho
  · simp only [if_neg hj]
    rcases hold with heq | ⟨q,hq,ho⟩
    · exact .inl heq
    · rcases Set.mem_insert_iff.mp hq with rfl | hq
      · obtain ⟨hn,hmem,hh⟩ := ho
        have hmem' : k ∈ rest := (List.mem_cons.mp hmem).resolve_left (fun he => hj he.symm)
        exact .inr ⟨_,Set.mem_insert _ _,hn,hmem',hh⟩
      · exact .inr ⟨q,Set.mem_insert_of_mem _ hq,ho⟩

/-- Moving the session of row `n`: its streams are now owed a command by the handler. -/
theorem synced_setState {g : Engine} {O : Set Pc} {p p' : Pc} {n : String} {row : MonitorRow}
    (h : Synced g (insert p O)) (hb : g.mgr.store.backend = .postgres)
    (hrow : ∀ id, row.captureEnabled = true → row.activeSessionID = some id →
      id ≠ "" ∧ g.mgr.store.find id ≠ none)
    (hp : ∀ k cs, ¬ p.owes k cs)
    (howes : ∀ k cs, cs.clientName = n → cs.heading = g.session n → p'.owes k cs) :
    Synced { g with monitors := Function.update g.monitors n (some row) } (insert p' O) := by
  refine ⟨h.registered,h.owns,fun m id hid => ?_,fun hn => ?_,fun k cs hk hl => ?_⟩
  · rw [session_update] at hid
    split at hid
    · split at hid
      · rename_i hen
        exact hrow id hen hid
      · cases hid
    · exact h.row m id hid
  · rw [show g.mgr.store.backend = .noop from hn] at hb
    cases hb
  · rw [session_update]
    rcases h.heads k cs hk hl with heq | ⟨q,hq,ho⟩
    · by_cases hn : cs.clientName = n
      · exact .inr ⟨p',Set.mem_insert _ _,howes k cs hn (hn ▸ heq)⟩
      · exact .inl (by rw [if_neg hn]; exact heq)
    · rcases Set.mem_insert_iff.mp hq with rfl | hq
      · exact absurd ho (hp k cs)
      · exact .inr ⟨q,Set.mem_insert_of_mem _ hq,ho⟩

theorem getMonitor_ok {g : Engine} {n : String} {row : MonitorRow} {fault : Fault}
    (h : g.getMonitor fault n = .ok row) :
    g.mgr.store.backend = .postgres ∧ g.monitors n = some row := by
  unfold Engine.getMonitor at h
  split at h
  · cases h
  · split at h
    · cases h
    · split at h <;> simp_all

theorem getMonitor_error {g : Engine} {n : String} {err : MonitorError}
    (h : g.getMonitor none n = .error err) (hnoop : g.mgr.store.backend = .noop → g.session n = none) :
    g.session n = none := by
  unfold Engine.getMonitor at h
  simp only [Option.isSome_none,Bool.false_eq_true,if_false] at h
  split at h
  · rename_i hb
    exact hnoop hb
  · split at h
    · rename_i hr
      simp [Engine.session,hr]
    · cases h

theorem synced_same {g : Engine} {O P' : Set Pc} {p : Pc} (h : Synced g (insert p O)) (hO : O ⊆ P')
    (howes : ∀ k cs, g.streams[k]? = some cs → cs.live = true → p.owes k cs →
      cs.heading = g.session cs.clientName ∨ ∃ p' ∈ P', p'.owes k cs) {g' : Engine}
    (hf : Frame g g') (hstr : g'.streams = g.streams) (hreg : g'.registry = g.registry)
    (hses : ∀ n, g'.session n = g.session n) : Synced g' P' := by
  refine h.silent hf hstr hreg hses ?_
  intro k cs hk hl q hq ho
  rcases Set.mem_insert_iff.mp hq with rfl | hq
  · exact howes k cs hk hl ho
  · exact .inr ⟨q,hO hq,ho⟩

/-- What a step of a handler leaves to the others in flight, and to itself when it goes on. -/
def Follows (g' : Engine) (O : Set Pc) : Pc ⊕ Response → Prop
  | .inl p' => Synced g' (insert p' O) ∧ Local g' p'
  | .inr _ => Synced g' O

/-- A handler that owes nothing leaves the streams and the rows' sessions alone. -/
theorem follows_free {g g' : Engine} {O : Set Pc} {p : Pc} {o : Pc ⊕ Response} (hG : Synced g (insert p O))
    (hp : ∀ k cs, ¬ p.owes k cs) (hf : Frame g g') (hstr : g'.streams = g.streams)
    (hreg : g'.registry = g.registry) (hses : ∀ n, g'.session n = g.session n)
    (hm : ∀ p', o = .inl p' → Local g' p') : Follows g' O o := by
  have hsame : ∀ {P' : Set Pc}, O ⊆ P' → Synced g' P' := fun hO =>
    synced_same hG hO (fun k cs _ _ ho => absurd ho (hp k cs)) hf hstr hreg hses
  cases o with
  | inl p' => exact ⟨hsame (Set.subset_insert _ _),hm p' rfl⟩
  | inr v => exact hsame subset_rfl

theorem follows_idle {g : Engine} {O : Set Pc} {p : Pc} {o : Pc ⊕ Response} (hG : Synced g (insert p O))
    (hp : ∀ k cs, ¬ p.owes k cs) (hm : ∀ p', o = .inl p' → Local g p') : Follows g O o :=
  follows_free hG hp (.refl g) rfl rfl (fun _ => rfl) hm

theorem follows_passed {g g' : Engine} {O : Set Pc} {p p' : Pc} (hG : Synced g (insert p O))
    (hpass : ∀ k cs, p.owes k cs → p'.owes k cs) (hf : Frame g g') (hstr : g'.streams = g.streams)
    (hreg : g'.registry = g.registry) (hses : ∀ n, g'.session n = g.session n) (hT : Local g' p') :
    Follows g' O (.inl p') := by
  refine ⟨synced_same hG (Set.subset_insert _ _) (fun k cs _ _ ho => ?_) hf hstr hreg hses,hT⟩
  exact .inr ⟨p',Set.mem_insert _ _,hpass k cs ho⟩

theorem follows_subscribe {e : Env} {g g' : Engine} {O : Set Pc} {o : Pc ⊕ Response} {req : SubscribeRequest}
    (hf : e.fault = none) (h : advance e g (.subscribe req) = (g',o))
    (hG : Synced g (insert (.subscribe req) O)) : Follows g' O o := by
  have hframe := (advance_frame hf (p := .subscribe req) trivial h).1
  simp only [advance,goto,reply,hf] at h
  split at h <;> cases h
  · exact follows_idle hG (fun _ _ h => h) (by rintro _ ⟨⟩)
  · have hup : (g.upsert req).streams = g.streams ∧ (g.upsert req).registry = g.registry := by
      unfold Engine.upsert
      split <;> exact ⟨rfl,rfl⟩
    exact follows_free hG (fun _ _ h => h) hframe hup.1 hup.2 (session_upsert g req)
      (by rintro _ ⟨⟩; trivial)

theorem follows_resume {e : Env} {g g' : Engine} {O : Set Pc} {o : Pc ⊕ Response} {n : String} {k : ℕ}
    (hf : e.fault = none) (h : advance e g (.resume n k) = (g',o)) (hG : Synced g (insert (.resume n k) O))
    (hT : Local g (.resume n k)) : Follows g' O o := by
  have hserve : g.session n = none → Synced g (insert (.serve n k) O) := by
    intro hses
    refine synced_same hG (Set.subset_insert _ _) ?_ (.refl g) rfl rfl fun _ => rfl
    rintro k cs hk - ⟨rfl,hh⟩
    obtain ⟨cs',hcs',hn⟩ := hT
    obtain rfl : cs = cs' := Option.some.inj (hk.symm.trans hcs')
    exact .inl (by rw [hh,hn,hses])
  simp only [advance,goto,hf] at h
  split at h
  · rename_i hget
    cases h
    exact ⟨hserve (getMonitor_error hget (hG.bare · n)),hT⟩
  · rename_i row hget
    have hrow := (getMonitor_ok hget).2
    split at h
    · rename_i id hen hid
      have hses : g.session n = some id := by simp [Engine.session,hrow,hen,hid]
      rw [if_neg (hG.row n id hses).1] at h
      cases h
      exact follows_passed hG (fun _ _ ho => ho) (.refl g) rfl rfl (fun _ => rfl) ⟨hT,hses⟩
    · rename_i hne
      cases h
      refine ⟨hserve ?_,hT⟩
      cases hen : row.captureEnabled with
      | false => simp [Engine.session,hrow,hen]
      | true =>
        cases hid : row.activeSessionID with
        | none => simp [Engine.session,hrow,hid]
        | some id => exact absurd hid (hne id hen)

theorem follows_serve {e : Env} {g g' : Engine} {O : Set Pc} {o : Pc ⊕ Response} {n : String} {k : ℕ}
    (hf : e.fault = none) (h : advance e g (.serve n k) = (g',o)) (hG : Synced g (insert (.serve n k) O))
    (hT : Local g (.serve n k)) : Follows g' O o := by
  have hframe := (advance_frame hf hT h).1
  simp only [advance,goto,reply] at h
  split at h <;> cases h
  · refine ⟨hG.modify k _ (fun _ => rfl) (fun _ => rfl) ?_,hframe.owns n k hT⟩
    intro k' cs hk hl hold
    have hsame : (if k = k' then cs.deliver else cs).heading = cs.heading := by
      split
      · exact heading_deliver cs
      · rfl
    have hname : (if k = k' then cs.deliver else cs).clientName = cs.clientName := by
      split <;> rfl
    rcases hold with heq | ⟨q,hq,ho⟩
    · exact .inl (hsame.trans heq)
    · exact .inr ⟨q,hq,owes_congr hname hsame ho⟩
  · exact ⟨hG,hT⟩
  · exact synced_removeStream hG
  · exact synced_removeStream hG

theorem follows_startGet {e : Env} {g g' : Engine} {O : Set Pc} {o : Pc ⊕ Response} {n : String}
    {body : Except String StartMonitorRequest} (h : advance e g (.startGet n body) = (g',o))
    (hG : Synced g (insert (.startGet n body) O)) : Follows g' O o := by
  have hidle : ∀ {o}, (∀ p', o = .inl p' → Local g p') → Follows g O o := follows_idle hG fun _ _ h => h
  simp only [advance,goto,reply] at h
  split at h
  · cases h; exact hidle (by rintro _ ⟨⟩)
  · split at h
    · cases h; exact hidle (by rintro _ ⟨⟩)
    · cases h; exact hidle (by rintro _ ⟨⟩)
    · rename_i row hget
      have hrow := getMonitor_ok hget
      split at h <;> cases h
      · exact hidle (by rintro _ ⟨⟩)
      · rename_i hen
        refine hidle ?_
        rintro _ ⟨⟩
        exact ⟨by simp [Engine.session,hrow.2,hen],hrow.1,rfl⟩

theorem follows_startSession {e : Env} {g g' : Engine} {O : Set Pc} {o : Pc ⊕ Response} {n sn : String}
    {ls : Labels} {pc : SessionManager.Pc} (hf : e.fault = none)
    (h : advance e g (.startSession n sn ls pc) = (g',o)) (hG : Synced g (insert (.startSession n sn ls pc) O))
    (hT : Local g (.startSession n sn ls pc)) : Follows g' O o := by
  have hframe := (advance_frame hf hT h).1
  simp only [advance,goto,reply] at h
  split at h <;> rename_i hm <;> cases h <;>
    refine follows_free hG (fun _ _ h => h) hframe rfl rfl (fun _ => rfl) ?_
  · rintro _ ⟨⟩
    exact ⟨hT.1,hframe.backend.trans hT.2.1,minting_move hm hT.2.2⟩
  · rintro _ ⟨⟩
    refine ⟨hT.1,hframe.backend.trans hT.2.1,?_⟩
    rcases minting_reply hm hT.2.2 with ⟨s,hs,hne⟩ | ⟨err,hs⟩
    · cases hs; exact hne
    · cases hs
  all_goals rintro _ ⟨⟩

theorem follows_startSet {e : Env} {g g' : Engine} {O : Set Pc} {o : Pc ⊕ Response} {n sn id : String}
    {ls : Labels} (hf : e.fault = none) (h : advance e g (.startSet n sn ls id) = (g',o))
    (hG : Synced g (insert (.startSet n sn ls id) O)) (hT : Local g (.startSet n sn ls id)) :
    Follows g' O o := by
  simp only [advance,goto,reply,hf] at h
  split at h <;> rename_i hw <;> cases h <;>
    rcases writeState_cases hT.2.1 hw with ⟨ho,rfl⟩ | ⟨ho,hfk,row,-,hen,hid,rfl⟩
  · exact follows_idle hG (fun _ _ h => h) (by rintro _ ⟨⟩)
  · cases ho
  · exact absurd rfl ho
  · refine ⟨synced_setState hG hT.2.1 ?_ (fun _ _ h => h) ?_,?_⟩
    · intro i _ hi
      obtain rfl : id = i := Option.some.inj (hid.symm.trans hi)
      exact ⟨hT.2.2,hfk id rfl⟩
    · intro k cs hn hh
      exact ⟨hn.symm,hh.trans hT.1⟩
    · simp [Local,session_update,hen,hid]

theorem follows_startPush {e : Env} {g g' : Engine} {O : Set Pc} {o : Pc ⊕ Response} {n sn id : String}
    {ls : Labels} {rest : List ℕ} {r : ℕ} (hf : e.fault = none)
    (hfit : (Pc.startPush n sn ls id rest r).fits g) (h : advance e g (.startPush n sn ls id rest r) = (g',o))
    (hG : Synced g (insert (.startPush n sn ls id rest r) O)) (hT : Local g (.startPush n sn ls id rest r)) :
    Follows g' O o := by
  have hframe := (advance_frame hf hT h).1
  simp only [advance,goto,reply] at h
  split at h <;> cases h
  · exact follows_idle hG (fun _ _ h => absurd h.2.1 (List.not_mem_nil)) (by rintro _ ⟨⟩)
  · rename_i k rest
    refine ⟨synced_pushStart hG hfit (hT.2 k (by simp)) hT.1 ?_,hT.1,
      fun j hj => hframe.owns n j (hT.2 j (by simp [hj]))⟩
    rintro k' cs hne ⟨hn,hmem,hh⟩
    exact ⟨hn,(List.mem_cons.mp hmem).resolve_left (fun he => hne he.symm),hh⟩

theorem follows_stopGet {e : Env} {g g' : Engine} {O : Set Pc} {o : Pc ⊕ Response} {n : String}
    (h : advance e g (.stopGet n) = (g',o)) (hG : Synced g (insert (.stopGet n) O)) : Follows g' O o := by
  have hidle : ∀ {o}, (∀ p', o = .inl p' → Local g p') → Follows g O o := follows_idle hG fun _ _ h => h
  simp only [advance,goto,reply] at h
  split at h
  · cases h; exact hidle (by rintro _ ⟨⟩)
  · cases h; exact hidle (by rintro _ ⟨⟩)
  · rename_i row hget
    have hrow := getMonitor_ok hget
    split at h <;> cases h
    · rename_i id hen hid
      refine hidle ?_
      rintro _ ⟨⟩
      exact ⟨by simp [Engine.session,hrow.2,hen,hid],hrow.1⟩
    · exact hidle (by rintro _ ⟨⟩)

theorem follows_stopSet {e : Env} {g g' : Engine} {O : Set Pc} {o : Pc ⊕ Response} {n id : String}
    (hf : e.fault = none) (h : advance e g (.stopSet n id) = (g',o)) (hG : Synced g (insert (.stopSet n id) O))
    (hT : Local g (.stopSet n id)) : Follows g' O o := by
  simp only [advance,goto,reply,hf] at h
  split at h <;> rename_i hw <;> cases h <;>
    rcases writeState_cases hT.2 hw with ⟨ho,rfl⟩ | ⟨ho,-,row,-,hen,-,rfl⟩
  · exact follows_idle hG (fun _ _ h => h) (by rintro _ ⟨⟩)
  · cases ho
  · exact absurd rfl ho
  · refine ⟨synced_setState hG hT.2 (by simp [hen]) (fun _ _ h => h) ?_,?_,hT.2,(hG.row n id hT.1).2,rfl⟩
    · intro k cs hn hh
      exact ⟨hn.symm,hh.trans hT.1⟩
    · simp [session_update,hen]

theorem follows_stopSession {e : Env} {g g' : Engine} {O : Set Pc} {o : Pc ⊕ Response} {n id : String}
    {pc : SessionManager.Pc} (hf : e.fault = none) (h : advance e g (.stopSession n id pc) = (g',o))
    (hG : Synced g (insert (.stopSession n id pc) O)) (hT : Local g (.stopSession n id pc)) :
    Follows g' O o := by
  have hframe := (advance_frame hf hT h).1
  simp only [advance,goto,reply] at h
  split at h <;> rename_i hm <;> cases h
  · exact follows_passed hG (fun _ _ ho => ho) hframe rfl rfl (fun _ => rfl)
      ⟨hT.1,hframe.backend.trans hT.2.1,hframe.rows id hT.2.2.1,stopping_move hm hT.2.2.2⟩
  · exact absurd rfl (stopping_reply hf hm hT.2.2.2 hT.2.1 hT.2.2.1 _)
  · exact follows_passed hG (fun _ _ ho => ho) hframe rfl rfl (fun _ => rfl) hT.1

/-- A snapshot of the streams passes what the handler owes to the pushes. -/
theorem follows_snapshot {g : Engine} {O : Set Pc} {p p' : Pc} {n : String} (hG : Synced g (insert p O))
    (hpass : ∀ k cs, p.owes k cs → n = cs.clientName ∧ (k ∈ g.registry n → p'.owes k cs))
    (hT : Local g p') : Follows g O (.inl p') := by
  refine ⟨synced_same hG (Set.subset_insert _ _) (fun k cs hk hl ho => ?_) (.refl g) rfl rfl fun _ => rfl,hT⟩
  obtain ⟨rfl,hp'⟩ := hpass k cs ho
  exact .inr ⟨p',Set.mem_insert _ _,hp' (hG.registered k cs hk hl)⟩

theorem follows_stopPush {e : Env} {g g' : Engine} {O : Set Pc} {o : Pc ⊕ Response} {n id : String}
    {rest : List ℕ} {r : ℕ} (hf : e.fault = none) (hfit : (Pc.stopPush n id rest r).fits g)
    (h : advance e g (.stopPush n id rest r) = (g',o)) (hG : Synced g (insert (.stopPush n id rest r) O))
    (hT : Local g (.stopPush n id rest r)) : Follows g' O o := by
  have hframe := (advance_frame hf hT h).1
  simp only [advance,goto,reply] at h
  split at h <;> cases h
  · exact follows_idle hG (fun _ _ h => absurd h.2.1 (List.not_mem_nil)) (by rintro _ ⟨⟩)
  · rename_i k rest
    exact ⟨synced_pushStop hG hfit hT.1 (hT.2 k (by simp)),hT.1,
      fun j hj => hframe.owns n j (hT.2 j (by simp [hj]))⟩

/-- The streams keep heading for their rows' sessions, or are owed a command, at every step. -/
theorem follows_step {e : Env} {g g' : Engine} {p : Pc} {o : Pc ⊕ Response} {O : Set Pc} (hf : e.fault = none)
    (hfit : p.fits g) (hadv : advance e g p = (g',o)) (hG : Synced g (insert p O)) (hT : Local g p) :
    Follows g' O o := by
  cases p with
  | subscribe req => exact follows_subscribe hf hadv hG
  | addStream req =>
    cases hadv
    exact ⟨synced_addStream hG,⟨req.clientName,[],[],true⟩,by simp [Engine.addStream],rfl⟩
  | resume n k => exact follows_resume hf hadv hG hT
  | resumePush n k row id =>
    have hframe := (advance_frame hf hT hadv).1
    cases hadv
    refine ⟨synced_pushStart hG hfit hT.1 hT.2 ?_,hframe.owns n k hT.1⟩
    rintro k' cs hne ⟨he,-⟩
    exact absurd he hne
  | serve n k => exact follows_serve hf hadv hG hT
  | startGet n body => exact follows_startGet hadv hG
  | startSession n sn ls pc => exact follows_startSession hf hadv hG hT
  | startSet n sn ls id => exact follows_startSet hf hadv hG hT
  | startSnapshot n sn ls id =>
    cases hadv
    exact follows_snapshot hG (fun _ _ ho => ⟨ho.1,fun hm => ⟨ho.1,hm,ho.2⟩⟩) ⟨hT,hG.owns n⟩
  | startPush n sn ls id rest r => exact follows_startPush hf hfit hadv hG hT
  | stopGet n => exact follows_stopGet hadv hG
  | stopSet n id => exact follows_stopSet hf hadv hG hT
  | stopSession n id pc => exact follows_stopSession hf hadv hG hT
  | stopSnapshot n id =>
    cases hadv
    exact follows_snapshot hG (fun _ _ ho => ⟨ho.1,fun hm => ⟨ho.1,hm,ho.2⟩⟩) ⟨hT,hG.owns n⟩
  | stopPush n id rest r => exact follows_stopPush hf hfit hadv hG hT
  | endSession id pc => exact hT.elim
  | deleteSession id => exact hT.elim
  | sweep pc => exact hT.elim

/-- The others keep what they know: the moving handler only moves the session of a row that no
other handler relies on. -/
theorem local_other {e : Env} {g g' : Engine} {p q : Pc} {o : Pc ⊕ Response} (hf : e.fault = none)
    (hadv : advance e g p = (g',o)) (hp : Local g p) (hq : Local g q) (hc : Compatible p q) :
    Local g' q := by
  obtain ⟨hframe,htame⟩ := advance_frame hf hp hadv
  refine hq.stable hframe fun n hw => ?_
  rcases htame n with hs | ⟨ht,hcase⟩
  · exact hs
  · cases q with
    | resumePush m k row id =>
      obtain rfl : m = n := hw
      rcases hcase with hst | hnone
      · exact absurd rfl ((hc m).2.1 hst)
      · rw [hq.2] at hnone
        cases hnone
    | _ => exact absurd hw ((hc n).1 ht)

theorem holds_init (b : Backend) :
    Pool.Holds (fun g _ P => Synced g P) (fun p g _ => Local g p) Compatible (init b) := by
  refine ⟨⟨?_,?_,?_,?_,?_⟩,?_,?_⟩ <;> simp [init,Engine.new,Engine.session]

theorem run_synced {b : Backend} {acts : List Action} {t : State}
    (h : Run step (fun s a => Served a ∧ Unhurried s a) (init b) acts t) :
    Pool.Holds (fun g _ P => Synced g P) (fun p g _ => Local g p) Compatible t := by
  refine Pool.run_holds compatible_symm ?_ ?_ ?_ h (holds_init b)
  · rintro s c ⟨hserved,hok⟩ hs
    refine ⟨hs.shared.silent (.refl _) rfl rfl (fun _ => rfl) fun k cs _ _ p hp ho =>
      .inr ⟨p,Set.mem_insert_of_mem _ hp,ho⟩,?_⟩
    cases c with
    | subscribe req =>
      refine ⟨trivial,fun q hq n => ⟨False.elim,False.elim,fun hst hj => ?_⟩⟩
      obtain rfl : req.clientName = n := hj
      exact hok q hq hst
    | startMonitor m body =>
      refine ⟨trivial,fun q hq n => ⟨fun ht => ?_,False.elim,fun _ h => h⟩⟩
      obtain rfl : m = n := ht
      exact hok q hq
    | stopMonitor m =>
      refine ⟨trivial,fun q hq n => ⟨fun ht => ?_,fun ht => ?_,fun _ h => h⟩⟩
      · obtain rfl : m = n := ht
        exact (hok q hq).1
      · obtain rfl : m = n := ht
        exact (hok q hq).2
    | stopSession id => exact hserved.elim
    | deleteSession id => exact hserved.elim
    | sweepIdle idle => exact hserved.elim
  · rintro s i e p o g' p' ⟨hserved,hok⟩ hp hperm hadv hG hT hTo hC
    obtain ⟨hG',hT'⟩ := follows_step hserved (hok p hp) hadv hG hT
    refine ⟨hG',hT',fun q hq => local_other hserved hadv hT (hTo q hq) (hC q hq),fun q hq n => ?_⟩
    obtain ⟨ht,hs,hj⟩ := names_move hadv n
    exact ⟨fun h => (hC q hq n).1 (ht h),fun h => (hC q hq n).2.1 (hs h),
      fun h hj' => (hC q hq n).2.2 h (hj hj')⟩
  · rintro s i e p o g' v ⟨hserved,hok⟩ hp hperm hadv hG hT hTo hC
    exact ⟨follows_step hserved (hok p hp) hadv hG hT,
      fun q hq => local_other hserved hadv hT (hTo q hq) (hC q hq)⟩

/-- The row and the streams agree along every unhurried run. -/
theorem unhurried_agreement (b : Backend) (acts : List Action) (t : State)
    (h : Run step (fun s a => Served a ∧ Unhurried s a) (init b) acts t) : Agreement t := by
  intro hquiet k cs hk hl hempty
  have hheads := (run_synced h).shared.heads k cs hk hl
  rw [ControlStream.heading,hempty,List.append_nil] at hheads
  rcases hheads with heq | ⟨p,hp,ho⟩
  · exact heq
  · obtain ⟨n,j,rfl⟩ := hquiet p hp
    exact ho.elim

def Pc.isServe : Pc → Bool
  | .serve _ _ => true
  | _ => false

theorem quiet_of_isServe {t : State} (h : ∀ p ∈ t.threads, p.isServe = true) : Quiet t := by
  intro p hp
  have hp' := h p hp
  cases p <;> first | exact ⟨_,_,rfl⟩ | cases hp'

/-- Some drained open stream has told its client something else than the row says. -/
def Disagreement (t : State) : Prop :=
  (∀ p ∈ t.threads, p.isServe = true) ∧ ∃ cs ∈ t.shared.streams, cs.live = true ∧ cs.commands = [] ∧
    cs.delivered.foldl follow none ≠ t.shared.session cs.clientName

instance (t : State) : Decidable (Disagreement t) := inferInstanceAs (Decidable (_ ∧ _))

theorem disagreement_not_agreement {t : State} (h : Disagreement t) : ¬ Agreement t := by
  obtain ⟨hserve,cs,hcs,hl,hempty,hne⟩ := h
  intro hag
  obtain ⟨k,hk⟩ := List.mem_iff_getElem?.mp hcs
  exact hne (hag (quiet_of_isServe hserve) k cs hk hl hempty)

/-- Admit call `c` and run `n` steps of the call at position `i`. -/
def drive (c : Call) (i n : ℕ) (e : Env := {}) : List Action :=
  .invoke c :: List.replicate n (.advance i e)

def startCall : Call := .startMonitor "api" (.ok {})
def subscribeCall : Call := .subscribe ⟨"api","",[]⟩

/-- A second replica reads the row, the capture is stopped, then the replica resumes it. -/
def lateResumeRun : List Action :=
  drive subscribeCall 0 3 ++ drive startCall 1 8 ++ drive subscribeCall 1 3 ++
    drive (.stopMonitor "api") 2 8 ++
    ([.advance 1 {},.advance 0 {},.advance 0 {},.advance 1 {},.advance 1 {}] : List Action)

/-- One capture more than a client that reads nothing has room for. -/
def slowClientRun : List Action :=
  drive subscribeCall 0 3 ++
    (List.range 8).flatMap (fun i => drive startCall 1 8 { buf := [UInt8.ofNat i] } ++
      drive (.stopMonitor "api") 1 7) ++
    drive startCall 1 8 { buf := [9] } ++ List.replicate 16 (.advance 0 {} : Action)

theorem control_plane_disagrees :
    (∃ t ∈ exec step (init .postgres) lateResumeRun, (∀ a ∈ lateResumeRun, Served a) ∧ ¬ Agreement t) ∧
    (∃ t ∈ exec step (init .postgres) slowClientRun, (∀ a ∈ slowClientRun, Served a) ∧ ¬ Agreement t) := by
  have h₁ : ∃ t ∈ exec step (init .postgres) lateResumeRun,
      (∀ a ∈ lateResumeRun, Served a) ∧ Disagreement t := by decide +kernel
  have h₂ : ∃ t ∈ exec step (init .postgres) slowClientRun,
      (∀ a ∈ slowClientRun, Served a) ∧ Disagreement t := by decide +kernel
  obtain ⟨t₁,ht₁,hs₁,hd₁⟩ := h₁
  obtain ⟨t₂,ht₂,hs₂,hd₂⟩ := h₂
  exact ⟨⟨t₁,ht₁,hs₁,disagreement_not_agreement hd₁⟩,⟨t₂,ht₂,hs₂,disagreement_not_agreement hd₂⟩⟩

/-- A start overlaps the subscription of a second replica, and both replicas read everything. -/
def calmRun : List Action :=
  drive subscribeCall 0 3 ++ drive startCall 1 3 ++ drive subscribeCall 2 4 ++
    List.replicate 6 (.advance 1 {} : Action) ++ ([.advance 0 {},.advance 1 {},.advance 1 {}] : List Action)

theorem unhurried_agreement_calmRun : ∃ t ∈ exec step (init .postgres) calmRun,
    (∀ p ∈ t.threads, p.isServe = true) ∧
      t.shared.session "api" = some (SessionManager.newID []) ∧ Agreement t := by
  have h : ∃ t ∈ exec step (init .postgres) calmRun, (∀ p ∈ t.threads, p.isServe = true) ∧
      t.shared.session "api" = some (SessionManager.newID []) := by decide +kernel
  obtain ⟨t,ht,hserve,hses⟩ := h
  have hrun : Run step (fun s a => Served a ∧ Unhurried s a) (init .postgres) calmRun t :=
    Run.of_exec (by decide +kernel) (Option.mem_def.mp ht)
  exact ⟨t,ht,hserve,hses,unhurried_agreement _ _ _ hrun⟩

end ControlPlane
end Clearvoiance
