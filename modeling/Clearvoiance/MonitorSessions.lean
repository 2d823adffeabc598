import Clearvoiance.ControlAgreement

/-! Monitor rows and the sessions they name.
Along every run an enabled row names a session its own start handler created and that is
still in the table, or names none after a deletion; that session is active unless a session
stop or the sweeper closed it.  When the start and stop handlers of a monitor do not overlap
and none of their writes gets lost, the row names the only active session it started. -/
namespace Clearvoiance
namespace ControlPlane

open SessionStore Transition

/-- A start handler of monitor `n` created session `id`, and its row is active. -/
def ActiveOf (g : Engine) (n id : String) : Prop :=
  (id,n) ∈ g.ledger.created ∧ ∃ r, g.mgr.store.find id = some r ∧ r.status = .active

/-- The relation between both tables as one would like it to be. -/
def Consistent (t : State) : Prop :=
  Quiet t → ∀ n,
    (∀ row, t.shared.monitors n = some row → row.captureEnabled = true →
      ∃ id r, row.activeSessionID = some id ∧ t.shared.mgr.store.find id = some r ∧
        r.status = .active) ∧
    (∀ id, ActiveOf t.shared n id → t.shared.session n = some id)

/-- What the tables always satisfy for monitor `n`. -/
def Accounted (g : Engine) (n : String) : Prop :=
  ∀ row, g.monitors n = some row → row.captureEnabled = true →
    (∃ id r, row.activeSessionID = some id ∧ (id,n) ∈ g.ledger.created ∧
      g.mgr.store.find id = some r ∧ (r.status = .active ∨ id ∈ g.ledger.elsewhere)) ∨
    (row.activeSessionID = none ∧ ∃ id ∈ g.ledger.deleted, (id,n) ∈ g.ledger.created)

/-- `newID` never draws an id twice. -/
def Pc.draws (e : Env) (g : Engine) : Pc → Prop
  | .startSession _ _ _ (.startCreate _) => SessionManager.newID e.buf ∉ g.ledger.created.map (·.1)
  | _ => True

instance (e : Env) (g : Engine) (p : Pc) : Decidable (p.draws e g) := by
  unfold Pc.draws
  split <;> infer_instance

def Drawn (t : State) : Action → Prop
  | .invoke _ => True
  | .advance i e => ∀ p ∈ t.threads[i]?, p.draws e t.shared

instance (t : State) : DecidablePred (Drawn t)
  | .invoke _ => inferInstanceAs (Decidable True)
  | .advance i e => inferInstanceAs (Decidable (∀ p ∈ t.threads[i]?, p.draws e t.shared))

/-- The start handler has created session `id` and not yet put it into the row. -/
def Pc.holds (id : String) : Pc → Prop
  | .startSession _ _ _ (.startInstall _ s) => s.id = id
  | .startSet _ _ _ i => i = id
  | _ => False

/-- The stop handler has read session `id` from the row. -/
def Pc.retires (id : String) : Pc → Prop
  | .stopSet _ i | .stopSession _ i _ => i = id
  | _ => False

/-- A start handler's call of the manager, and what it created. -/
def Creating (g : Engine) (n : String) : SessionManager.Pc → Prop
  | .startLookup req | .startCreate req => req.preferredID = ""
  | .startInstall _ s => (s.id,n) ∈ g.ledger.created
  | _ => False

def Sweeping : SessionManager.Pc → Prop
  | .sweepStore _ | .sweepMark _ _ => True
  | _ => False

/-- What a handler in flight knows about the tables. -/
def Aware (g : Engine) : Pc → Prop
  | .startSession n _ _ pc => g.mgr.store.backend = .postgres ∧ Creating g n pc
  | .startSet n _ _ id => g.mgr.store.backend = .postgres ∧ (id,n) ∈ g.ledger.created
  | .stopSet n id => g.mgr.store.backend = .postgres ∧ (id,n) ∈ g.ledger.created
  | .stopSession n id pc => (id,n) ∈ g.ledger.created ∧ Stopping id pc ∧ ∀ m, g.session m ≠ some id
  | .endSession id pc => Stopping id pc
  | .sweep pc => Sweeping pc
  | _ => True

/-- A new session is in one handler's hands. -/
def Exclusive (p q : Pc) : Prop :=
  ∀ id, (p.holds id → ¬ q.holds id ∧ ¬ q.retires id) ∧ (q.holds id → ¬ p.holds id ∧ ¬ p.retires id)

theorem exclusive_symm (p q : Pc) (h : Exclusive p q) : Exclusive q p := fun id => ⟨(h id).2,(h id).1⟩

/-- An enabled row names a session of its own, or lost it to a deletion. -/
def Linked (g : Engine) (n : String) : Prop :=
  ∀ row, g.monitors n = some row → row.captureEnabled = true →
    (∃ id, row.activeSessionID = some id ∧ (id,n) ∈ g.ledger.created ∧ g.mgr.store.find id ≠ none) ∨
    (row.activeSessionID = none ∧ ∃ id ∈ g.ledger.deleted, (id,n) ∈ g.ledger.created)

/-- A session that no row names and no handler is about to name. -/
def Retired (g : Engine) (P : Set Pc) (id : String) : Prop :=
  (∀ n, g.session n ≠ some id) ∧ ∀ p ∈ P, ¬ p.holds id

structure Sound (g : Engine) (P : Set Pc) : Prop where
  owner : ∀ id n n', (id,n) ∈ g.ledger.created → (id,n') ∈ g.ledger.created → n = n'
  known : ∀ id, g.mgr.store.find id ≠ none → ∃ n, (id,n) ∈ g.ledger.created
  linked : ∀ n, Linked g n
  stopped : ∀ id r, g.mgr.store.find id = some r → r.status = .stopped →
    id ∈ g.ledger.elsewhere ∨ Retired g P id
  settled : ∀ n id, g.session n = some id → ∀ p ∈ P, ¬ p.holds id

theorem session_eq_some {g : Engine} {n id : String} : g.session n = some id ↔
    ∃ row, g.monitors n = some row ∧ row.captureEnabled = true ∧ row.activeSessionID = some id := by
  unfold Engine.session
  cases g.monitors n with
  | none => simp
  | some row => cases hen : row.captureEnabled <;> simp [hen]

theorem Sound.named {g : Engine} {P : Set Pc} (h : Sound g P) {n id : String}
    (hs : g.session n = some id) : (id,n) ∈ g.ledger.created ∧ g.mgr.store.find id ≠ none := by
  obtain ⟨row,hrow,hen,hid⟩ := session_eq_some.mp hs
  rcases h.linked n row hrow hen with ⟨i,hi,hc,hf⟩ | ⟨hn,-⟩
  · obtain rfl : id = i := Option.some.inj (hid.symm.trans hi)
    exact ⟨hc,hf⟩
  · rw [hid] at hn
    cases hn

theorem Sound.accounted {g : Engine} {P : Set Pc} (h : Sound g P) (n : String) : Accounted g n := by
  intro row hrow hen
  rcases h.linked n row hrow hen with ⟨id,hid,hc,hf⟩ | hdel
  · obtain ⟨r,hr⟩ := Option.ne_none_iff_exists'.mp hf
    refine .inl ⟨id,r,hid,hc,hr,?_⟩
    cases hst : r.status with
    | active => exact .inl rfl
    | stopped =>
      rcases h.stopped id r hr hst with he | ⟨hno,-⟩
      · exact .inr he
      · exact absurd (session_eq_some.mpr ⟨row,hrow,hen,hid⟩) (hno n)
  · exact .inr hdel

/-- A step that keeps the tables and takes nothing new into its hands. -/
theorem Sound.keep {g g' : Engine} {P P' : Set Pc} (h : Sound g P)
    (hfind : ∀ id, g'.mgr.store.find id = g.mgr.store.find id)
    (hmon : ∀ n row', g'.monitors n = some row' → row'.captureEnabled = true →
      ∃ row, g.monitors n = some row ∧ row.captureEnabled = true ∧
        row.activeSessionID = row'.activeSessionID)
    (hled : g'.ledger = g.ledger) (hheld : ∀ p' ∈ P', ∀ id, p'.holds id → ∃ p ∈ P, p.holds id) :
    Sound g' P' := by
  have hses : ∀ n id, g'.session n = some id → g.session n = some id := by
    intro n id hs
    obtain ⟨row',hrow',hen',hid'⟩ := session_eq_some.mp hs
    obtain ⟨row,hrow,hen,hid⟩ := hmon n row' hrow' hen'
    exact session_eq_some.mpr ⟨row,hrow,hen,hid.trans hid'⟩
  refine ⟨hled ▸ h.owner,fun id hid => ?_,fun n row' hrow' hen' => ?_,fun id r hr hst => ?_,
    fun n id hs p' hp' hh => ?_⟩
  · rw [hled]
    exact h.known id (hfind id ▸ hid)
  · obtain ⟨row,hrow,hen,hid⟩ := hmon n row' hrow' hen'
    have hl := h.linked n row hrow hen
    rw [hid] at hl
    simpa [hled,hfind] using hl
  · rcases h.stopped id r (hfind id ▸ hr) hst with he | ⟨hno,hnh⟩
    · exact .inl (hled ▸ he)
    · refine .inr ⟨fun n hs => hno n (hses n id hs),fun p' hp' hh => ?_⟩
      obtain ⟨p,hp,hph⟩ := hheld p' hp' id hh
      exact hnh p hp hph
  · obtain ⟨p,hp,hph⟩ := hheld p' hp' id hh
    exact h.settled n id (hses n id hs) p hp hph

/-- A step that closes rows: each closed one is on the ledger or retired. -/
theorem Sound.close {g g' : Engine} {P P' : Set Pc} (h : Sound g P)
    (hnone : ∀ id, g'.mgr.store.find id = none ↔ g.mgr.store.find id = none)
    (hstop : ∀ id r', g'.mgr.store.find id = some r' → r'.status = .stopped →
      (∃ r, g.mgr.store.find id = some r ∧ r.status = .stopped) ∨ id ∈ g'.ledger.elsewhere ∨
        Retired g P id)
    (hmon : g'.monitors = g.monitors) (hcre : g'.ledger.created = g.ledger.created)
    (hdel : g'.ledger.deleted = g.ledger.deleted) (helse : g.ledger.elsewhere ⊆ g'.ledger.elsewhere)
    (hheld : ∀ p' ∈ P', ∀ id, p'.holds id → ∃ p ∈ P, p.holds id) : Sound g' P' := by
  have hses : ∀ n, g'.session n = g.session n := fun n => by simp only [Engine.session,hmon]
  have hret : ∀ id, Retired g P id → Retired g' P' id := by
    rintro id ⟨hno,hnh⟩
    refine ⟨fun n hs => hno n (hses n ▸ hs),fun p' hp' hh => ?_⟩
    obtain ⟨p,hp,hph⟩ := hheld p' hp' id hh
    exact hnh p hp hph
  refine ⟨hcre ▸ h.owner,fun id hid => ?_,fun n row hrow hen => ?_,fun id r' hr' hst => ?_,
    fun n id hs p' hp' hh => ?_⟩
  · rw [hcre]
    exact h.known id fun hn => hid ((hnone id).mpr hn)
  · rcases h.linked n row (hmon ▸ hrow) hen with ⟨id,hid,hc,hf⟩ | hdel'
    · exact .inl ⟨id,hid,hcre ▸ hc,fun hn => hf ((hnone id).mp hn)⟩
    · exact .inr (by rw [hdel,hcre]; exact hdel')
  · rcases hstop id r' hr' hst with ⟨r,hr,hst'⟩ | he | hr
    · rcases h.stopped id r hr hst' with he | hr
      · exact .inl (helse he)
      · exact .inr (hret id hr)
    · exact .inl he
    · exact .inr (hret id hr)
  · obtain ⟨p,hp,hph⟩ := hheld p' hp' id hh
    exact h.settled n id (hses n ▸ hs) p hp hph

/-- A start handler's insert puts a new id on the ledger, in the hands of that handler. -/
theorem Sound.create {g : Engine} {P P' : Set Pc} (h : Sound g P) {n id : String}
    {m' : SessionManager.Manager} {row : SessionRow} (hb : g.mgr.store.backend = .postgres)
    (hc : g.mgr.store.create row = .ok m'.store) (hid : row.id = id) (hact : row.status = .active)
    (hnew : id ∉ g.ledger.created.map (·.1))
    (hheld : ∀ p' ∈ P', ∀ i, p'.holds i → i = id ∨ ∃ p ∈ P, p.holds i) :
    Sound { g with mgr := m', ledger := { g.ledger with created := (id,n) :: g.ledger.created } } P' := by
  have hfresh : ∀ {m}, (id,m) ∉ g.ledger.created := fun hm => hnew (List.mem_map_of_mem hm)
  have hnone : g.mgr.store.find id = none := by
    by_contra hne
    obtain ⟨m,hm⟩ := h.known id hne
    exact hfresh hm
  have hself : m'.store.find id = some row := by
    rw [(find_create hc id).2.2 hnone,if_pos ⟨hb,hid⟩]
  have hother : ∀ i, i ≠ id → m'.store.find i = g.mgr.store.find i := by
    intro i hi
    cases hf : g.mgr.store.find i with
    | none =>
      rw [(find_create hc i).2.2 hf,if_neg]
      exact fun hcon => hi (hcon.2 ▸ hid)
    | some r => rw [(find_create hc i).2.1 (by simp [hf]),hf]
  have hheld' : ∀ p' ∈ P', ∀ i, i ≠ id → p'.holds i → ∃ p ∈ P, p.holds i :=
    fun p' hp' i hi hh => (hheld p' hp' i hh).resolve_left hi
  refine ⟨fun i m k hm hk => ?_,fun i hi => ?_,fun m r hr hen => ?_,fun i r hr hst => ?_,
    fun m i hs p' hp' hh => ?_⟩
  · rcases List.mem_cons.mp hm with hm | hm <;> rcases List.mem_cons.mp hk with hk | hk
    · cases hm; cases hk; rfl
    · cases hm; exact absurd hk hfresh
    · cases hk; exact absurd hm hfresh
    · exact h.owner i m k hm hk
  · by_cases hi' : i = id
    · exact ⟨n,by simp [hi']⟩
    · obtain ⟨m,hm⟩ := h.known i (hother i hi' ▸ hi)
      exact ⟨m,List.mem_cons_of_mem _ hm⟩
  · rcases h.linked m r hr hen with ⟨i,hi,hc',hf⟩ | ⟨hn,i,hi,hc'⟩
    · refine .inl ⟨i,hi,List.mem_cons_of_mem _ hc',?_⟩
      exact (hother i fun he => hfresh (he ▸ hc')) ▸ hf
    · exact .inr ⟨hn,i,hi,List.mem_cons_of_mem _ hc'⟩
  · by_cases hi : i = id
    · subst hi
      rw [show m'.store.find i = some row from hself] at hr
      cases hr
      rw [hact] at hst
      cases hst
    · rcases h.stopped i r (hother i hi ▸ hr) hst with he | ⟨hno,hnh⟩
      · exact .inl he
      · refine .inr ⟨hno,fun p' hp' hh => ?_⟩
        obtain ⟨p,hp,hph⟩ := hheld' p' hp' i hi hh
        exact hnh p hp hph
  · have hs' : g.session m = some i := hs
    have hi : i ≠ id := fun he => hfresh (he ▸ (h.named hs').1)
    obtain ⟨p,hp,hph⟩ := hheld' p' hp' i hi hh
    exact h.settled m i hs' p hp hph

theorem Sound.name {g : Engine} {P P' : Set Pc} (h : Sound g P) {n id : String} {row : MonitorRow}
    {p : Pc} (hp : p ∈ P) (hh : p.holds id) (hc : (id,n) ∈ g.ledger.created)
    (hf : g.mgr.store.find id ≠ none) (hid : row.activeSessionID = some id)
    (hfree : ∀ p' ∈ P', ¬ p'.holds id)
    (hheld : ∀ p' ∈ P', ∀ i, p'.holds i → ∃ p ∈ P, p.holds i) :
    Sound { g with monitors := Function.update g.monitors n (some row) } P' := by
  have hses : ∀ m i, ({ g with monitors := Function.update g.monitors n (some row) } : Engine).session m =
      some i → (m = n ∧ i = id) ∨ g.session m = some i := by
    intro m i hs
    rw [session_update] at hs
    split at hs
    · rename_i hm
      split at hs
      · exact .inl ⟨hm,(Option.some.inj (hid.symm.trans hs)).symm⟩
      · cases hs
    · exact .inr hs
  refine ⟨h.owner,h.known,fun m r hr hen => ?_,fun i r hr hst => ?_,fun m i hs p' hp' hph => ?_⟩
  · by_cases hm : m = n
    · subst hm
      obtain rfl : row = r := by simpa using hr
      exact .inl ⟨id,hid,hc,hf⟩
    · exact h.linked m r (by simpa [hm] using hr) hen
  · rcases h.stopped i r hr hst with he | ⟨hno,hnh⟩
    · exact .inl he
    · refine .inr ⟨fun m hs => ?_,fun p' hp' hph => ?_⟩
      · rcases hses m i hs with ⟨-,rfl⟩ | hs
        · exact hnh p hp hh
        · exact hno m hs
      · obtain ⟨q,hq,hqh⟩ := hheld p' hp' i hph
        exact hnh q hq hqh
  · rcases hses m i hs with ⟨-,rfl⟩ | hs
    · exact hfree p' hp' hph
    · obtain ⟨q,hq,hqh⟩ := hheld p' hp' i hph
      exact h.settled m i hs q hq hqh

theorem session_unlink {g g' : Engine} {id n i : String}
    (hf : g'.monitors = fun n => (g.monitors n).map (MonitorRow.unlink id))
    (hs : g'.session n = some i) : g.session n = some i ∧ i ≠ id := by
  obtain ⟨row',hrow',hen,hi⟩ := session_eq_some.mp hs
  rw [hf] at hrow'
  obtain ⟨row,hrow,rfl⟩ := Option.map_eq_some_iff.mp hrow'
  by_cases ha : row.activeSessionID = some id
  · simp [MonitorRow.unlink,ha] at hi
  · simp only [MonitorRow.unlink,if_neg ha] at hen hi
    exact ⟨session_eq_some.mpr ⟨row,hrow,hen,hi⟩,fun he => ha (he ▸ hi)⟩

theorem Sound.delete {g g' : Engine} {P P' : Set Pc} (h : Sound g P) {id : String}
    (hd : g.deleteSession id = .ok g')
    (hheld : ∀ p' ∈ P', ∀ i, p'.holds i → ∃ p ∈ P, p.holds i) : Sound g' P' := by
  unfold Engine.deleteSession at hd
  split at hd
  · cases hd
  · rename_i s hs
    cases hd
    refine ⟨h.owner,fun i hi => ?_,fun n row hrow hen => ?_,fun i r hr hst => ?_,fun n i hn p' hp' hh => ?_⟩
    · have hold : s.find i = g.mgr.store.find i := (find_delete hs i).2.2.1.resolve_left hi
      exact h.known i (hold ▸ hi)
    · obtain ⟨row₀,hrow₀,rfl⟩ := Option.map_eq_some_iff.mp hrow
      have hen₀ : row₀.captureEnabled = true := by
        unfold MonitorRow.unlink at hen
        split at hen <;> exact hen
      rcases h.linked n row₀ hrow₀ hen₀ with ⟨i,hi,hc,hf⟩ | ⟨hn,i,hi,hc⟩
      · by_cases he : i = id
        · subst he
          exact .inr ⟨by simp [MonitorRow.unlink,hi],i,by simp,hc⟩
        · refine .inl ⟨i,by simp [MonitorRow.unlink,hi,he],hc,?_⟩
          exact ((find_delete hs i).2.1 he) ▸ hf
      · exact .inr ⟨by simp [MonitorRow.unlink,hn],i,List.mem_cons_of_mem _ hi,hc⟩
    · have hold : s.find i = g.mgr.store.find i :=
        (find_delete hs i).2.2.1.resolve_left fun hn => by
          rw [show s.find i = some r from hr] at hn
          cases hn
      rcases h.stopped i r (hold ▸ hr) hst with he | ⟨hno,hnh⟩
      · exact .inl he
      · refine .inr ⟨fun n hn => hno n (session_unlink rfl hn).1,fun p' hp' hh => ?_⟩
        obtain ⟨p,hp,hph⟩ := hheld p' hp' i hh
        exact hnh p hp hph
    · obtain ⟨p,hp,hph⟩ := hheld p' hp' i hh
      exact h.settled n i (session_unlink rfl hn).1 p hp hph

theorem writeState_faulty {g g' : Engine} {n : String} {en : Bool} {sid : Option String} {fault : Fault}
    {o : Option MonitorError} (hb : g.mgr.store.backend = .postgres)
    (h : g.writeState fault n en sid = (o,g')) :
    (o ≠ none ∧ g' = g ∧
      (fault = some false ∨ g.monitors n = none ∨ ∃ id ∈ sid, g.mgr.store.find id = none)) ∨
    ((o ≠ none → fault = some true) ∧ (∀ id ∈ sid, g.mgr.store.find id ≠ none) ∧
      ∃ row, row.captureEnabled = en ∧ row.activeSessionID = sid ∧
        g' = { g with monitors := Function.update g.monitors n (some row) }) := by
  have hnone : ∀ o' g'', g.writeState none n en sid = (o',g'') →
      (o' ≠ none ∧ g'' = g ∧ (g.monitors n = none ∨ ∃ id ∈ sid, g.mgr.store.find id = none)) ∨
      (o' = none ∧ (∀ id ∈ sid, g.mgr.store.find id ≠ none) ∧ ∃ row, row.captureEnabled = en ∧
        row.activeSessionID = sid ∧ g'' = { g with monitors := Function.update g.monitors n (some row) }) := by
    intro o' g'' hw
    rcases writeState_cases hb hw with ⟨hne,rfl⟩ | ⟨ho,hfk,row,-,hen,hid,rfl⟩
    · refine .inl ⟨hne,rfl,?_⟩
      by_contra hcon
      push Not at hcon
      obtain ⟨r,hr⟩ := Option.ne_none_iff_exists'.mp hcon.1
      have hfk : ¬ ∃ id ∈ sid, g''.mgr.store.find id = none := fun ⟨id,hid,hn⟩ => hcon.2 id hid hn
      simp only [Engine.writeState,Engine.setCaptureState,hb,hr,if_neg hfk] at hw
      exact hne (Prod.mk.inj hw).1.symm
    · exact .inr ⟨ho,hfk,row,hen,hid,rfl⟩
  rcases fault with _ | _ | _
  · rcases hnone o g' h with ⟨hne,rfl,hwhy⟩ | ⟨rfl,hrest⟩
    · exact .inl ⟨hne,rfl,.inr hwhy⟩
    · exact .inr ⟨fun hne => absurd rfl hne,hrest⟩
  · unfold Engine.writeState at h
    cases hset : g.setCaptureState n en sid <;> rw [hset] at h <;> cases h <;>
      exact .inl ⟨by simp,rfl,.inl rfl⟩
  · unfold Engine.writeState at h
    cases hset : g.setCaptureState n en sid with
    | error err =>
      rw [hset] at h
      cases h
      rcases hnone (some err) g (by simp [Engine.writeState,hset]) with ⟨-,-,hwhy⟩ | ⟨ho,-⟩
      · exact .inl ⟨by simp,rfl,.inr hwhy⟩
      · cases ho
    | ok g'' =>
      rw [hset] at h
      cases h
      rcases hnone none g' (by simp [Engine.writeState,hset]) with ⟨hne,-⟩ | ⟨-,hrest⟩
      · exact absurd rfl hne
      · exact .inr ⟨fun _ => rfl,hrest⟩

theorem find_markStopped_cases {s s' : Store} {id : String} {now : ℕ} {ev by' : ℤ}
    (h : s.markStopped id now ev by' = .ok s') (i : String) :
    (s'.find i = none ↔ s.find i = none) ∧ (i ≠ id → s'.find i = s.find i) ∧
      (s.backend = .postgres → ∀ r', s'.find id = some r' → r'.status = .stopped) := by
  have hf := (find_markStopped h i).2
  refine ⟨by rw [hf]; split <;> simp,fun hi => by rw [hf,if_neg fun hcon => hi hcon.2],fun hb r' hr' => ?_⟩
  rw [(find_markStopped h id).2,if_pos ⟨hb,rfl⟩] at hr'
  obtain ⟨r,-,rfl⟩ := Option.map_eq_some_iff.mp hr'
  rfl

/-- A `Stop` call of `id` closes the row of `id` at most. -/
theorem stopping_rows {e : SessionManager.Env} {m m' : SessionManager.Manager} {id : String}
    {pc : SessionManager.Pc} {o : SessionManager.Pc ⊕ SessionManager.Reply}
    (h : SessionManager.advance e m pc = (m',o)) (hs : Stopping id pc) (i : String) :
    (m'.store.find i = none ↔ m.store.find i = none) ∧ (i ≠ id → m'.store.find i = m.store.find i) := by
  rcases SessionManager.advance_store h with hst | ⟨req,rfl,-⟩ | ⟨j,q,now,ev,by',rfl,hst⟩ |
    ⟨j,row,ev,by',rfl,hst⟩ | ⟨j,rfl,-⟩ | ⟨idle,rfl,-⟩
  · rw [hst]
    exact ⟨Iff.rfl,fun _ => rfl⟩
  · exact hs.elim
  · obtain rfl : j = id := hs
    exact ⟨(find_markStopped_cases hst i).1,(find_markStopped_cases hst i).2.1⟩
  · obtain rfl : j = id := hs
    exact ⟨(find_markStopped_cases hst i).1,(find_markStopped_cases hst i).2.1⟩
  · exact hs.elim
  · exact hs.elim

theorem stopping_closed {e : SessionManager.Env} {m m' : SessionManager.Manager} {id : String}
    {pc : SessionManager.Pc} {o : SessionManager.Pc ⊕ SessionManager.Reply}
    (h : SessionManager.advance e m pc = (m',o)) (hs : Stopping id pc) {r' : SessionRow}
    (hr' : m'.store.find id = some r') (hst' : r'.status = .stopped) :
    m.store.find id = some r' ∨ id ∈ closedRows e m m' pc := by
  rcases SessionManager.advance_store h with hst | ⟨req,rfl,-⟩ | ⟨j,q,now,ev,by',rfl,hst⟩ |
    ⟨j,row,ev,by',rfl,hst⟩ | ⟨j,rfl,-⟩ | ⟨idle,rfl,-⟩
  · exact .inl (hst ▸ hr')
  · exact hs.elim
  · obtain rfl : j = id := hs
    exact .inr (by simp [closedRows,hr',hst'])
  · obtain rfl : j = id := hs
    exact .inr (by simp [closedRows,hr',hst'])
  · exact hs.elim
  · exact hs.elim

theorem sweeping_rows {e : SessionManager.Env} {m m' : SessionManager.Manager}
    {pc : SessionManager.Pc} {o : SessionManager.Pc ⊕ SessionManager.Reply}
    (h : SessionManager.advance e m pc = (m',o)) (hs : Sweeping pc) (id : String) :
    (m'.store.find id = none ↔ m.store.find id = none) ∧
    ∀ r', m'.store.find id = some r' → m.store.find id = some r' ∨
      (r'.status = .stopped ∧ id ∈ closedRows e m m' pc) := by
  rcases SessionManager.advance_store h with hst | ⟨req,rfl,-⟩ | ⟨j,q,now,ev,by',rfl,hst⟩ |
    ⟨j,row,ev,by',rfl,hst⟩ | ⟨j,rfl,-⟩ | ⟨idle,rfl,hfault,hst⟩
  · rw [hst]
    exact ⟨Iff.rfl,fun _ h => .inl h⟩
  · exact hs.elim
  · exact hs.elim
  · exact hs.elim
  · exact hs.elim
  · rw [hst,(find_sweepIdle m.store idle e.now id).2]
    refine ⟨by simp,fun r' hr' => ?_⟩
    obtain ⟨r,hr,rfl⟩ := Option.map_eq_some_iff.mp hr'
    split
    · rename_i hidle
      refine .inr ⟨rfl,?_⟩
      have hmem : r ∈ m.store.rows := List.mem_of_find?_eq_some hr
      simp only [closedRows,if_neg hfault,Store.idleIds,hidle.1]
      exact List.mem_map.mpr ⟨r,List.mem_filter.mpr ⟨hmem,hidle.2⟩,find_id hr⟩
    · exact .inl hr

theorem insertedRow_create {e : SessionManager.Env} {m m' : SessionManager.Manager}
    {req : SessionManager.StartRequest} (hb : m.store.backend = .postgres) (hne : req.preferredID = "")
    (hst : m.store.create (SessionManager.rowOf e (SessionManager.freshSession e req)) = .ok m'.store) :
    insertedRow e m m' (.startCreate req) = some (SessionManager.newID e.buf) := by
  have hid : (SessionManager.freshSession e req).id = SessionManager.newID e.buf := by
    simp [SessionManager.freshSession,hne]
  have hnone : m.store.find (SessionManager.newID e.buf) = none := by
    simp only [Store.create,hb] at hst
    split at hst
    · cases hst
    · rename_i hn
      exact hid ▸ hn
  have hnew := (find_create hst (SessionManager.newID e.buf)).2.2 hnone
  rw [if_pos ⟨hb,hid⟩] at hnew
  simp [insertedRow,hid,hnone,hnew]

/-- What one step of a start handler's call does to the tables: an insert of a new active row,
or nothing. -/
theorem creating_rows {e : SessionManager.Env} {g : Engine} {m' : SessionManager.Manager} {n : String}
    {pc : SessionManager.Pc} {o : SessionManager.Pc ⊕ SessionManager.Reply}
    (hb : g.mgr.store.backend = .postgres)
    (h : SessionManager.advance e g.mgr pc = (m',o)) (hc : Creating g n pc) :
    (m'.store = g.mgr.store ∧ insertedRow e g.mgr m' pc = none) ∨
    (∃ req row, pc = .startCreate req ∧ g.mgr.store.create row = .ok m'.store ∧
      row.id = SessionManager.newID e.buf ∧ row.status = .active ∧
      insertedRow e g.mgr m' pc = some (SessionManager.newID e.buf)) := by
  rcases SessionManager.advance_store h with hst | ⟨req,rfl,hst⟩ | ⟨j,q,now,ev,by',rfl,hst⟩ |
    ⟨j,row,ev,by',rfl,hst⟩ | ⟨j,rfl,-⟩ | ⟨idle,rfl,hfault,hst⟩
  · refine .inl ⟨hst,?_⟩
    unfold insertedRow
    split
    · simp [hst]
    · rfl
  · refine .inr ⟨req,_,rfl,hst,?_,rfl,insertedRow_create hb hc hst⟩
    simp [SessionManager.rowOf,SessionManager.freshSession,show req.preferredID = "" from hc]
  · exact hc.elim
  · exact hc.elim
  · exact hc.elim
  · exact hc.elim

structure Leaves (g : Engine) (p : Pc) (g' : Engine) : Prop where
  backend : g'.mgr.store.backend = g.mgr.store.backend
  created : g.ledger.created ⊆ g'.ledger.created
  session : ∀ n id, g'.session n = some id → g.session n = some id ∨ p.holds id

theorem Leaves.ofMgr {g : Engine} {p : Pc} {e : SessionManager.Env} {pc : SessionManager.Pc}
    {m' : SessionManager.Manager} {o : SessionManager.Pc ⊕ SessionManager.Reply} {l : Ledger}
    (h : SessionManager.advance e g.mgr pc = (m',o)) (hl : g.ledger.created ⊆ l.created) :
    Leaves g p { g with mgr := m', ledger := l } :=
  ⟨(SessionManager.advance_rows h).1,hl,fun _ _ h => .inl h⟩

theorem Aware.stable {g g' : Engine} {p q : Pc} (h : Aware g q) (hl : Leaves g p g')
    (hx : Exclusive p q) : Aware g' q := by
  cases q with
  | startSession n sn ls pc =>
    refine ⟨hl.backend.trans h.1,?_⟩
    have hc := h.2
    cases pc with
    | startInstall req s => exact hl.created hc
    | startLookup req | startCreate req => exact hc
    | _ => exact hc.elim
  | startSet n sn ls id => exact ⟨hl.backend.trans h.1,hl.created h.2⟩
  | stopSet n id => exact ⟨hl.backend.trans h.1,hl.created h.2⟩
  | stopSession n id pc =>
    refine ⟨hl.created h.1,h.2.1,fun m hs => ?_⟩
    rcases hl.session m id hs with hs | hh
    · exact h.2.2 m hs
    · exact ((hx id).1 hh).2 rfl
  | endSession id pc => exact h
  | sweep pc => exact h
  | _ => trivial

theorem held_insert {O : Set Pc} {p p' : Pc} (h : ∀ id, p'.holds id → p.holds id) :
    ∀ q ∈ insert p' O, ∀ id, q.holds id → ∃ r ∈ insert p O, r.holds id := by
  intro q hq id hh
  rcases Set.mem_insert_iff.mp hq with rfl | hq
  · exact ⟨p,Set.mem_insert _ _,h id hh⟩
  · exact ⟨q,Set.mem_insert_of_mem _ hq,hh⟩

theorem held_others {O : Set Pc} {p : Pc} :
    ∀ q ∈ O, ∀ id, q.holds id → ∃ r ∈ insert p O, r.holds id :=
  fun q hq _ hh => ⟨q,Set.mem_insert_of_mem _ hq,hh⟩

/-- The handlers in flight after a step of one of them. -/
def inFlight (O : Set Pc) : Pc ⊕ Response → Set Pc
  | .inl p' => insert p' O
  | .inr _ => O

def Moved (g' : Engine) : Pc ⊕ Response → Prop
  | .inl p' => Aware g' p'
  | .inr _ => True

theorem held_inFlight {O : Set Pc} {p : Pc} {o : Pc ⊕ Response}
    (h : ∀ p', o = .inl p' → ∀ id, p'.holds id → p.holds id) :
    ∀ q ∈ inFlight O o, ∀ id, q.holds id → ∃ r ∈ insert p O, r.holds id := by
  cases o with
  | inl p' => exact held_insert (h p' rfl)
  | inr v => exact held_others

/-- A step that only touches streams, or a row's display fields. -/
structure Beside (g g' : Engine) : Prop where
  mgr : g'.mgr = g.mgr
  ledger : g'.ledger = g.ledger
  monitors : ∀ n row', g'.monitors n = some row' → row'.captureEnabled = true →
    ∃ row, g.monitors n = some row ∧ row.captureEnabled = true ∧ row.activeSessionID = row'.activeSessionID

theorem Beside.ofStreams {g g' : Engine} (hmgr : g'.mgr = g.mgr) (hled : g'.ledger = g.ledger)
    (hmon : g'.monitors = g.monitors) : Beside g g' :=
  ⟨hmgr,hled,fun _ row hr he => ⟨row,hmon ▸ hr,he,rfl⟩⟩

theorem Beside.refl (g : Engine) : Beside g g := .ofStreams rfl rfl rfl

theorem Beside.upsert (g : Engine) (req : SubscribeRequest) : Beside g (g.upsert req) := by
  refine ⟨by unfold Engine.upsert; split <;> rfl,by unfold Engine.upsert; split <;> rfl,
    fun n row' h hen => ?_⟩
  unfold Engine.upsert at h
  split at h
  · exact ⟨row',h,hen,rfl⟩
  · by_cases hn : n = req.clientName
    · subst hn
      cases hr : g.monitors req.clientName with
      | none =>
        simp only [hr,Function.update_self,Option.some.injEq] at h
        subst h
        cases hen
      | some r =>
        simp only [hr,Function.update_self,Option.some.injEq] at h
        subst h
        exact ⟨r,rfl,hen,rfl⟩
    · simp only [Function.update_of_ne hn] at h
      exact ⟨row',h,hen,rfl⟩

/-- What a step of handler `p` owes to the tables and to the others in flight. -/
def Keeps (g g' : Engine) (O : Set Pc) (p : Pc) (o : Pc ⊕ Response) : Prop :=
  Leaves g p g' ∧ Sound g' (inFlight O o) ∧ Moved g' o

theorem Beside.keeps {g g' : Engine} {O : Set Pc} {p : Pc} {o : Pc ⊕ Response} (h : Beside g g')
    (hG : Sound g (insert p O)) (hheld : ∀ p', o = .inl p' → ∀ id, p'.holds id → p.holds id)
    (hm : Moved g' o) : Keeps g g' O p o := by
  refine ⟨⟨by rw [h.mgr],by rw [h.ledger]; exact fun _ h => h,fun n id hs => ?_⟩,
    hG.keep (fun _ => by rw [h.mgr]) h.monitors h.ledger (held_inFlight hheld),hm⟩
  obtain ⟨row',hrow',hen',hid'⟩ := session_eq_some.mp hs
  obtain ⟨row,hrow,hen,hid⟩ := h.monitors n row' hrow' hen'
  exact .inl (session_eq_some.mpr ⟨row,hrow,hen,hid.trans hid'⟩)

theorem sound_idle {g : Engine} {O : Set Pc} {p : Pc} {o : Pc ⊕ Response} (hG : Sound g (insert p O))
    (h : ∀ p', o = .inl p' → ∀ id, ¬ p'.holds id) (hm : Moved g o) : Keeps g g O p o :=
  (Beside.refl g).keeps hG (fun p' ho id hh => absurd hh (h p' ho id)) hm

theorem sound_startSession {e : SessionManager.Env} {g : Engine} {O : Set Pc} {n sn : String} {ls : Labels}
    {pc : SessionManager.Pc} {m' : SessionManager.Manager}
    {so : SessionManager.Pc ⊕ SessionManager.Reply} {o : Pc ⊕ Response}
    (hadv : SessionManager.advance e g.mgr pc = (m',so))
    (hdraw : ∀ req, pc = .startCreate req → SessionManager.newID e.buf ∉ g.ledger.created.map (·.1))
    (hG : Sound g (insert (.startSession n sn ls pc) O)) (hb : g.mgr.store.backend = .postgres)
    (hc : Creating g n pc)
    (hheld : ∀ p', o = .inl p' → ∀ id, p'.holds id → (Pc.startSession n sn ls pc).holds id ∨
      insertedRow e g.mgr m' pc = some id) :
    Leaves g (.startSession n sn ls pc) (g.afterStart e n pc m') ∧
      Sound (g.afterStart e n pc m') (inFlight O o) := by
  refine ⟨.ofMgr hadv (by simp),?_⟩
  rcases creating_rows hb hadv hc with ⟨hst,hins⟩ | ⟨req,row,rfl,hcre,hid,hact,hins⟩
  · have hsame : g.afterStart e n pc m' = { g with mgr := m' } := by
      simp [Engine.afterStart,hins]
    rw [hsame]
    refine hG.keep (fun _ => by rw [hst]) (fun _ row hr he => ⟨row,hr,he,rfl⟩) rfl (held_inFlight ?_)
    intro p' ho id hh
    rcases hheld p' ho id hh with hh | hi
    · exact hh
    · rw [hins] at hi
      cases hi
  · have hone : g.afterStart e n (.startCreate req) m' = { g with
        mgr := m'
        ledger := { g.ledger with created := (SessionManager.newID e.buf,n) :: g.ledger.created } } := by
      simp [Engine.afterStart,hins]
    rw [hone]
    refine hG.create hb hcre hid hact (hdraw req rfl) ?_
    intro p' hp' i hh
    cases o with
    | inr v => exact .inr ⟨p',Set.mem_insert_of_mem _ hp',hh⟩
    | inl p'' =>
      rcases Set.mem_insert_iff.mp hp' with rfl | hp'
      · rcases hheld p' rfl i hh with hh | hi
        · exact hh.elim
        · rw [hins] at hi
          exact .inl (Option.some.inj hi).symm
      · exact .inr ⟨p',Set.mem_insert_of_mem _ hp',hh⟩

theorem creating_move {e : SessionManager.Env} {g : Engine} {m' : SessionManager.Manager} {n : String}
    {pc pc' : SessionManager.Pc} (hb : g.mgr.store.backend = .postgres)
    (h : SessionManager.advance e g.mgr pc = (m',.inl pc')) (hc : Creating g n pc) :
    Creating (g.afterStart e n pc m') n pc' ∧ ∀ sn ls id, (Pc.startSession n sn ls pc').holds id →
      insertedRow e g.mgr m' pc = some id := by
  cases pc with
  | startLookup req =>
    have hne : req.preferredID = "" := hc
    simp only [SessionManager.advance,SessionManager.goto,hne,if_true] at h
    cases h
    exact ⟨hne,fun _ _ _ hh => hh.elim⟩
  | startCreate req =>
    have hne : req.preferredID = "" := hc
    simp only [SessionManager.advance,SessionManager.goto,SessionManager.reply] at h
    split at h <;> rename_i hw <;> cases h
    rcases SessionManager.write_cases hw with ⟨s,hs,rfl⟩ | ⟨hne',-⟩
    · have hins := @insertedRow_create e g.mgr (g.mgr.withStore s) req hb hne hs
      have hid : (SessionManager.freshSession e req).id = SessionManager.newID e.buf := by
        simp [SessionManager.freshSession,hne]
      refine ⟨?_,fun _ _ id hh => ?_⟩
      · simp [Creating,Engine.afterStart,hins,hid]
      · rw [hins,← hid]
        exact congrArg some hh
    · exact absurd rfl hne'
  | startInstall req s => cases h
  | _ => exact hc.elim

theorem creating_reply {e : SessionManager.Env} {g : Engine} {m' : SessionManager.Manager} {n : String}
    {pc : SessionManager.Pc} {c : SessionManager.Call} {s : SessionManager.Session}
    (h : SessionManager.advance e g.mgr pc = (m',.inr ⟨c,.session s⟩)) (hc : Creating g n pc) :
    (s.id,n) ∈ (g.afterStart e n pc m').ledger.created ∧
      ∀ sn ls, (Pc.startSession n sn ls pc).holds s.id := by
  cases pc with
  | startLookup req =>
    have hne : req.preferredID = "" := hc
    simp only [SessionManager.advance,SessionManager.goto,hne,if_true] at h
    cases h
  | startCreate req =>
    simp only [SessionManager.advance,SessionManager.goto,SessionManager.reply] at h
    split at h <;> cases h
  | startInstall req s' =>
    cases h
    have hmem : (s.id,n) ∈ g.ledger.created := hc
    exact ⟨by simpa [Engine.afterStart,insertedRow] using hmem,fun _ _ => rfl⟩
  | _ => exact hc.elim

/-- A `Stop` call closes a retired session, or reports the close. -/
theorem sound_stop {e : SessionManager.Env} {g : Engine} {P P' : Set Pc} {id : String}
    {pc : SessionManager.Pc} {m' : SessionManager.Manager} {l : Ledger}
    {so : SessionManager.Pc ⊕ SessionManager.Reply} (hadv : SessionManager.advance e g.mgr pc = (m',so))
    (hs : Stopping id pc) (hG : Sound g P) (hcre : l.created = g.ledger.created)
    (hdel : l.deleted = g.ledger.deleted) (helse : g.ledger.elsewhere ⊆ l.elsewhere)
    (hnew : Retired g P id ∨ closedRows e g.mgr m' pc ⊆ l.elsewhere)
    (hheld : ∀ p' ∈ P', ∀ i, p'.holds i → ∃ p ∈ P, p.holds i) :
    Sound { g with mgr := m', ledger := l } P' := by
  refine hG.close (fun i => (stopping_rows hadv hs i).1) (fun i r' hr' hst => ?_) rfl hcre hdel helse hheld
  by_cases hi : i = id
  · subst hi
    rcases stopping_closed hadv hs hr' hst with hold | hcl
    · exact .inl ⟨r',hold,hst⟩
    · rcases hnew with hr | hsub
      · exact .inr (.inr hr)
      · exact .inr (.inl (hsub hcl))
  · have hold : g.mgr.store.find i = some r' := ((stopping_rows hadv hs i).2 hi) ▸ hr'
    exact .inl ⟨r',hold,hst⟩

theorem sound_sweep {e : SessionManager.Env} {g : Engine} {P P' : Set Pc}
    {pc : SessionManager.Pc} {m' : SessionManager.Manager}
    {so : SessionManager.Pc ⊕ SessionManager.Reply} (hadv : SessionManager.advance e g.mgr pc = (m',so))
    (hs : Sweeping pc) (hG : Sound g P)
    (hheld : ∀ p' ∈ P', ∀ i, p'.holds i → ∃ p ∈ P, p.holds i) :
    Sound (g.afterClose e pc m') P' := by
  refine hG.close (fun i => (sweeping_rows hadv hs i).1) (fun i r' hr' hst => ?_) rfl rfl rfl
    (by simp [Engine.afterClose]) hheld
  rcases (sweeping_rows hadv hs i).2 r' hr' with hold | ⟨-,hcl⟩
  · exact .inl ⟨r',hold,hst⟩
  · exact .inr (.inl (List.mem_append_left _ hcl))

theorem sweeping_move {e : SessionManager.Env} {m m' : SessionManager.Manager}
    {pc pc' : SessionManager.Pc} (h : SessionManager.advance e m pc = (m',.inl pc'))
    (hs : Sweeping pc) : Sweeping pc' := by
  cases pc with
  | sweepStore idle =>
    simp only [SessionManager.advance,SessionManager.goto,SessionManager.reply] at h
    split at h <;> cases h
    trivial
  | sweepMark idle ids => cases h
  | _ => exact hs.elim

/-- The handler serves a stream or pushes to streams: it neither starts, stops nor deletes a session. -/
def Pc.outside : Pc → Prop
  | .subscribe _ | .addStream _ | .resume _ _ | .resumePush _ _ _ _ | .serve _ _ | .startSnapshot _ _ _ _
  | .startPush _ _ _ _ _ _ | .stopSnapshot _ _ | .stopPush _ _ _ _ => True
  | _ => False

theorem Pc.outside.idle {p : Pc} (h : p.outside) (id : String) : ¬ p.holds id ∧ ¬ p.retires id := by
  cases p <;> first | exact h.elim | exact ⟨False.elim,False.elim⟩

theorem Pc.outside.aware {p : Pc} (h : p.outside) (g : Engine) : Aware g p := by
  cases p <;> first | exact h.elim | trivial

theorem outside_step {e : Env} {g g' : Engine} {p : Pc} {o : Pc ⊕ Response}
    (h : advance e g p = (g',o)) (hp : p.outside) : Beside g g' ∧ ∀ p', o = .inl p' → p'.outside := by
  cases p with
  | subscribe req =>
    simp only [advance,goto,reply] at h
    split at h <;> cases h
    · exact ⟨.refl g,by rintro _ ⟨⟩⟩
    · refine ⟨?_,by rintro _ ⟨⟩; trivial⟩
      split
      · exact .refl g
      · exact .upsert g req
  | addStream req => cases h; exact ⟨.ofStreams rfl rfl rfl,by rintro _ ⟨⟩; trivial⟩
  | resume n k =>
    simp only [advance,goto] at h
    split at h
    · cases h; exact ⟨.refl g,by rintro _ ⟨⟩; trivial⟩
    · split at h
      · split at h <;> cases h <;> exact ⟨.refl g,by rintro _ ⟨⟩; trivial⟩
      · cases h; exact ⟨.refl g,by rintro _ ⟨⟩; trivial⟩
  | resumePush n k row id => cases h; exact ⟨.ofStreams rfl rfl rfl,by rintro _ ⟨⟩; trivial⟩
  | serve n k =>
    simp only [advance,goto,reply] at h
    split at h <;> cases h
    · exact ⟨.ofStreams rfl rfl rfl,by rintro _ ⟨⟩; trivial⟩
    · exact ⟨.refl g,by rintro _ ⟨⟩; trivial⟩
    · exact ⟨.ofStreams rfl rfl rfl,by rintro _ ⟨⟩⟩
    · exact ⟨.ofStreams rfl rfl rfl,by rintro _ ⟨⟩⟩
  | startSnapshot n sn ls id => cases h; exact ⟨.refl g,by rintro _ ⟨⟩; trivial⟩
  | startPush n sn ls id rest r =>
    simp only [advance,goto,reply] at h
    split at h <;> cases h
    · exact ⟨.refl g,by rintro _ ⟨⟩⟩
    · exact ⟨.ofStreams rfl rfl rfl,by rintro _ ⟨⟩; trivial⟩
  | stopSnapshot n id => cases h; exact ⟨.refl g,by rintro _ ⟨⟩; trivial⟩
  | stopPush n id rest r =>
    simp only [advance,goto,reply] at h
    split at h <;> cases h
    · exact ⟨.refl g,by rintro _ ⟨⟩⟩
    · exact ⟨.ofStreams rfl rfl rfl,by rintro _ ⟨⟩; trivial⟩
  | _ => exact hp.elim

theorem keeps_outside {e : Env} {g g' : Engine} {O : Set Pc} {p : Pc} {o : Pc ⊕ Response}
    (h : advance e g p = (g',o)) (hp : p.outside) (hG : Sound g (insert p O)) : Keeps g g' O p o := by
  obtain ⟨hb,hnext⟩ := outside_step h hp
  refine hb.keeps hG (fun p' ho id hh => absurd hh ((hnext p' ho).idle id).1) ?_
  cases o with
  | inl p' => exact (hnext p' rfl).aware g'
  | inr v => trivial

theorem keeps_startGet {e : Env} {g g' : Engine} {O : Set Pc} {o : Pc ⊕ Response} {n : String}
    {body : Except String StartMonitorRequest} (h : advance e g (.startGet n body) = (g',o))
    (hG : Sound g (insert (.startGet n body) O)) : Keeps g g' O (.startGet n body) o := by
  simp only [advance,goto,reply] at h
  split at h
  · cases h; exact sound_idle hG (by rintro _ ⟨⟩) trivial
  · split at h
    · cases h; exact sound_idle hG (by rintro _ ⟨⟩) trivial
    · cases h; exact sound_idle hG (by rintro _ ⟨⟩) trivial
    · rename_i hget
      split at h <;> cases h
      · exact sound_idle hG (by rintro _ ⟨⟩) trivial
      · exact sound_idle hG (by rintro _ ⟨⟩ _ h; exact h.elim) ⟨(getMonitor_ok hget).1,rfl⟩

theorem keeps_startSession {e : Env} {g g' : Engine} {O : Set Pc} {o : Pc ⊕ Response} {n sn : String}
    {ls : Labels} {pc : SessionManager.Pc} (h : advance e g (.startSession n sn ls pc) = (g',o))
    (hdraw : (Pc.startSession n sn ls pc).draws e g) (hG : Sound g (insert (.startSession n sn ls pc) O))
    (hT : Aware g (.startSession n sn ls pc)) : Keeps g g' O (.startSession n sn ls pc) o := by
  obtain ⟨hb,hc⟩ := hT
  have hdraw' : ∀ req, pc = .startCreate req →
      SessionManager.newID e.toEnv.buf ∉ g.ledger.created.map (·.1) := by
    rintro req rfl
    exact hdraw
  simp only [advance,goto,reply] at h
  split at h <;> rename_i hm <;> cases h
  · obtain ⟨hc',hh'⟩ := creating_move hb hm hc
    obtain ⟨hl,hs⟩ := @sound_startSession e.toEnv g O n sn ls pc _ _ (.inl (.startSession n sn ls _))
      hm hdraw' hG hb hc (by rintro _ ⟨⟩ id h; exact .inr (hh' sn ls id h))
    exact ⟨hl,hs,hl.backend.trans hb,hc'⟩
  · obtain ⟨hc',hh'⟩ := creating_reply hm hc
    obtain ⟨hl,hs⟩ := @sound_startSession e.toEnv g O n sn ls pc _ _ (.inl (.startSet n sn ls _))
      hm hdraw' hG hb hc (by rintro _ ⟨⟩ id h; exact .inl (h ▸ hh' sn ls))
    exact ⟨hl,hs,hl.backend.trans hb,hc'⟩
  all_goals
    obtain ⟨hl,hs⟩ := @sound_startSession e.toEnv g O n sn ls pc _ _ (.inr .noContent)
      hm hdraw' hG hb hc (by rintro _ ⟨⟩)
    exact ⟨hl,hs,trivial⟩

/-- The write of a start handler names the session in its hands, and leaves its hands empty. -/
theorem keeps_named {e : Env} {g g' : Engine} {O : Set Pc} {o : Pc ⊕ Response} {n sn id : String}
    {ls : Labels} {oe : Option MonitorError} (hw : g.writeState e.fault n true (some id) = (oe,g'))
    (hG : Sound g (insert (.startSet n sn ls id) O)) (hT : Aware g (.startSet n sn ls id))
    (hC : ∀ q ∈ O, Exclusive (.startSet n sn ls id) q)
    (hno : ∀ p', o = .inl p' → ∀ i, ¬ p'.holds i) (hm : Moved g' o) :
    Keeps g g' O (.startSet n sn ls id) o := by
  obtain ⟨hb,hc⟩ := hT
  rcases writeState_faulty hb hw with ⟨-,rfl,-⟩ | ⟨-,hfk,row,hen,hid,rfl⟩
  · exact sound_idle hG hno hm
  · have hheld : ∀ p' ∈ inFlight O o, p' ∈ O ∨ ∀ i, ¬ p'.holds i := by
      intro p' hp'
      cases o with
      | inr v => exact .inl hp'
      | inl p'' =>
        rcases Set.mem_insert_iff.mp hp' with rfl | hp'
        · exact .inr (hno p' rfl)
        · exact .inl hp'
    refine ⟨⟨rfl,fun _ h => h,fun m i hs => ?_⟩,?_,hm⟩
    · rw [session_update] at hs
      split at hs
      · simp only [hid] at hs
        exact .inr (Option.some.inj hs)
      · exact .inl hs
    · refine hG.name (Set.mem_insert _ _) rfl hc (hfk id rfl) hid (fun p' hp' hh => ?_)
        (fun p' hp' i hh => ?_)
      · rcases hheld p' hp' with hO | hno'
        · exact ((hC p' hO id).1 rfl).1 hh
        · exact hno' id hh
      · rcases hheld p' hp' with hO | hno'
        · exact ⟨p',Set.mem_insert_of_mem _ hO,hh⟩
        · exact absurd hh (hno' i)

theorem keeps_startSet {e : Env} {g g' : Engine} {O : Set Pc} {o : Pc ⊕ Response} {n sn id : String}
    {ls : Labels} (h : advance e g (.startSet n sn ls id) = (g',o))
    (hG : Sound g (insert (.startSet n sn ls id) O)) (hT : Aware g (.startSet n sn ls id))
    (hC : ∀ q ∈ O, Exclusive (.startSet n sn ls id) q) : Keeps g g' O (.startSet n sn ls id) o := by
  simp only [advance,goto,reply] at h
  split at h <;> rename_i hw <;> cases h
  · exact keeps_named hw hG hT hC (by rintro _ ⟨⟩) trivial
  · exact keeps_named hw hG hT hC (by rintro _ ⟨⟩ i h; exact h) trivial

theorem keeps_stopGet {e : Env} {g g' : Engine} {O : Set Pc} {o : Pc ⊕ Response} {n : String}
    (h : advance e g (.stopGet n) = (g',o)) (hG : Sound g (insert (.stopGet n) O)) :
    Keeps g g' O (.stopGet n) o := by
  simp only [advance,goto,reply] at h
  split at h
  · cases h; exact sound_idle hG (by rintro _ ⟨⟩) trivial
  · cases h; exact sound_idle hG (by rintro _ ⟨⟩) trivial
  · rename_i row hget
    split at h <;> cases h
    · rename_i id hen hid
      have hrow := getMonitor_ok hget
      refine sound_idle hG (by rintro _ ⟨⟩ _ h; exact h.elim) ⟨hrow.1,?_⟩
      exact (hG.named (session_eq_some.mpr ⟨row,hrow.2,hen,hid⟩)).1
    · exact sound_idle hG (by rintro _ ⟨⟩) trivial

/-- The write of a stop handler at most disables a row. -/
theorem keeps_unnamed {e : Env} {g g' : Engine} {O : Set Pc} {o : Pc ⊕ Response} {n id : String}
    {oe : Option MonitorError} (hw : g.writeState e.fault n false none = (oe,g'))
    (hG : Sound g (insert (.stopSet n id) O)) (hb : g.mgr.store.backend = .postgres)
    (hno : ∀ p', o = .inl p' → ∀ i, ¬ p'.holds i) (hm : Moved g' o) : Keeps g g' O (.stopSet n id) o := by
  rcases writeState_faulty hb hw with ⟨-,rfl,-⟩ | ⟨-,-,row,hen,-,rfl⟩
  · exact sound_idle hG hno hm
  · refine Beside.keeps ⟨rfl,rfl,fun m row' hrow' hen' => ?_⟩ hG
      (fun p' ho i hh => absurd hh (hno p' ho i)) hm
    by_cases hmn : m = n
    · subst hmn
      obtain rfl : row = row' := by simpa using hrow'
      rw [hen] at hen'
      cases hen'
    · exact ⟨row',by simpa [hmn] using hrow',hen',rfl⟩

theorem keeps_stopSet {e : Env} {g g' : Engine} {O : Set Pc} {o : Pc ⊕ Response} {n id : String}
    (h : advance e g (.stopSet n id) = (g',o)) (hG : Sound g (insert (.stopSet n id) O))
    (hT : Aware g (.stopSet n id)) : Keeps g g' O (.stopSet n id) o := by
  obtain ⟨hb,hc⟩ := hT
  simp only [advance,goto,reply] at h
  split at h <;> rename_i hw <;> cases h
  · exact keeps_unnamed hw hG hb (by rintro _ ⟨⟩) trivial
  · refine keeps_unnamed hw hG hb (by rintro _ ⟨⟩ i h; exact h) ?_
    rcases writeState_faulty hb hw with ⟨hne,-⟩ | ⟨-,-,row,hen,-,rfl⟩
    · exact absurd rfl hne
    · refine ⟨hc,rfl,fun m hs => ?_⟩
      rw [session_update] at hs
      split at hs
      · simp [hen] at hs
      · rename_i hm
        exact hm (hG.owner id m n (hG.named hs).1 hc)

theorem keeps_stopSession {e : Env} {g g' : Engine} {O : Set Pc} {o : Pc ⊕ Response} {n id : String}
    {pc : SessionManager.Pc} (h : advance e g (.stopSession n id pc) = (g',o))
    (hG : Sound g (insert (.stopSession n id pc) O)) (hT : Aware g (.stopSession n id pc))
    (hC : ∀ q ∈ O, Exclusive (.stopSession n id pc) q) : Keeps g g' O (.stopSession n id pc) o := by
  obtain ⟨hc,hst,hno⟩ := hT
  have hret : Retired g (insert (.stopSession n id pc) O) id := by
    refine ⟨hno,fun q hq hh => ?_⟩
    rcases Set.mem_insert_iff.mp hq with rfl | hq
    · exact hh
    · exact ((hC q hq id).2 hh).2 rfl
  simp only [advance,goto,reply] at h
  split at h <;> rename_i hm <;> cases h
  · refine ⟨.ofMgr hm fun _ h => h,sound_stop hm hst hG rfl rfl (fun _ h => h) (.inl hret)
      (held_inFlight (by rintro _ ⟨⟩ _ h; exact h)),hc,stopping_move hm hst,hno⟩
  · exact ⟨.ofMgr hm fun _ h => h,sound_stop hm hst hG rfl rfl (fun _ h => h) (.inl hret)
      (held_inFlight (by rintro _ ⟨⟩)),trivial⟩
  · exact ⟨.ofMgr hm fun _ h => h,sound_stop hm hst hG rfl rfl (fun _ h => h) (.inl hret)
      (held_inFlight (by rintro _ ⟨⟩ _ h; exact h)),trivial⟩

theorem keeps_closed {e : SessionManager.Env} {g : Engine} {O : Set Pc} {o : Pc ⊕ Response} {id : String}
    {pc : SessionManager.Pc} {m' : SessionManager.Manager} {so : SessionManager.Pc ⊕ SessionManager.Reply}
    (hm : SessionManager.advance e g.mgr pc = (m',so)) (hG : Sound g (insert (.endSession id pc) O))
    (hT : Stopping id pc) (hno : ∀ p', o = .inl p' → ∀ i, ¬ p'.holds i)
    (hmoved : Moved (g.afterClose e pc m') o) : Keeps g (g.afterClose e pc m') O (.endSession id pc) o :=
  ⟨.ofMgr hm fun _ h => h,sound_stop hm hT hG rfl rfl (List.subset_append_right _ _)
    (.inr (List.subset_append_left _ _)) (held_inFlight fun p' ho i hh => absurd hh (hno p' ho i)),hmoved⟩

theorem keeps_endSession {e : Env} {g g' : Engine} {O : Set Pc} {o : Pc ⊕ Response} {id : String}
    {pc : SessionManager.Pc} (h : advance e g (.endSession id pc) = (g',o))
    (hG : Sound g (insert (.endSession id pc) O)) (hT : Aware g (.endSession id pc)) :
    Keeps g g' O (.endSession id pc) o := by
  simp only [advance,goto,reply] at h
  split at h <;> rename_i hm <;> cases h
  · exact keeps_closed hm hG hT (by rintro _ ⟨⟩ i h; exact h) (stopping_move hm hT)
  all_goals exact keeps_closed hm hG hT (by rintro _ ⟨⟩) trivial

theorem keeps_deleted {g g' : Engine} {O : Set Pc} {id : String} (hd : g.deleteSession id = .ok g')
    (hG : Sound g (insert (.deleteSession id) O)) (v : Response) :
    Keeps g g' O (.deleteSession id) (.inr v) := by
  refine ⟨?_,hG.delete hd held_others,trivial⟩
  unfold Engine.deleteSession at hd
  split at hd
  · cases hd
  · rename_i s hs
    cases hd
    exact ⟨(find_delete hs "").1,fun _ h => h,fun n i hn => .inl (session_unlink rfl hn).1⟩

theorem keeps_deleteSession {e : Env} {g g' : Engine} {O : Set Pc} {o : Pc ⊕ Response} {id : String}
    (h : advance e g (.deleteSession id) = (g',o)) (hG : Sound g (insert (.deleteSession id) O)) :
    Keeps g g' O (.deleteSession id) o := by
  simp only [advance,reply] at h
  split at h <;> cases h
  · exact keeps_deleted (by assumption) hG _
  · exact sound_idle hG (by rintro _ ⟨⟩) trivial
  · exact sound_idle hG (by rintro _ ⟨⟩) trivial
  · exact keeps_deleted (by assumption) hG _
  · exact sound_idle hG (by rintro _ ⟨⟩) trivial

theorem keeps_sweep {e : Env} {g g' : Engine} {O : Set Pc} {o : Pc ⊕ Response} {pc : SessionManager.Pc}
    (h : advance e g (.sweep pc) = (g',o)) (hG : Sound g (insert (.sweep pc) O)) (hT : Aware g (.sweep pc)) :
    Keeps g g' O (.sweep pc) o := by
  simp only [advance,goto,reply] at h
  split at h <;> rename_i hm <;> cases h
  · exact ⟨.ofMgr hm fun _ h => h,sound_sweep hm hT hG (held_inFlight (by rintro _ ⟨⟩ _ h; exact h)),
      sweeping_move hm hT⟩
  · exact ⟨.ofMgr hm fun _ h => h,sound_sweep hm hT hG (held_inFlight (by rintro _ ⟨⟩)),trivial⟩

/-- Everything an advancing handler can do to the tables and the ledger. -/
theorem sound_step {e : Env} {g g' : Engine} {O : Set Pc} {p : Pc} {o : Pc ⊕ Response}
    (hadv : advance e g p = (g',o)) (hdraw : p.draws e g) (hG : Sound g (insert p O))
    (hT : Aware g p) (hC : ∀ q ∈ O, Exclusive p q) : Keeps g g' O p o := by
  cases p with
  | startGet n body => exact keeps_startGet hadv hG
  | startSession n sn ls pc => exact keeps_startSession hadv hdraw hG hT
  | startSet n sn ls id => exact keeps_startSet hadv hG hT hC
  | stopGet n => exact keeps_stopGet hadv hG
  | stopSet n id => exact keeps_stopSet hadv hG hT
  | stopSession n id pc => exact keeps_stopSession hadv hG hT hC
  | endSession id pc => exact keeps_endSession hadv hG hT
  | deleteSession id => exact keeps_deleteSession hadv hG
  | sweep pc => exact keeps_sweep hadv hG hT
  | _ => exact keeps_outside hadv trivial hG

/-- What a handler comes to hold or retire: a new id, or the one its row names. -/
theorem hands_move {e : Env} {g g' : Engine} {p p' : Pc} (h : advance e g p = (g',.inl p'))
    (hT : Aware g p) (id : String) :
    (p'.holds id → p.holds id ∨ ((∃ n sn ls req, p = .startSession n sn ls (.startCreate req)) ∧
      id = SessionManager.newID e.buf)) ∧
    (p'.retires id → p.retires id ∨ ∃ n, g.session n = some id) := by
  have hidle : ∀ {q : Pc}, q.outside → (q.holds id → p.holds id ∨
      ((∃ n sn ls req, p = .startSession n sn ls (.startCreate req)) ∧ id = SessionManager.newID e.buf)) ∧
      (q.retires id → p.retires id ∨ ∃ n, g.session n = some id) :=
    fun hq => ⟨fun hh => absurd hh (hq.idle id).1,fun hr => absurd hr (hq.idle id).2⟩
  cases p with
  | startGet n body =>
    simp only [advance,goto,reply] at h
    split at h
    · cases h
    · split at h
      · cases h
      · cases h
      · split at h <;> cases h
        exact ⟨False.elim,False.elim⟩
  | startSession n sn ls pc =>
    obtain ⟨hb,hc⟩ := hT
    simp only [advance,goto,reply] at h
    split at h <;> rename_i hm <;> cases h
    · refine ⟨fun hh => .inr ?_,False.elim⟩
      have hins := (creating_move hb hm hc).2 sn ls id hh
      rcases creating_rows hb hm hc with ⟨-,hnone⟩ | ⟨req,-,rfl,-,-,-,hsome⟩
      · rw [hnone] at hins
        cases hins
      · exact ⟨⟨n,sn,ls,req,rfl⟩,Option.some.inj (hins.symm.trans hsome)⟩
    · exact ⟨fun hh => .inl (hh ▸ (creating_reply hm hc).2 sn ls),False.elim⟩
  | startSet n sn ls i =>
    simp only [advance,goto,reply] at h
    split at h <;> cases h
    exact hidle trivial
  | stopGet n =>
    simp only [advance,goto,reply] at h
    split at h
    · cases h
    · cases h
    · rename_i row hget
      split at h <;> cases h
      rename_i i hen hid
      refine ⟨False.elim,fun hr => .inr ⟨n,?_⟩⟩
      obtain rfl : i = id := hr
      exact session_eq_some.mpr ⟨row,(getMonitor_ok hget).2,hen,hid⟩
  | stopSet n i =>
    simp only [advance,goto,reply] at h
    split at h <;> cases h
    exact ⟨False.elim,.inl⟩
  | stopSession n i pc =>
    simp only [advance,goto,reply] at h
    split at h <;> cases h
    · exact ⟨False.elim,.inl⟩
    · exact hidle trivial
  | endSession i pc =>
    simp only [advance,goto,reply] at h
    split at h <;> cases h
    exact ⟨False.elim,False.elim⟩
  | deleteSession i =>
    simp only [advance,reply] at h
    split at h <;> cases h
  | sweep pc =>
    simp only [advance,goto,reply] at h
    split at h <;> cases h
    exact ⟨False.elim,False.elim⟩
  | _ => exact hidle ((outside_step h trivial).2 p' rfl)

theorem Aware.hands {g : Engine} {q : Pc} (h : Aware g q) {id : String} :
    (q.holds id → id ∈ g.ledger.created.map (·.1)) ∧ (q.retires id → id ∈ g.ledger.created.map (·.1)) := by
  cases q with
  | startSession n sn ls pc =>
    refine ⟨fun hh => ?_,False.elim⟩
    have hc := h.2
    cases pc with
    | startInstall req s =>
      obtain rfl : s.id = id := hh
      exact List.mem_map.mpr ⟨_,hc,rfl⟩
    | _ => exact hh.elim
  | startSet n sn ls i =>
    refine ⟨fun hh => ?_,False.elim⟩
    obtain rfl : i = id := hh
    exact List.mem_map.mpr ⟨_,h.2,rfl⟩
  | stopSet n i =>
    refine ⟨False.elim,fun hh => ?_⟩
    obtain rfl : i = id := hh
    exact List.mem_map.mpr ⟨_,h.2,rfl⟩
  | stopSession n i pc =>
    refine ⟨False.elim,fun hh => ?_⟩
    obtain rfl : i = id := hh
    exact List.mem_map.mpr ⟨_,h.1,rfl⟩
  | _ => exact ⟨False.elim,False.elim⟩

theorem exclusive_move {e : Env} {g g' : Engine} {O : Set Pc} {p p' q : Pc}
    (h : advance e g p = (g',.inl p')) (hdraw : p.draws e g) (hG : Sound g (insert p O))
    (hT : Aware g p) (hq : q ∈ O) (hTq : Aware g q) (hC : Exclusive p q) : Exclusive p' q := by
  intro id
  obtain ⟨hholds,hretires⟩ := hands_move h hT id
  have hnew : (∃ n sn ls req, p = .startSession n sn ls (.startCreate req)) →
      id = SessionManager.newID e.buf → ¬ q.holds id ∧ ¬ q.retires id := by
    rintro ⟨n,sn,ls,req,rfl⟩ rfl
    exact ⟨fun hh => hdraw (hTq.hands.1 hh),fun hr => hdraw (hTq.hands.2 hr)⟩
  refine ⟨fun hh => ?_,fun hqh => ⟨fun hh => ?_,fun hr => ?_⟩⟩
  · rcases hholds hh with hh | ⟨hp,hid⟩
    · exact (hC id).1 hh
    · exact hnew hp hid
  · rcases hholds hh with hh | ⟨hp,hid⟩
    · exact ((hC id).2 hqh).1 hh
    · exact (hnew hp hid).1 hqh
  · rcases hretires hr with hr | ⟨n,hs⟩
    · exact ((hC id).2 hqh).2 hr
    · exact hG.settled n id hs q (Set.mem_insert_of_mem _ hq) hqh

theorem sound_init (b : Backend) :
    Pool.Holds (fun g _ P => Sound g P) (fun p g _ => Aware g p) Exclusive (init b) := by
  refine ⟨⟨?_,?_,?_,?_,?_⟩,?_,?_⟩ <;>
    simp [init,Engine.new,Engine.session,SessionManager.Manager.new,Store.empty,Store.find,Linked]

theorem entry_idle (c : Call) (id : String) : ¬ (entry c).holds id ∧ ¬ (entry c).retires id := by
  cases c <;> exact ⟨fun h => h,fun h => h⟩

theorem entry_aware (c : Call) (g : Engine) : Aware g (entry c) := by
  cases c with
  | stopSession id => exact rfl
  | sweepIdle idle => exact trivial
  | _ => exact trivial

theorem entry_exclusive (c : Call) (q : Pc) : Exclusive (entry c) q := fun id =>
  ⟨fun h => absurd h (entry_idle c id).1,fun _ => entry_idle c id⟩

theorem Sound.invoke {g : Engine} {P : Set Pc} (h : Sound g P) (c : Call) : Sound g (insert (entry c) P) := by
  refine h.keep (fun _ => rfl) (fun _ row hr he => ⟨row,hr,he,rfl⟩) rfl fun q hq id hh => ?_
  rcases Set.mem_insert_iff.mp hq with rfl | hq
  · exact absurd hh (entry_idle c id).1
  · exact ⟨q,hq,hh⟩

theorem run_sound {b : Backend} {acts : List Action} {t : State} (h : Run step Drawn (init b) acts t) :
    Pool.Holds (fun g _ P => Sound g P) (fun p g _ => Aware g p) Exclusive t := by
  refine Pool.run_holds exclusive_symm ?_ ?_ ?_ h (sound_init b)
  · intro s c _ hs
    exact ⟨hs.shared.invoke c,entry_aware c _,fun q _ => entry_exclusive c q⟩
  · intro s i e p o g' p' hok hp hperm hadv hG hT hTo hC
    obtain ⟨hl,hG',hT'⟩ := sound_step hadv (hok p hp) hG hT hC
    exact ⟨hG',hT',fun q hq => (hTo q hq).stable hl (hC q hq),
      fun q hq => exclusive_move hadv (hok p hp) hG hT hq (hTo q hq) (hC q hq)⟩
  · intro s i e p o g' v hok hp hperm hadv hG hT hTo hC
    obtain ⟨hl,hG',-⟩ := sound_step hadv (hok p hp) hG hT hC
    exact ⟨hG',fun q hq => (hTo q hq).stable hl (hC q hq)⟩

end ControlPlane
end Clearvoiance
