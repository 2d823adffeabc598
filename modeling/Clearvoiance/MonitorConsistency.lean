import Clearvoiance.MonitorSessions

/-! One active session per monitor.
Every active session of a monitor is the one its row names, or is being started or stopped by
a handler.  A handler that finds the in-memory entry already stopped relies on whoever
stopped it to close the row as well. -/
namespace Clearvoiance
namespace ControlPlane

open SessionStore Transition

def RowActive (g : Engine) (id : String) : Prop :=
  ∃ r, g.mgr.store.find id = some r ∧ r.status = .active

/-- Faults that lose nothing: a row is not inserted behind an error, a capture state is not
cleared behind one, and neither naming nor closing a session gets lost. -/
def Pc.lossless (fault : Fault) : Pc → Prop
  | .startSession _ _ _ (.startCreate _) | .stopSet _ _ => fault ≠ some true
  | .startSet _ _ _ _ | .stopSession _ _ (.stopMark _ _) | .stopSession _ _ (.stopMarkRow _ _)
  | .endSession _ (.stopMark _ _) => fault ≠ some false
  | .stopSession _ _ (.stopFetch _) => fault = none
  | _ => True

instance (fault : Fault) (p : Pc) : Decidable (p.lossless fault) := by
  induction p using Pc.casesOn with
  | startSession _ _ _ pc | stopSession _ _ pc | endSession _ pc =>
    induction pc using SessionManager.Pc.casesOn <;> unfold Pc.lossless <;> infer_instance
  | _ => unfold Pc.lossless; infer_instance

/-- Admitted steps: start and stop handlers of one monitor do not overlap, and the faults
that happen lose nothing. -/
def Careful (t : State) : Action → Prop
  | .invoke (.startMonitor n _) | .invoke (.stopMonitor n) => ∀ p ∈ t.threads, ¬ p.toggles n
  | .invoke _ => True
  | .advance i e => ∀ p ∈ t.threads[i]?, p.lossless e.fault

instance (t : State) : DecidablePred (Careful t)
  | .invoke c => by induction c using Call.casesOn <;> unfold Careful <;> infer_instance
  | .advance i e => inferInstanceAs (Decidable (∀ p ∈ t.threads[i]?, p.lossless e.fault))

/-- The handler will name session `id`, or close its row. -/
def Pc.carries (id : String) : Pc → Prop
  | .startSession _ _ _ (.startInstall _ s) => s.id = id
  | .startSet _ _ _ i | .stopSession _ i _ | .endSession i (.stopMark _ _) => i = id
  | _ => False

/-- The handler has stopped the in-memory entry of `id` and will close its row. -/
def Pc.marks (id : String) : Pc → Prop
  | .stopSession _ i (.stopMark _ _) | .endSession i (.stopMark _ _) => i = id
  | _ => False

theorem marks_carries {p : Pc} {id : String} (h : p.marks id) : p.carries id := by
  cases p with
  | stopSession n i pc => cases pc <;> first | exact h | exact h.elim
  | endSession i pc => cases pc <;> exact h
  | _ => exact h.elim

structure Tended (g : Engine) (P : Set Pc) : Prop where
  covered : ∀ n id, ActiveOf g n id → g.session n = some id ∨ ∃ p ∈ P, p.carries id
  marked : ∀ (id : String) (q : ℕ) (s : SessionManager.Session), g.mgr.sessions id = some q →
    g.mgr.heap[q]? = some s → s.status = .stopped → ¬ RowActive g id ∨ ∃ p ∈ P, p.marks id
  pointed : ∀ id q, g.mgr.sessions id = some q →
    ∃ s : SessionManager.Session, g.mgr.heap[q]? = some s ∧ s.id = id
  mapped : ∀ id, g.mgr.sessions id ≠ none → id ∈ g.ledger.created.map (·.1)
  bare : g.mgr.store.backend = .noop → ∀ id, g.mgr.store.find id = none

/-- The pointer a `Stop` call is about to read is valid. -/
def Valid (m : SessionManager.Manager) : SessionManager.Pc → Prop
  | .stopMark _ q => m.heap[q]? ≠ none
  | _ => True

/-- What a handler in flight knows about its monitor and the map. -/
def Minds (g : Engine) : Pc → Prop
  | .startSession n _ _ pc => g.session n = none ∧ g.monitors n ≠ none ∧
    (match pc with | .startInstall _ s => s.status = .active | _ => True)
  | .startSet n _ _ _ => g.session n = none ∧ g.monitors n ≠ none
  | .stopSet n id => ∀ i, g.session n = some i → i = id
  | .stopSession _ _ pc | .endSession _ pc => Valid g.mgr pc
  | .sweep (.sweepMark _ ids) => ∀ id ∈ ids, ¬ RowActive g id ∧ id ∈ g.ledger.created.map (·.1)
  | _ => True

def Alternate (p q : Pc) : Prop := ∀ n, p.toggles n → ¬ q.toggles n

theorem alternate_symm (p q : Pc) (h : Alternate p q) : Alternate q p := fun n hq hp => h n hp hq

structure Spares (g : Engine) (p : Pc) (g' : Engine) : Prop where
  session : ∀ n i, g'.session n = some i → g.session n = some i ∨ p.toggles n
  monitors : ∀ n, g.monitors n ≠ none → g'.monitors n ≠ none
  heap : ∀ q : ℕ, g.mgr.heap[q]? ≠ none → g'.mgr.heap[q]? ≠ none
  created : g.ledger.created ⊆ g'.ledger.created
  rows : ∀ id ∈ g.ledger.created.map (·.1), ¬ RowActive g id → ¬ RowActive g' id

theorem session_none {g g' : Engine} {p : Pc} (h : Spares g p g') {n : String} (hn : ¬ p.toggles n)
    (hs : g.session n = none) : g'.session n = none := by
  by_contra hne
  obtain ⟨i,hi⟩ := Option.ne_none_iff_exists'.mp hne
  rcases h.session n i hi with hs' | ht
  · rw [hs] at hs'
    cases hs'
  · exact hn ht

theorem Minds.stable {g g' : Engine} {p q : Pc} (h : Minds g q) (hs : Spares g p g')
    (ha : Alternate p q) : Minds g' q := by
  have hvalid : ∀ pc, Valid g.mgr pc → Valid g'.mgr pc := by
    intro pc hv
    cases pc with
    | stopMark i r => exact hs.heap r hv
    | _ => trivial
  cases q with
  | startSession n sn ls pc =>
    exact ⟨session_none hs (fun ht => ha n ht rfl) h.1,hs.monitors n h.2.1,h.2.2⟩
  | startSet n sn ls i => exact ⟨session_none hs (fun ht => ha n ht rfl) h.1,hs.monitors n h.2⟩
  | stopSet n id =>
    intro i hi
    rcases hs.session n i hi with hi | ht
    · exact h i hi
    · exact absurd rfl (ha n ht)
  | stopSession n i pc => exact hvalid pc h
  | endSession i pc => exact hvalid pc h
  | sweep pc =>
    cases pc with
    | sweepMark idle ids =>
      intro id hid
      obtain ⟨hact,hmem⟩ := h id hid
      exact ⟨hs.rows id hmem hact,List.map_subset _ hs.created hmem⟩
    | _ => trivial
  | _ => trivial

theorem write_lossless {m m' : SessionManager.Manager} {e : SessionManager.Env} {o : Option StoreError}
    {r : Except StoreError Store} (hf : e.fault ≠ some false) (hw : m.write e r = (o,m')) :
    (∃ s, r = .ok s ∧ m' = m.withStore s) ∨ ((∃ err, r = .error err) ∧ m' = m) := by
  unfold SessionManager.Manager.write Store.write at hw
  generalize e.fault = f at hw hf
  rcases f with _ | _ | _ <;> rcases r with err | s <;> cases hw
  · exact .inr ⟨⟨err,rfl⟩,rfl⟩
  · exact .inl ⟨s,rfl,rfl⟩
  · exact absurd rfl hf
  · exact absurd rfl hf
  · exact .inr ⟨⟨err,rfl⟩,rfl⟩
  · exact .inl ⟨s,rfl,rfl⟩

theorem write_markStopped {m m' : SessionManager.Manager} {e : SessionManager.Env} {o : Option StoreError}
    {id : String} {now : ℕ} {ev by' : ℤ} (hb : m.store.backend = .postgres) (hf : e.fault ≠ some false)
    (hw : m.write e (m.store.markStopped id now ev by') = (o,m')) (r : SessionRow)
    (hr : m'.store.find id = some r) : r.status = .stopped := by
  rcases write_lossless hf hw with ⟨s,hs,rfl⟩ | ⟨⟨err,herr⟩,rfl⟩
  · exact (find_markStopped_cases hs id).2.2 hb r hr
  · simp [Store.markStopped,hb,hr] at herr

/-- How a `Stop` call ends when nothing gets lost: the entry was stopped before, or the row is
not active any more. -/
theorem stopping_ends {e : SessionManager.Env} {m m' : SessionManager.Manager} {id : String}
    {pc : SessionManager.Pc} {v : SessionManager.Reply} (hb : m.store.backend = .postgres)
    (h : SessionManager.advance e m pc = (m',.inr v)) (hs : Stopping id pc) (hv : Valid m pc)
    (hfetch : ∀ i, pc = .stopFetch i → e.fault = none)
    (hmark : (∃ i q, pc = .stopMark i q) ∨ (∃ i row, pc = .stopMarkRow i row) → e.fault ≠ some false) :
    (pc = .stopLookup id ∧ m' = m ∧ ∃ (q : ℕ) (s : SessionManager.Session), m.sessions id = some q ∧
      m.heap[q]? = some s ∧ s.status = .stopped) ∨
    (∀ r, m'.store.find id = some r → r.status = .stopped) := by
  cases pc with
  | stopLookup i =>
    obtain rfl : i = id := hs
    simp only [SessionManager.advance,SessionManager.goto,SessionManager.reply] at h
    split at h
    · cases h
    · rename_i q hq
      split at h
      · cases h
      · rename_i s hs
        split at h <;> cases h
        rename_i hst
        exact .inl ⟨rfl,rfl,q,s,hq,hs,hst⟩
  | stopMark i q =>
    obtain rfl : i = id := hs
    have hf := hmark (.inl ⟨i,q,rfl⟩)
    simp only [SessionManager.advance,SessionManager.reply] at h
    split at h
    · rename_i hn
      exact absurd hn hv
    · split at h <;> rename_i hw <;> cases h <;> exact .inr (write_markStopped hb hf hw)
  | stopFetch i =>
    obtain rfl : i = id := hs
    have hf := hfetch i rfl
    simp only [SessionManager.advance,SessionManager.goto,SessionManager.reply,
      SessionManager.Manager.fetch,hf,Store.get,hb] at h
    cases hfind : m.store.find i with
    | none =>
      simp only [hfind,Option.isSome_none,Bool.false_eq_true,if_false] at h
      cases h
      exact .inr (by simp [hfind])
    | some r =>
      simp only [hfind,Option.isSome_none,Bool.false_eq_true,if_false] at h
      split at h <;> cases h
      rename_i hne
      refine .inr fun r' hr' => ?_
      obtain rfl : r = r' := Option.some.inj (hfind.symm.trans hr')
      cases hst : r.status with
      | active => exact absurd hst hne
      | stopped => rfl
  | stopMarkRow i row =>
    obtain rfl : i = id := hs
    have hf := hmark (.inr ⟨i,row,rfl⟩)
    simp only [SessionManager.advance,SessionManager.reply] at h
    split at h <;> rename_i hw <;> cases h <;> exact .inr (write_markStopped hb hf hw)
  | _ => exact hs.elim

/-- What a step of a `Stop` call does to the map: at most it stops the entry it will close. -/
theorem stopping_map {e : SessionManager.Env} {m m' : SessionManager.Manager} {id : String}
    {pc : SessionManager.Pc} {so : SessionManager.Pc ⊕ SessionManager.Reply}
    (h : SessionManager.advance e m pc = (m',so)) (hs : Stopping id pc) :
    m'.sessions = m.sessions ∧ (m'.heap = m.heap ∨ ∃ (q : ℕ) (s : SessionManager.Session),
      m.sessions id = some q ∧ m.heap[q]? = some s ∧
      m'.heap = m.heap.modify q (SessionManager.markStopped e.now) ∧ so = .inl (.stopMark id q)) := by
  have hwrite : ∀ {r o'}, m.write e r = (o',m') → m'.sessions = m.sessions ∧ m'.heap = m.heap := by
    intro r o' hw
    rcases SessionManager.write_cases hw with ⟨s,-,rfl⟩ | ⟨-,rfl⟩ <;> exact ⟨rfl,rfl⟩
  cases pc with
  | stopLookup i =>
    obtain rfl : i = id := hs
    simp only [SessionManager.advance,SessionManager.goto,SessionManager.reply] at h
    split at h
    · cases h; exact ⟨rfl,.inl rfl⟩
    · rename_i q hq
      split at h
      · cases h; exact ⟨rfl,.inl rfl⟩
      · rename_i s hs
        split at h <;> cases h
        · exact ⟨rfl,.inl rfl⟩
        · exact ⟨rfl,.inr ⟨q,s,hq,hs,rfl,rfl⟩⟩
  | stopMark i q =>
    simp only [SessionManager.advance,SessionManager.reply] at h
    split at h
    · cases h; exact ⟨rfl,.inl rfl⟩
    · split at h <;> rename_i hw <;> cases h <;> exact ⟨(hwrite hw).1,.inl (hwrite hw).2⟩
  | stopFetch i =>
    simp only [SessionManager.advance,SessionManager.goto,SessionManager.reply] at h
    split at h
    · cases h; exact ⟨rfl,.inl rfl⟩
    · cases h; exact ⟨rfl,.inl rfl⟩
    · split at h <;> cases h <;> exact ⟨rfl,.inl rfl⟩
  | stopMarkRow i row =>
    simp only [SessionManager.advance,SessionManager.reply] at h
    split at h <;> rename_i hw <;> cases h <;> exact ⟨(hwrite hw).1,.inl (hwrite hw).2⟩
  | _ => exact hs.elim

/-- The sweeper's pass stops entries of the ids it was given only. -/
theorem sweepMap_heap (now : ℕ) (m : SessionManager.Manager) (ids : List String) :
    (SessionManager.sweepMap now m ids).sessions = m.sessions ∧
    ∀ (q : ℕ) (s' : SessionManager.Session), (SessionManager.sweepMap now m ids).heap[q]? = some s' →
      ∃ s, m.heap[q]? = some s ∧ s'.id = s.id ∧
        (s'.status = .stopped → s.status = .stopped ∨ ∃ id ∈ ids, m.sessions id = some q) := by
  induction ids generalizing m with
  | nil => exact ⟨rfl,fun q s' h => ⟨s',h,rfl,.inl⟩⟩
  | cons id ids ih =>
    simp only [SessionManager.sweepMap]
    cases hid : m.sessions id with
    | none =>
      refine ⟨(ih m).1,fun q s' h => ?_⟩
      obtain ⟨s,hs,hi,hst⟩ := (ih m).2 q s' h
      refine ⟨s,hs,hi,fun h' => (hst h').imp (fun h => h) ?_⟩
      rintro ⟨i,hi',hq⟩
      exact ⟨i,List.mem_cons_of_mem _ hi',hq⟩
    | some p =>
      obtain ⟨hsess,hheap⟩ := ih (m.assign p (SessionManager.markSwept now))
      refine ⟨hsess,fun q s' h => ?_⟩
      obtain ⟨s₁,hs₁,hi₁,hst₁⟩ := hheap q s' h
      simp only [SessionManager.Manager.assign,List.getElem?_modify] at hs₁
      obtain ⟨s,hs,rfl⟩ := Option.map_eq_some_iff.mp hs₁
      by_cases hpq : p = q
      · subst hpq
        exact ⟨s,hs,by simpa [SessionManager.markSwept] using hi₁,fun _ => .inr ⟨id,by simp,hid⟩⟩
      · rw [if_neg hpq] at hi₁ hst₁
        refine ⟨s,hs,hi₁,fun h' => (hst₁ h').imp (fun h => h) ?_⟩
        rintro ⟨i,hi',hq⟩
        exact ⟨i,List.mem_cons_of_mem _ hi',hq⟩

theorem sweepMap_length (now : ℕ) (m : SessionManager.Manager) (ids : List String) :
    (SessionManager.sweepMap now m ids).heap.length = m.heap.length := by
  induction ids generalizing m with
  | nil => rfl
  | cons id ids ih =>
    simp only [SessionManager.sweepMap]
    split
    · exact ih m
    · rw [ih]
      simp [SessionManager.Manager.assign]

theorem Tended.keep {g g' : Engine} {P P' : Set Pc} (h : Tended g P) (hmgr : g'.mgr = g.mgr)
    (hled : g'.ledger = g.ledger)
    (hses : ∀ n id, g.session n = some id → g'.session n = some id ∨ ∃ p' ∈ P', p'.carries id)
    (hcar : ∀ p ∈ P, ∀ n id, p.carries id → ActiveOf g n id →
      g'.session n = some id ∨ ∃ p' ∈ P', p'.carries id)
    (hmark : ∀ p ∈ P, ∀ id, p.marks id → ∃ p' ∈ P', p'.marks id) : Tended g' P' := by
  have hact : ∀ n id, ActiveOf g' n id ↔ ActiveOf g n id := by
    intro n id
    simp only [ActiveOf,hmgr,hled]
  refine ⟨fun n id ha => ?_,fun id q s hq hs hst => ?_,hmgr ▸ h.pointed,hmgr ▸ hled ▸ h.mapped,
    hmgr ▸ h.bare⟩
  · rcases h.covered n id ((hact n id).mp ha) with hs | ⟨p,hp,hc⟩
    · exact hses n id hs
    · exact hcar p hp n id hc ((hact n id).mp ha)
  · rw [hmgr] at hq hs
    rcases h.marked id q s hq hs hst with hna | ⟨p,hp,hm⟩
    · exact .inl (by simpa only [RowActive,hmgr] using hna)
    · exact .inr (hmark p hp id hm)

theorem Tended.manager {g : Engine} {m' : SessionManager.Manager} {l : Ledger} {P P' : Set Pc}
    (h : Tended g P)
    (hact : ∀ n id, ActiveOf { g with mgr := m', ledger := l } n id → ActiveOf g n id ∨
      ∃ p' ∈ P', p'.carries id)
    (hcar : ∀ p ∈ P, ∀ id, p.carries id → ¬ RowActive { g with mgr := m' } id ∨
      ∃ p' ∈ P', p'.carries id)
    (hmarked : ∀ (id : String) (q : ℕ) (s : SessionManager.Session), m'.sessions id = some q →
      m'.heap[q]? = some s → s.status = .stopped → ¬ RowActive { g with mgr := m' } id ∨
      ∃ p ∈ P', p.marks id)
    (hpoint : ∀ id q, m'.sessions id = some q → ∃ s : SessionManager.Session,
      m'.heap[q]? = some s ∧ s.id = id)
    (hmap : ∀ id, m'.sessions id ≠ none → id ∈ l.created.map (·.1))
    (hbare : m'.store.backend = .noop → ∀ id, m'.store.find id = none) :
    Tended { g with mgr := m', ledger := l } P' := by
  refine ⟨fun n id ha => ?_,hmarked,hpoint,hmap,hbare⟩
  rcases hact n id ha with ha' | hc
  · rcases h.covered n id ha' with hs | ⟨p,hp,hc⟩
    · exact .inl hs
    · rcases hcar p hp id hc with hna | hc'
      · exact absurd ha.2 hna
      · exact .inr hc'
  · exact .inr hc

theorem advance_bare {e : SessionManager.Env} {m m' : SessionManager.Manager} {pc : SessionManager.Pc}
    {so : SessionManager.Pc ⊕ SessionManager.Reply} (h : SessionManager.advance e m pc = (m',so))
    (hb : m.store.backend = .noop → ∀ id, m.store.find id = none) (hn : m'.store.backend = .noop)
    (id : String) : m'.store.find id = none := by
  have hn' : m.store.backend = .noop := (SessionManager.advance_rows h).1 ▸ hn
  rcases SessionManager.advance_store h with hst | ⟨req,-,hst⟩ | ⟨j,q,now,ev,by',-,hst⟩ |
    ⟨j,row,ev,by',-,hst⟩ | ⟨j,-,hst⟩ | ⟨idle,-,-,hst⟩
  · rw [hst]
    exact hb hn' id
  · simp only [Store.create,hn',Except.ok.injEq] at hst
    exact hst ▸ hb hn' id
  · simp only [Store.markStopped,hn',Except.ok.injEq] at hst
    exact hst ▸ hb hn' id
  · simp only [Store.markStopped,hn',Except.ok.injEq] at hst
    exact hst ▸ hb hn' id
  · simp only [Store.heartbeat,hn',Except.ok.injEq] at hst
    exact hst ▸ hb hn' id
  · rw [hst]
    simp only [Store.sweepIdle,hn']
    exact hb hn' id

theorem heap_grows {e : SessionManager.Env} {m m' : SessionManager.Manager} {pc : SessionManager.Pc}
    {so : SessionManager.Pc ⊕ SessionManager.Reply} (h : SessionManager.advance e m pc = (m',so))
    (hpc : (∃ n g, Creating g n pc) ∨ (∃ id, Stopping id pc) ∨ Sweeping pc) (q : ℕ)
    (hq : m.heap[q]? ≠ none) : m'.heap[q]? ≠ none := by
  have hlen : m.heap.length ≤ m'.heap.length := by
    rcases hpc with ⟨n,g,hc⟩ | ⟨id,hs⟩ | hs
    · cases pc with
      | startLookup req =>
        simp only [SessionManager.advance,SessionManager.goto] at h
        split at h <;> cases h <;> exact le_rfl
      | startCreate req =>
        simp only [SessionManager.advance,SessionManager.goto,SessionManager.reply] at h
        split at h <;> rename_i hw <;> cases h <;>
          rcases SessionManager.write_cases hw with ⟨s,-,rfl⟩ | ⟨-,rfl⟩ <;> exact le_rfl
      | startInstall req s => cases h; simp [SessionManager.Manager.install]
      | _ => exact hc.elim
    · rcases (stopping_map h hs).2 with he | ⟨q,s,-,-,he,-⟩ <;> simp [he]
    · cases pc with
      | sweepStore idle =>
        simp only [SessionManager.advance,SessionManager.goto,SessionManager.reply] at h
        split at h <;> cases h <;> exact le_rfl
      | sweepMark idle ids => cases h; rw [sweepMap_length]
      | _ => exact hs.elim
  rw [ne_eq,List.getElem?_eq_none_iff,not_le] at hq ⊢
  omega

theorem stopping_active {e : SessionManager.Env} {m m' : SessionManager.Manager} {id : String}
    {pc : SessionManager.Pc} {so : SessionManager.Pc ⊕ SessionManager.Reply}
    (h : SessionManager.advance e m pc = (m',so)) (hs : Stopping id pc) {i : String} {r : SessionRow}
    (hr : m'.store.find i = some r) (hact : r.status = .active) : m.store.find i = some r := by
  have hmark : ∀ {j now ev by'}, m.store.markStopped j now ev by' = .ok m'.store →
      m.store.find i = some r := by
    intro j now ev by' hst
    have hf := (find_markStopped hst i).2
    rw [hr] at hf
    split at hf
    · obtain ⟨r₀,-,rfl⟩ := Option.map_eq_some_iff.mp hf.symm
      cases hact
    · exact hf.symm
  rcases SessionManager.advance_store h with hst | ⟨req,rfl,-⟩ | ⟨j,q,now,ev,by',-,hst⟩ |
    ⟨j,row,ev,by',-,hst⟩ | ⟨j,rfl,-⟩ | ⟨idle,rfl,-⟩
  · exact hst ▸ hr
  · exact hs.elim
  · exact hmark hst
  · exact hmark hst
  · exact hs.elim
  · exact hs.elim

/-- The steps of a handler `p` that runs a `Stop` call of `id`. -/
theorem tended_stop {e : SessionManager.Env} {g : Engine} {O P' : Set Pc} {p : Pc} {id : String}
    {pc : SessionManager.Pc} {m' : SessionManager.Manager} {l : Ledger}
    {so : SessionManager.Pc ⊕ SessionManager.Reply} (h : Tended g (insert p O))
    (hadv : SessionManager.advance e g.mgr pc = (m',so)) (hs : Stopping id pc) (hv : Valid g.mgr pc)
    (hl : l.created = g.ledger.created) (hO : O ⊆ P')
    (hcar : ∀ i, p.carries i → i = id ∧ (∀ j, pc = .stopFetch j → e.fault = none) ∧
      ((∃ j q, pc = .stopMark j q) ∨ (∃ j row, pc = .stopMarkRow j row) → e.fault ≠ some false) ∧
      ∀ pc', so = .inl pc' → ∃ p' ∈ P', p'.carries id)
    (hmarks : ∀ i, p.marks i → ∃ q, pc = .stopMark id q)
    (hnew : ∀ q, so = .inl (.stopMark id q) → ∃ p' ∈ P', p'.marks id) :
    Tended { g with mgr := m', ledger := l } P' := by
  have hdead : ∀ i, ¬ RowActive g i → ¬ RowActive { g with mgr := m' } i := by
    rintro i hna ⟨r,hr,hact⟩
    exact hna ⟨r,stopping_active hadv hs hr hact,hact⟩
  have hclosed : ∀ i v, p.carries i → so = .inr v → ¬ RowActive { g with mgr := m' } i ∨
      (pc = .stopLookup i ∧ m' = g.mgr ∧ ∃ (q : ℕ) (s : SessionManager.Session),
        g.mgr.sessions i = some q ∧ g.mgr.heap[q]? = some s ∧ s.status = .stopped) := by
    rintro i v hc rfl
    obtain ⟨rfl,hfetch,hmark,-⟩ := hcar i hc
    cases hb : g.mgr.store.backend with
    | noop =>
      refine .inl (hdead i ?_)
      rintro ⟨r,hr,-⟩
      rw [h.bare hb i] at hr
      cases hr
    | postgres =>
      rcases stopping_ends hb hadv hs hv hfetch hmark with hearly | hstop
      · exact .inr hearly
      · refine .inl ?_
        rintro ⟨r,hr,hact⟩
        rw [hstop r hr] at hact
        cases hact
  have hends : ∀ i, p.carries i → ¬ RowActive { g with mgr := m' } i ∨ ∃ p' ∈ P', p'.carries i := by
    intro i hc
    obtain ⟨hi,-,-,hmove⟩ := hcar i hc
    cases hso : so with
    | inl pc' => exact .inr (hi ▸ hmove pc' hso)
    | inr v =>
      rcases hclosed i v hc hso with hna | ⟨rfl,rfl,q,s,hq,hs',hst⟩
      · exact .inl hna
      · rcases h.marked i q s hq hs' hst with hna | ⟨r,hr,hm⟩
        · exact .inl hna
        · rcases Set.mem_insert_iff.mp hr with rfl | hr
          · obtain ⟨q',hq'⟩ := hmarks i hm
            cases hq'
          · exact .inr ⟨r,hO hr,marks_carries hm⟩
  have hcarry : ∀ q ∈ insert p O, ∀ i, q.carries i → ¬ RowActive { g with mgr := m' } i ∨
      ∃ p' ∈ P', p'.carries i := by
    intro q hq i hc
    rcases Set.mem_insert_iff.mp hq with rfl | hq
    · exact hends i hc
    · exact .inr ⟨q,hO hq,hc⟩
  obtain ⟨hsess,hheap⟩ := stopping_map hadv hs
  have hold : ∀ (i : String) (q : ℕ) (s : SessionManager.Session), g.mgr.sessions i = some q →
      g.mgr.heap[q]? = some s → s.status = .stopped →
      ¬ RowActive { g with mgr := m' } i ∨ ∃ p ∈ P', p.marks i := by
    intro i q s hq hs' hst
    rcases h.marked i q s hq hs' hst with hna | ⟨r,hr,hm⟩
    · exact .inl (hdead i hna)
    · rcases Set.mem_insert_iff.mp hr with rfl | hr
      · obtain ⟨q',rfl⟩ := hmarks i hm
        cases hso : so with
        | inl pc' =>
          rw [hso] at hadv
          simp only [SessionManager.advance,SessionManager.reply] at hadv
          split at hadv
          · cases hadv
          · split at hadv <;> cases hadv
        | inr v =>
          rcases hclosed i v (marks_carries hm) hso with hna | ⟨hpc,-⟩
          · exact .inl hna
          · cases hpc
      · exact .inr ⟨r,hO hr,hm⟩
  refine h.manager (fun n i ha => .inl ?_) hcarry (fun i q s hq hs' hst => ?_) (fun i q hq => ?_)
    (fun i hi => ?_) (advance_bare hadv h.bare)
  · obtain ⟨hc,r,hr,hact⟩ := ha
    exact ⟨hl ▸ hc,r,stopping_active hadv hs hr hact,hact⟩
  · rw [hsess] at hq
    rcases hheap with he | ⟨q₀,s₀,hq₀,hs₀,he,hso⟩
    · exact hold i q s hq (he ▸ hs') hst
    · by_cases hqq : q₀ = q
      · subst hqq
        obtain ⟨s₁,hs₁,hi₁⟩ := h.pointed i q₀ hq
        obtain ⟨s₂,hs₂,hi₂⟩ := h.pointed id q₀ hq₀
        obtain rfl : s₁ = s₂ := Option.some.inj (hs₁.symm.trans hs₂)
        obtain rfl : i = id := hi₁.symm.trans hi₂
        exact .inr (hnew q₀ hso)
      · exact hold i q s hq (by simpa [he,hqq] using hs') hst
  · rw [hsess] at hq
    obtain ⟨s,hs',hi⟩ := h.pointed i q hq
    rcases hheap with he | ⟨q₀,s₀,hq₀,hs₀,he,-⟩
    · exact ⟨s,he ▸ hs',hi⟩
    · by_cases hqq : q₀ = q
      · exact ⟨SessionManager.markStopped e.now s,by simp [he,hqq,hs'],hi⟩
      · exact ⟨s,by simp [he,hqq,hs'],hi⟩
  · rw [hl]
    exact h.mapped i (hsess ▸ hi)

theorem tended_sweep {e : SessionManager.Env} {g : Engine} {O P' : Set Pc} {pc : SessionManager.Pc}
    {m' : SessionManager.Manager} {so : SessionManager.Pc ⊕ SessionManager.Reply}
    (h : Tended g (insert (.sweep pc) O)) (hadv : SessionManager.advance e g.mgr pc = (m',so))
    (hs : Sweeping pc) (hm : Minds g (.sweep pc)) (hO : O ⊆ P') :
    Tended (g.afterClose e pc m') P' := by
  have hrow : ∀ i r, m'.store.find i = some r → r.status = .active → g.mgr.store.find i = some r := by
    intro i r hr hact
    rcases (sweeping_rows hadv hs i).2 r hr with hold | ⟨hst,-⟩
    · exact hold
    · rw [hact] at hst
      cases hst
  have hdead : ∀ i, ¬ RowActive g i → ¬ RowActive { g with mgr := m' } i := by
    rintro i hna ⟨r,hr,hact⟩
    exact hna ⟨r,hrow i r hr hact,hact⟩
  have hcarry : ∀ q ∈ insert (Pc.sweep pc) O, ∀ i, q.carries i →
      ¬ RowActive { g with mgr := m' } i ∨ ∃ p' ∈ P', p'.carries i := by
    intro q hq i hc
    rcases Set.mem_insert_iff.mp hq with rfl | hq
    · exact hc.elim
    · exact .inr ⟨q,hO hq,hc⟩
  have hold : ∀ (i : String) (q : ℕ) (s : SessionManager.Session), g.mgr.sessions i = some q →
      g.mgr.heap[q]? = some s → s.status = .stopped →
      ¬ RowActive { g with mgr := m' } i ∨ ∃ p ∈ P', p.marks i := by
    intro i q s hq hs' hst
    rcases h.marked i q s hq hs' hst with hna | ⟨r,hr,hmr⟩
    · exact .inl (hdead i hna)
    · rcases Set.mem_insert_iff.mp hr with rfl | hr
      · exact hmr.elim
      · exact .inr ⟨r,hO hr,hmr⟩
  have hact : ∀ n i, ActiveOf (g.afterClose e pc m') n i → ActiveOf g n i ∨ ∃ p' ∈ P', p'.carries i :=
    fun n i ⟨hc,r,hr,ha⟩ => .inl ⟨hc,r,hrow i r hr ha,ha⟩
  cases pc with
  | sweepStore idle =>
    have hmap : m'.sessions = g.mgr.sessions ∧ m'.heap = g.mgr.heap := by
      simp only [SessionManager.advance,SessionManager.goto,SessionManager.reply] at hadv
      split at hadv <;> cases hadv <;> exact ⟨rfl,rfl⟩
    refine h.manager hact hcarry (fun i q s hq hs' hst => ?_) (fun i q hq => ?_) (fun i hi => ?_)
      (advance_bare hadv h.bare)
    · exact hold i q s (hmap.1 ▸ hq) (hmap.2 ▸ hs') hst
    · obtain ⟨s,hs',hi⟩ := h.pointed i q (hmap.1 ▸ hq)
      exact ⟨s,hmap.2.symm ▸ hs',hi⟩
    · exact h.mapped i (hmap.1 ▸ hi)
  | sweepMark idle ids =>
    have hbare := advance_bare hadv h.bare
    cases hadv
    obtain ⟨hsess,hheap⟩ := sweepMap_heap e.now g.mgr ids
    refine h.manager hact hcarry (fun i q s' hq hs' hst => ?_) (fun i q hq => ?_) (fun i hi => ?_) hbare
    · rw [hsess] at hq
      obtain ⟨s,hs₀,-,hst₀⟩ := hheap q s' hs'
      rcases hst₀ hst with hst₀ | ⟨j,hj,hjq⟩
      · exact hold i q s hq hs₀ hst₀
      · obtain ⟨s₁,hs₁,hi₁⟩ := h.pointed i q hq
        obtain ⟨s₂,hs₂,hi₂⟩ := h.pointed j q hjq
        obtain rfl : s₁ = s₂ := Option.some.inj (hs₁.symm.trans hs₂)
        obtain rfl : i = j := hi₁.symm.trans hi₂
        exact .inl (hdead i (hm i hj).1)
    · rw [hsess] at hq
      obtain ⟨s,hs₀,hi⟩ := h.pointed i q hq
      have hlt : q < (SessionManager.sweepMap e.now g.mgr ids).heap.length := by
        rw [sweepMap_length]
        exact (List.getElem?_eq_some_iff.mp hs₀).1
      obtain ⟨s₁,hs₁,hi₁,-⟩ := hheap q _ (List.getElem?_eq_getElem hlt)
      obtain rfl : s = s₁ := Option.some.inj (hs₀.symm.trans hs₁)
      exact ⟨_,List.getElem?_eq_getElem hlt,hi₁.trans hi⟩
    · exact h.mapped i (hsess ▸ hi)
  | _ => exact hs.elim

/-- What a step of a start handler's call does to the map: at most it installs its session. -/
theorem creating_map {e : SessionManager.Env} {g : Engine} {m' : SessionManager.Manager} {n : String}
    {pc : SessionManager.Pc} {so : SessionManager.Pc ⊕ SessionManager.Reply}
    (h : SessionManager.advance e g.mgr pc = (m',so)) (hc : Creating g n pc) :
    (m'.sessions = g.mgr.sessions ∧ m'.heap = g.mgr.heap) ∨
    ∃ req s, pc = .startInstall req s ∧ m' = g.mgr.install s := by
  cases pc with
  | startLookup req =>
    simp only [SessionManager.advance,SessionManager.goto] at h
    split at h <;> cases h <;> exact .inl ⟨rfl,rfl⟩
  | startCreate req =>
    simp only [SessionManager.advance,SessionManager.goto,SessionManager.reply] at h
    split at h <;> rename_i hw <;> cases h <;>
      rcases SessionManager.write_cases hw with ⟨s,-,rfl⟩ | ⟨-,rfl⟩ <;> exact .inl ⟨rfl,rfl⟩
  | startInstall req s => cases h; exact .inr ⟨req,s,rfl,rfl⟩
  | _ => exact hc.elim

/-- Ids on the ledger do not become active again: an insert draws a new one. -/
theorem creating_dead {e : SessionManager.Env} {g : Engine} {m' : SessionManager.Manager} {n : String}
    {pc : SessionManager.Pc} {so : SessionManager.Pc ⊕ SessionManager.Reply}
    (hb : g.mgr.store.backend = .postgres) (h : SessionManager.advance e g.mgr pc = (m',so))
    (hc : Creating g n pc)
    (hdraw : ∀ req, pc = .startCreate req → SessionManager.newID e.buf ∉ g.ledger.created.map (·.1))
    {i : String} (hi : i ∈ g.ledger.created.map (·.1)) : m'.store.find i = g.mgr.store.find i := by
  rcases creating_rows hb h hc with ⟨hst,-⟩ | ⟨req,row,rfl,hcre,hid,-,-⟩
  · rw [hst]
  · have hne : i ≠ SessionManager.newID e.buf := fun he => hdraw req rfl (he ▸ hi)
    cases hf : g.mgr.store.find i with
    | none =>
      rw [(find_create hcre i).2.2 hf,if_neg]
      exact fun hcon => hne (hcon.2 ▸ hid)
    | some r => rw [(find_create hcre i).2.1 (by simp [hf]),hf]

theorem tended_start {e : SessionManager.Env} {g : Engine} {O P' : Set Pc} {n sn : String} {ls : Labels}
    {pc : SessionManager.Pc} {m' : SessionManager.Manager}
    {so : SessionManager.Pc ⊕ SessionManager.Reply} (h : Tended g (insert (.startSession n sn ls pc) O))
    (hb : g.mgr.store.backend = .postgres) (hadv : SessionManager.advance e g.mgr pc = (m',so))
    (hc : Creating g n pc) (hm : Minds g (.startSession n sn ls pc))
    (hdraw : ∀ req, pc = .startCreate req → SessionManager.newID e.buf ∉ g.ledger.created.map (·.1))
    (hO : O ⊆ P')
    (hcar : ∀ i, (Pc.startSession n sn ls pc).carries i ∨ insertedRow e g.mgr m' pc = some i →
      ∃ p' ∈ P', p'.carries i) :
    Tended (g.afterStart e n pc m') P' := by
  have hdead : ∀ i ∈ g.ledger.created.map (·.1), ¬ RowActive g i → ¬ RowActive { g with mgr := m' } i := by
    rintro i hi hna ⟨r,hr,hact⟩
    exact hna ⟨r,creating_dead hb hadv hc hdraw hi ▸ hr,hact⟩
  have hold : ∀ (i : String) (q : ℕ) (s : SessionManager.Session), g.mgr.sessions i = some q →
      g.mgr.heap[q]? = some s → s.status = .stopped →
      ¬ RowActive { g with mgr := m' } i ∨ ∃ p ∈ P', p.marks i := by
    intro i q s hq hs' hst
    rcases h.marked i q s hq hs' hst with hna | ⟨r,hr,hmr⟩
    · exact .inl (hdead i (h.mapped i (by simp [hq])) hna)
    · rcases Set.mem_insert_iff.mp hr with rfl | hr
      · exact hmr.elim
      · exact .inr ⟨r,hO hr,hmr⟩
  have hsub : g.ledger.created ⊆ (g.afterStart e n pc m').ledger.created := by simp [Engine.afterStart]
  refine h.manager (fun k i ha => ?_) (fun q hq i hci => ?_) (fun i q s hq hs' hst => ?_)
    (fun i q hq => ?_) (fun i hi => ?_) (advance_bare hadv h.bare)
  · obtain ⟨hmem,r,hr,hact⟩ := ha
    rcases List.mem_append.mp hmem with hnew | hmem
    · obtain ⟨j,hj,he⟩ := List.mem_map.mp hnew
      cases he
      exact .inr (hcar i (.inr (by simpa using hj)))
    · have hfind := creating_dead hb hadv hc hdraw (List.mem_map_of_mem hmem)
      exact .inl ⟨hmem,r,hfind ▸ hr,hact⟩
  · rcases Set.mem_insert_iff.mp hq with rfl | hq
    · exact .inr (hcar i (.inl hci))
    · exact .inr ⟨q,hO hq,hci⟩
  · rcases creating_map hadv hc with ⟨hsess,hheap⟩ | ⟨req,s₀,rfl,rfl⟩
    · exact hold i q s (hsess ▸ hq) (hheap ▸ hs') hst
    · by_cases hi : i = s₀.id
      · subst hi
        obtain rfl : g.mgr.heap.length = q := by simpa [SessionManager.Manager.install] using hq
        obtain rfl : s₀ = s := by simpa [SessionManager.Manager.install] using hs'
        rw [hm.2.2] at hst
        cases hst
      · have hq' : g.mgr.sessions i = some q := by simpa [SessionManager.Manager.install,hi] using hq
        obtain ⟨s₁,hs₁,-⟩ := h.pointed i q hq'
        have hlt := (List.getElem?_eq_some_iff.mp hs₁).1
        refine hold i q s hq' ?_ hst
        simpa [SessionManager.Manager.install,List.getElem?_append_left hlt] using hs'
  · rcases creating_map hadv hc with ⟨hsess,hheap⟩ | ⟨req,s₀,rfl,rfl⟩
    · obtain ⟨s,hs',hi⟩ := h.pointed i q (hsess ▸ hq)
      exact ⟨s,hheap.symm ▸ hs',hi⟩
    · by_cases hi : i = s₀.id
      · subst hi
        obtain rfl : g.mgr.heap.length = q := by simpa [SessionManager.Manager.install] using hq
        exact ⟨s₀,by simp [SessionManager.Manager.install],rfl⟩
      · have hq' : g.mgr.sessions i = some q := by simpa [SessionManager.Manager.install,hi] using hq
        obtain ⟨s₁,hs₁,hi₁⟩ := h.pointed i q hq'
        have hlt := (List.getElem?_eq_some_iff.mp hs₁).1
        exact ⟨s₁,by simpa [SessionManager.Manager.install,List.getElem?_append_left hlt] using hs₁,hi₁⟩
  · rcases creating_map hadv hc with ⟨hsess,-⟩ | ⟨req,s₀,rfl,rfl⟩
    · exact List.map_subset _ hsub (h.mapped i (hsess ▸ hi))
    · by_cases he : i = s₀.id
      · subst he
        exact List.map_subset _ hsub (List.mem_map.mpr ⟨_,hc,rfl⟩)
      · refine List.map_subset _ hsub (h.mapped i ?_)
        simpa [SessionManager.Manager.install,he] using hi

theorem tended_delete {g g' : Engine} {O P' : Set Pc} {id : String}
    (h : Tended g (insert (.deleteSession id) O)) (hd : g.deleteSession id = .ok g') (hO : O ⊆ P') :
    Tended g' P' ∧ Spares g (.deleteSession id) g' := by
  unfold Engine.deleteSession at hd
  split at hd
  · cases hd
  · rename_i s hs
    cases hd
    have hrow : ∀ i r, s.find i = some r → g.mgr.store.find i = some r := by
      intro i r hr
      have hold := (find_delete hs i).2.2.1.resolve_left (by simp [hr])
      exact hold ▸ hr
    have hbare : s.backend = .noop → ∀ i, s.find i = none := by
      intro hb i
      rcases (find_delete hs i).2.2.1 with hn | hn
      · exact hn
      · rw [hn]
        exact h.bare ((find_delete hs "").1 ▸ hb) i
    refine ⟨⟨fun n i ha => ?_,fun i q s' hq hs' hst => ?_,h.pointed,h.mapped,hbare⟩,
      ⟨fun n i hi => .inl (session_unlink rfl hi).1,fun n hn => by simpa using hn,fun q hq => hq,
        fun _ h => h,?_⟩⟩
    · obtain ⟨hc,r,hfind,hact⟩ := ha
      have hr : s.find i = some r := hfind
      have hne : i ≠ id := by
        rintro rfl
        cases hb : g.mgr.store.backend with
        | noop => exact absurd (hrow i r hr) (by simp [h.bare hb i])
        | postgres => exact absurd hr (by simp [(find_delete hs i).2.2.2 hb])
      rcases h.covered n i ⟨hc,r,hrow i r hr,hact⟩ with hses | ⟨p,hp,hcp⟩
      · obtain ⟨row,hmon,hen,hid⟩ := session_eq_some.mp hses
        refine .inl (session_eq_some.mpr ⟨row.unlink id,by simp [hmon],?_⟩)
        simp [MonitorRow.unlink,hen,hid,hne]
      · rcases Set.mem_insert_iff.mp hp with rfl | hp
        · exact hcp.elim
        · exact .inr ⟨p,hO hp,hcp⟩
    · rcases h.marked i q s' hq hs' hst with hna | ⟨p,hp,hm⟩
      · left
        rintro ⟨r,hr,hact⟩
        exact hna ⟨r,hrow i r hr,hact⟩
      · rcases Set.mem_insert_iff.mp hp with rfl | hp
        · exact hm.elim
        · exact .inr ⟨p,hO hp,hm⟩
    · rintro i - hna ⟨r,hr,hact⟩
      exact hna ⟨r,hrow i r hr,hact⟩

theorem Spares.keep {g g' : Engine} {p : Pc} (hmgr : g'.mgr = g.mgr) (hled : g'.ledger = g.ledger)
    (hses : ∀ n i, g'.session n = some i → g.session n = some i ∨ p.toggles n)
    (hmon : ∀ n, g.monitors n ≠ none → g'.monitors n ≠ none) : Spares g p g' :=
  ⟨hses,hmon,fun _ h => hmgr ▸ h,hled ▸ fun _ h => h,fun _ _ h => by simpa only [RowActive,hmgr] using h⟩

theorem Spares.refl (g : Engine) (p : Pc) : Spares g p g :=
  .keep rfl rfl (fun _ _ h => .inl h) fun _ h => h

theorem Spares.manager {g : Engine} {p : Pc} {m' : SessionManager.Manager} {l : Ledger}
    (hheap : ∀ q : ℕ, g.mgr.heap[q]? ≠ none → m'.heap[q]? ≠ none)
    (hl : g.ledger.created ⊆ l.created)
    (hrows : ∀ id ∈ g.ledger.created.map (·.1), ¬ RowActive g id → ¬ RowActive { g with mgr := m' } id) :
    Spares g p { g with mgr := m', ledger := l } :=
  ⟨fun _ _ h => .inl h,fun _ h => h,hheap,hl,hrows⟩

/-- A handler that carries nothing leaves the coverage to the others. -/
theorem tended_idle {g g' : Engine} {O P' : Set Pc} {p : Pc} (h : Tended g (insert p O)) (hO : O ⊆ P')
    (hmgr : g'.mgr = g.mgr) (hled : g'.ledger = g.ledger)
    (hses : ∀ n id, g.session n = some id → g'.session n = some id)
    (hcar : ∀ id, p.carries id → ∃ p' ∈ P', p'.carries id) (hmark : ∀ id, ¬ p.marks id) :
    Tended g' P' := by
  refine h.keep hmgr hled (fun n id hs => .inl (hses n id hs)) (fun q hq n id hc _ => ?_)
    (fun q hq id hm => ?_)
  · rcases Set.mem_insert_iff.mp hq with rfl | hq
    · exact .inr (hcar id hc)
    · exact .inr ⟨q,hO hq,hc⟩
  · rcases Set.mem_insert_iff.mp hq with rfl | hq
    · exact absurd hm (hmark id)
    · exact ⟨q,hO hq,hm⟩

def MovedOn (g' : Engine) : Pc ⊕ Response → Prop
  | .inl p' => Minds g' p'
  | .inr _ => True

theorem subset_inFlight (O : Set Pc) (o : Pc ⊕ Response) : O ⊆ inFlight O o := by
  cases o with
  | inl p' => exact Set.subset_insert _ _
  | inr v => exact subset_rfl

/-- Steps outside the tables and the manager by a handler with free hands. -/
theorem tended_free {g g' : Engine} {O : Set Pc} {p : Pc} {o : Pc ⊕ Response} (h : Tended g (insert p O))
    (hcar : ∀ id, ¬ p.carries id) (hmgr : g'.mgr = g.mgr) (hled : g'.ledger = g.ledger)
    (hses : ∀ n, g'.session n = g.session n) (hmon : ∀ n, g.monitors n ≠ none → g'.monitors n ≠ none)
    (hm : MovedOn g' o) : Tended g' (inFlight O o) ∧ Spares g p g' ∧ MovedOn g' o :=
  ⟨tended_idle h (subset_inFlight O o) hmgr hled (fun n _ hs => (hses n).trans hs)
    (fun id hc => absurd hc (hcar id)) fun id hm => hcar id (marks_carries hm),
    .keep hmgr hled (fun n _ hi => .inl (hses n ▸ hi)) hmon,hm⟩

theorem monitors_ne_upsert {g : Engine} {req : SubscribeRequest} {n : String} (h : g.monitors n ≠ none) :
    (g.upsert req).monitors n ≠ none := by
  unfold Engine.upsert
  split
  · exact h
  · by_cases hn : n = req.clientName
    · simp [hn]
    · simpa [hn] using h

theorem creating_inserted {e : SessionManager.Env} {g : Engine} {m' : SessionManager.Manager} {n : String}
    {pc : SessionManager.Pc} {v : SessionManager.Reply} (hb : g.mgr.store.backend = .postgres)
    (h : SessionManager.advance e g.mgr pc = (m',.inr v)) (hc : Creating g n pc)
    (hf : ∀ req, pc = .startCreate req → e.fault ≠ some true) : insertedRow e g.mgr m' pc = none := by
  rcases creating_rows hb h hc with ⟨-,hnone⟩ | ⟨req,row,rfl,hcre,hid,-,-⟩
  · exact hnone
  · have hfault := hf req rfl
    simp only [SessionManager.advance,SessionManager.goto,SessionManager.reply] at h
    split at h <;> rename_i hw <;> cases h
    unfold SessionManager.Manager.write Store.write at hw
    generalize e.fault = f at hw hfault
    generalize g.mgr.store.create (SessionManager.rowOf e (SessionManager.freshSession e req)) = r at hw
    have hsame : m'.store = g.mgr.store := by
      rcases f with _ | _ | _ <;> rcases r with err | s <;> cases hw
      · rfl
      · rfl
      · rfl
      · exact absurd rfl hfault
      · exact absurd rfl hfault
    simp [insertedRow,hsame]

theorem tended_startSession {e : Env} {g g' : Engine} {O : Set Pc} {n sn : String} {ls : Labels}
    {pc : SessionManager.Pc} {o : Pc ⊕ Response}
    (hadv : advance e g (.startSession n sn ls pc) = (g',o))
    (hdraw : (Pc.startSession n sn ls pc).draws e g) (hok : (Pc.startSession n sn ls pc).lossless e.fault)
    (hG : Tended g (insert (.startSession n sn ls pc) O)) (hA : Aware g (.startSession n sn ls pc))
    (hT : Minds g (.startSession n sn ls pc)) :
    Tended g' (inFlight O o) ∧ Spares g (.startSession n sn ls pc) g' ∧ MovedOn g' o := by
  obtain ⟨hb,hc⟩ := hA
  have hdraw' : ∀ req, pc = .startCreate req →
      SessionManager.newID e.toEnv.buf ∉ g.ledger.created.map (·.1) := by
    rintro req rfl
    exact hdraw
  have hfault : ∀ req, pc = .startCreate req → e.toEnv.fault ≠ some true := by
    rintro req rfl
    exact hok
  have hspares : ∀ {m' so}, SessionManager.advance e.toEnv g.mgr pc = (m',so) →
      Spares g (.startSession n sn ls pc) (g.afterStart e.toEnv n pc m') := by
    intro m' so hm
    refine .manager (heap_grows hm (.inl ⟨n,g,hc⟩)) (by simp) ?_
    rintro i hi hna ⟨r,hr,hact⟩
    exact hna ⟨r,creating_dead hb hm hc hdraw' hi ▸ hr,hact⟩
  have hend : ∀ {m' v} (r : Response), SessionManager.advance e.toEnv g.mgr pc = (m',.inr v) →
      (∀ s, v.result ≠ .session s) → Tended (g.afterStart e.toEnv n pc m') (inFlight O (.inr r)) := by
    intro m' v r hm hne
    refine tended_start hG hb hm hc hT hdraw' subset_rfl fun i hi => ?_
    rcases hi with hcar | hins
    · cases pc with
      | startInstall req s =>
        cases hm
        exact absurd rfl (hne s)
      | _ => exact hcar.elim
    · rw [creating_inserted hb hm hc hfault] at hins
      cases hins
  simp only [advance,goto,reply] at hadv
  split at hadv <;> rename_i hm <;> cases hadv
  · refine ⟨tended_start hG hb hm hc hT hdraw' (Set.subset_insert _ _) fun i hi => ?_,hspares hm,
      hT.1,hT.2.1,?_⟩
    · refine ⟨_,Set.mem_insert _ _,?_⟩
      cases pc with
      | startLookup req =>
        rcases hi with hcar | hins
        · exact hcar.elim
        · cases hins
      | startCreate req =>
        rcases hi with hcar | hins
        · exact hcar.elim
        · simp only [SessionManager.advance,SessionManager.goto,SessionManager.reply] at hm
          split at hm <;> cases hm
          simp only [insertedRow] at hins
          split at hins
          · exact Option.some.inj hins
          · cases hins
      | startInstall req s => cases hm
      | _ => exact hc.elim
    · cases pc with
      | startCreate req =>
        simp only [SessionManager.advance,SessionManager.goto,SessionManager.reply] at hm
        split at hm <;> cases hm
        rfl
      | startLookup req =>
        simp only [SessionManager.advance,SessionManager.goto] at hm
        split at hm <;> cases hm <;> trivial
      | startInstall req s => cases hm
      | _ => exact hc.elim
  · refine ⟨tended_start hG hb hm hc hT hdraw' (Set.subset_insert _ _) fun i hi => ?_,hspares hm,
      hT.1,hT.2.1⟩
    rcases hi with hcar | hins
    · refine ⟨_,Set.mem_insert _ _,?_⟩
      cases pc with
      | startInstall req s => cases hm; exact hcar
      | _ => exact hcar.elim
    · rw [creating_inserted hb hm hc hfault] at hins
      cases hins
  · exact ⟨hend _ hm (by simp),hspares hm,trivial⟩
  · rename_i v hnos _
    refine ⟨hend _ hm (fun s hs => ?_),hspares hm,trivial⟩
    obtain ⟨c,r⟩ := v
    obtain rfl : r = .session s := hs
    exact hnos c s rfl

/-- A capture-state write keeps every row and moves the session of one. -/
theorem spares_setState {g : Engine} {p : Pc} {n : String} {row : MonitorRow} (hn : p.toggles n) :
    Spares g p { g with monitors := Function.update g.monitors n (some row) } := by
  refine .keep rfl rfl (fun m i hi => ?_) fun m hm => ?_
  · by_cases hmn : m = n
    · exact .inr (hmn ▸ hn)
    · rw [session_update,if_neg hmn] at hi
      exact .inl hi
  · by_cases hmn : m = n
    · simp [hmn]
    · simpa [hmn] using hm

theorem tended_startSet {g g' : Engine} {O P' : Set Pc} {n sn id : String} {ls : Labels} {fault : Fault}
    {oe : Option MonitorError} (hw : g.writeState fault n true (some id) = (oe,g'))
    (hok : fault ≠ some false) (hS : Sound g (insert (.startSet n sn ls id) O))
    (hG : Tended g (insert (.startSet n sn ls id) O)) (hA : Aware g (.startSet n sn ls id))
    (hT : Minds g (.startSet n sn ls id)) (hO : O ⊆ P') :
    Tended g' P' ∧ Spares g (.startSet n sn ls id) g' := by
  have hsplit : ∀ {g'' : Engine}, (∀ m i, ActiveOf g m i → i = id → g''.session m = some i) →
      ∀ q ∈ insert (Pc.startSet n sn ls id) O, ∀ m i, q.carries i → ActiveOf g m i →
        g''.session m = some i ∨ ∃ p' ∈ P', p'.carries i := by
    intro g'' hown q hq m i hc ha
    rcases Set.mem_insert_iff.mp hq with rfl | hq
    · exact .inl (hown m i ha hc.symm)
    · exact .inr ⟨q,hO hq,hc⟩
  have hmarks : ∀ q ∈ insert (Pc.startSet n sn ls id) O, ∀ i, q.marks i → ∃ p' ∈ P', p'.marks i := by
    intro q hq i hm
    rcases Set.mem_insert_iff.mp hq with rfl | hq
    · exact hm.elim
    · exact ⟨q,hO hq,hm⟩
  rcases writeState_faulty hA.1 hw with ⟨-,rfl,hwhy⟩ | ⟨-,-,row,hen,hid,rfl⟩
  · refine ⟨hG.keep rfl rfl (fun _ _ h => .inl h) (hsplit fun m i ha hi => ?_) hmarks,.refl _ _⟩
    obtain ⟨-,r,hr,-⟩ := ha
    subst hi
    rcases hwhy with hf | hn | ⟨j,hj,hnone⟩
    · exact absurd hf hok
    · exact absurd hn hT.2
    · cases hj
      rw [hnone] at hr
      cases hr
  · refine ⟨hG.keep rfl rfl (fun m i hs => ?_) (hsplit fun m i ha hi => ?_) hmarks,spares_setState rfl⟩
    · by_cases hmn : m = n
      · rw [hmn,hT.1] at hs
        cases hs
      · exact .inl (by rw [session_update,if_neg hmn]; exact hs)
    · subst hi
      rw [session_update,if_pos (hS.owner i m n ha.1 hA.2)]
      simp [hen,hid]

theorem tended_stopSet {g g' : Engine} {O P' : Set Pc} {n id : String} {fault : Fault}
    {oe : Option MonitorError} (hw : g.writeState fault n false none = (oe,g'))
    (hok : fault ≠ some true) (hG : Tended g (insert (.stopSet n id) O)) (hA : Aware g (.stopSet n id))
    (hT : Minds g (.stopSet n id)) (hO : O ⊆ P')
    (hnext : oe = none → ∃ p' ∈ P', p'.carries id) :
    Tended g' P' ∧ Spares g (.stopSet n id) g' := by
  have hcar : ∀ {g'' : Engine}, ∀ q ∈ insert (Pc.stopSet n id) O, ∀ m i, q.carries i → ActiveOf g m i →
      g''.session m = some i ∨ ∃ p' ∈ P', p'.carries i := by
    intro g'' q hq m i hc _
    rcases Set.mem_insert_iff.mp hq with rfl | hq
    · exact hc.elim
    · exact .inr ⟨q,hO hq,hc⟩
  have hmarks : ∀ q ∈ insert (Pc.stopSet n id) O, ∀ i, q.marks i → ∃ p' ∈ P', p'.marks i := by
    intro q hq i hm
    rcases Set.mem_insert_iff.mp hq with rfl | hq
    · exact hm.elim
    · exact ⟨q,hO hq,hm⟩
  rcases writeState_faulty hA.1 hw with ⟨-,rfl,-⟩ | ⟨herr,-,row,hen,-,rfl⟩
  · exact ⟨hG.keep rfl rfl (fun _ _ h => .inl h) hcar hmarks,.refl _ _⟩
  · refine ⟨hG.keep rfl rfl (fun m i hs => ?_) hcar hmarks,spares_setState rfl⟩
    by_cases hmn : m = n
    · obtain rfl : i = id := hT i (hmn ▸ hs)
      refine .inr (hnext ?_)
      by_contra hne
      exact hok (herr hne)
    · exact .inl (by rw [session_update,if_neg hmn]; exact hs)

theorem valid_move {e : SessionManager.Env} {m m' : SessionManager.Manager} {id : String}
    {pc pc' : SessionManager.Pc} (h : SessionManager.advance e m pc = (m',.inl pc'))
    (hs : Stopping id pc) : Valid m' pc' := by
  rcases (stopping_map h hs).2 with he | ⟨q,s,-,hs',he,hso⟩
  · cases pc with
    | stopLookup i =>
      simp only [SessionManager.advance,SessionManager.goto,SessionManager.reply] at h
      split at h
      · cases h; trivial
      · split at h
        · cases h; trivial
        · rename_i q hq s hs'
          split at h <;> cases h
          simp [Valid,SessionManager.Manager.assign,hs']
    | stopMark i q =>
      simp only [SessionManager.advance,SessionManager.reply] at h
      split at h
      · cases h
      · split at h <;> cases h
    | stopFetch i =>
      simp only [SessionManager.advance,SessionManager.goto,SessionManager.reply] at h
      split at h
      · cases h
      · cases h
      · split at h <;> cases h
        trivial
    | stopMarkRow i row =>
      simp only [SessionManager.advance,SessionManager.reply] at h
      split at h <;> cases h
    | _ => exact hs.elim
  · cases hso
    simp [Valid,he,hs']

theorem spares_stop {e : SessionManager.Env} {g : Engine} {p : Pc} {id : String} {pc : SessionManager.Pc}
    {m' : SessionManager.Manager} {l : Ledger} {so : SessionManager.Pc ⊕ SessionManager.Reply}
    (hadv : SessionManager.advance e g.mgr pc = (m',so)) (hs : Stopping id pc)
    (hl : g.ledger.created ⊆ l.created) : Spares g p { g with mgr := m', ledger := l } := by
  refine .manager (heap_grows hadv (.inr (.inl ⟨id,hs⟩))) hl ?_
  rintro i - hna ⟨r,hr,hact⟩
  exact hna ⟨r,stopping_active hadv hs hr hact,hact⟩

theorem tended_stopSession {e : Env} {g g' : Engine} {O : Set Pc} {n id : String} {pc : SessionManager.Pc}
    {o : Pc ⊕ Response} (hadv : advance e g (.stopSession n id pc) = (g',o))
    (hok : (Pc.stopSession n id pc).lossless e.fault) (hG : Tended g (insert (.stopSession n id pc) O))
    (hA : Aware g (.stopSession n id pc)) (hT : Minds g (.stopSession n id pc)) :
    Tended g' (inFlight O o) ∧ Spares g (.stopSession n id pc) g' ∧ MovedOn g' o := by
  have hs := hA.2.1
  have hmarks : ∀ i, (Pc.stopSession n id pc).marks i → ∃ q, pc = .stopMark id q := by
    intro i hm
    cases pc with
    | stopMark j q => obtain rfl : j = id := hs; exact ⟨q,rfl⟩
    | _ => exact hm.elim
  have hfetch : ∀ j, pc = .stopFetch j → e.toEnv.fault = none := by
    rintro j rfl
    exact hok
  have hmark : (∃ j q, pc = .stopMark j q) ∨ (∃ j row, pc = .stopMarkRow j row) →
      e.toEnv.fault ≠ some false := by
    rintro (⟨j,q,rfl⟩ | ⟨j,row,rfl⟩) <;> exact hok
  have hend : ∀ {m' v} (o' : Pc ⊕ Response), SessionManager.advance e.toEnv g.mgr pc = (m',.inr v) →
      Tended { g with mgr := m' } (inFlight O o') ∧
        Spares g (.stopSession n id pc) { g with mgr := m' } := by
    intro m' v o' hm
    refine ⟨tended_stop hG hm hs hT rfl (subset_inFlight O o') (fun i hc => ?_) hmarks ?_,
      spares_stop hm hs fun _ h => h⟩
    · exact ⟨hc.symm,hfetch,hmark,by rintro _ ⟨⟩⟩
    · rintro _ ⟨⟩
  simp only [advance,goto,reply] at hadv
  split at hadv <;> rename_i hm <;> cases hadv
  · refine ⟨tended_stop hG hm hs hT rfl (Set.subset_insert _ _) (fun i hc => ?_) hmarks ?_,
      spares_stop hm hs fun _ h => h,valid_move hm hs⟩
    · exact ⟨hc.symm,hfetch,hmark,fun _ _ => ⟨_,Set.mem_insert _ _,rfl⟩⟩
    · rintro q ⟨⟩
      exact ⟨_,Set.mem_insert _ _,rfl⟩
  · exact ⟨(hend (.inr _) hm).1,(hend (.inr .noContent) hm).2,trivial⟩
  · exact ⟨(hend (.inl (.stopSnapshot n id)) hm).1,(hend (.inr .noContent) hm).2,trivial⟩

theorem tended_endSession {e : Env} {g g' : Engine} {O : Set Pc} {id : String} {pc : SessionManager.Pc}
    {o : Pc ⊕ Response} (hadv : advance e g (.endSession id pc) = (g',o))
    (hok : (Pc.endSession id pc).lossless e.fault) (hG : Tended g (insert (.endSession id pc) O))
    (hs : Stopping id pc) (hT : Minds g (.endSession id pc)) :
    Tended g' (inFlight O o) ∧ Spares g (.endSession id pc) g' ∧ MovedOn g' o := by
  have hmarks : ∀ i, (Pc.endSession id pc).marks i → ∃ q, pc = .stopMark id q := by
    intro i hm
    cases pc with
    | stopMark j q => obtain rfl : j = id := hs; exact ⟨q,rfl⟩
    | _ => exact hm.elim
  have hcar : ∀ i, (Pc.endSession id pc).carries i → i = id ∧
      (∀ j, pc = .stopFetch j → e.toEnv.fault = none) ∧
      ((∃ j q, pc = .stopMark j q) ∨ (∃ j row, pc = .stopMarkRow j row) → e.toEnv.fault ≠ some false) ∧
      ∃ q, pc = .stopMark id q := by
    intro i hc
    cases pc with
    | stopMark j q =>
      obtain rfl : j = id := hs
      exact ⟨Eq.symm hc,by rintro _ ⟨⟩,fun _ => hok,q,rfl⟩
    | _ => exact hc.elim
  have hend : ∀ {m' v} (r : Response), SessionManager.advance e.toEnv g.mgr pc = (m',.inr v) →
      Tended (g.afterClose e.toEnv pc m') (inFlight O (.inr r)) ∧
        Spares g (.endSession id pc) (g.afterClose e.toEnv pc m') ∧
        MovedOn (g.afterClose e.toEnv pc m') (.inr r) := by
    intro m' v r hm
    refine ⟨tended_stop hG hm hs hT rfl subset_rfl (fun i hc => ?_) hmarks ?_,
      spares_stop hm hs fun _ h => h,trivial⟩
    · obtain ⟨hi,hf,hf',-⟩ := hcar i hc
      exact ⟨hi,hf,hf',by rintro _ ⟨⟩⟩
    · rintro _ ⟨⟩
  simp only [advance,goto,reply] at hadv
  split at hadv <;> rename_i hm <;> cases hadv
  · refine ⟨tended_stop hG hm hs hT rfl (Set.subset_insert _ _) (fun i hc => ?_) hmarks ?_,
      spares_stop hm hs fun _ h => h,valid_move hm hs⟩
    · obtain ⟨hi,hf,hf',q,rfl⟩ := hcar i hc
      simp only [SessionManager.advance,SessionManager.reply] at hm
      split at hm
      · cases hm
      · split at hm <;> cases hm
    · rintro q ⟨⟩
      exact ⟨_,Set.mem_insert _ _,rfl⟩
  all_goals exact hend _ hm

theorem tended_sweepStep {e : Env} {g g' : Engine} {O : Set Pc} {pc : SessionManager.Pc}
    {o : Pc ⊕ Response} (hadv : advance e g (.sweep pc) = (g',o)) (hS : Sound g (insert (.sweep pc) O))
    (hG : Tended g (insert (.sweep pc) O)) (hs : Sweeping pc) (hT : Minds g (.sweep pc)) :
    Tended g' (inFlight O o) ∧ Spares g (.sweep pc) g' ∧ MovedOn g' o := by
  have hspares : ∀ {m' so}, SessionManager.advance e.toEnv g.mgr pc = (m',so) →
      Spares g (.sweep pc) (g.afterClose e.toEnv pc m') := by
    intro m' so hm
    refine .manager (heap_grows hm (.inr (.inr hs))) (fun _ h => h) ?_
    rintro i - hna ⟨r,hr,hact⟩
    rcases (sweeping_rows hm hs i).2 r hr with hold | ⟨hst,-⟩
    · exact hna ⟨r,hold,hact⟩
    · rw [hact] at hst
      cases hst
  simp only [advance,goto,reply] at hadv
  split at hadv <;> rename_i hm <;> cases hadv
  · refine ⟨tended_sweep hG hm hs hT (Set.subset_insert _ _),hspares hm,?_⟩
    cases pc with
    | sweepStore idle =>
      simp only [SessionManager.advance,SessionManager.goto,SessionManager.reply] at hm
      split at hm <;> cases hm
      intro i hi
      obtain ⟨-,r,hr,hst⟩ := find_swept hi
      refine ⟨?_,?_⟩
      · rintro ⟨r',hr',hact⟩
        obtain rfl : r = r' := Option.some.inj (hr.symm.trans hr')
        rw [hst] at hact
        cases hact
      · have hf : g.mgr.store.find i ≠ none := by
          rw [(find_sweepIdle _ _ _ _).2] at hr
          intro hn
          rw [hn] at hr
          cases hr
        obtain ⟨n,hn⟩ := hS.known i hf
        exact List.mem_map.mpr ⟨_,hn,rfl⟩
    | sweepMark idle ids => cases hm
    | _ => exact hs.elim
  · exact ⟨tended_sweep hG hm hs hT subset_rfl,hspares hm,trivial⟩

/-- Everything an advancing handler can do to the sessions of the monitors. -/
theorem tended_step {e : Env} {g g' : Engine} {O : Set Pc} {p : Pc} {o : Pc ⊕ Response}
    (hadv : advance e g p = (g',o)) (hdraw : p.draws e g) (hok : p.lossless e.fault)
    (hS : Sound g (insert p O)) (hG : Tended g (insert p O)) (hA : Aware g p) (hT : Minds g p) :
    Tended g' (inFlight O o) ∧ Spares g p g' ∧ MovedOn g' o := by
  cases p with
  | subscribe req =>
    simp only [advance,goto,reply] at hadv
    split at hadv <;> cases hadv
    · exact tended_free hG (fun _ h => h) rfl rfl (fun _ => rfl) (fun _ h => h) trivial
    · split
      · exact tended_free hG (fun _ h => h) rfl rfl (fun _ => rfl) (fun _ h => h) trivial
      · refine tended_free hG (fun _ h => h) ?_ ?_ (session_upsert g req) (fun _ => monitors_ne_upsert) trivial
        · unfold Engine.upsert; split <;> rfl
        · unfold Engine.upsert; split <;> rfl
  | addStream req =>
    cases hadv
    exact tended_free hG (fun _ h => h) rfl rfl (fun _ => rfl) (fun _ h => h) trivial
  | resume n k =>
    simp only [advance,goto] at hadv
    split at hadv
    · cases hadv; exact tended_free hG (fun _ h => h) rfl rfl (fun _ => rfl) (fun _ h => h) trivial
    · split at hadv
      · split at hadv <;> cases hadv <;>
          exact tended_free hG (fun _ h => h) rfl rfl (fun _ => rfl) (fun _ h => h) trivial
      · cases hadv; exact tended_free hG (fun _ h => h) rfl rfl (fun _ => rfl) (fun _ h => h) trivial
  | resumePush n k row id =>
    cases hadv
    exact tended_free hG (fun _ h => h) rfl rfl (fun _ => rfl) (fun _ h => h) trivial
  | serve n k =>
    simp only [advance,goto,reply] at hadv
    split at hadv <;> cases hadv <;>
      exact tended_free hG (fun _ h => h) rfl rfl (fun _ => rfl) (fun _ h => h) trivial
  | startGet n body =>
    simp only [advance,goto,reply] at hadv
    split at hadv
    · cases hadv; exact tended_free hG (fun _ h => h) rfl rfl (fun _ => rfl) (fun _ h => h) trivial
    · split at hadv
      · cases hadv; exact tended_free hG (fun _ h => h) rfl rfl (fun _ => rfl) (fun _ h => h) trivial
      · cases hadv; exact tended_free hG (fun _ h => h) rfl rfl (fun _ => rfl) (fun _ h => h) trivial
      · rename_i row hget
        have hrow := (getMonitor_ok hget).2
        split at hadv <;> cases hadv
        · exact tended_free hG (fun _ h => h) rfl rfl (fun _ => rfl) (fun _ h => h) trivial
        · rename_i hen
          refine tended_free hG (fun _ h => h) rfl rfl (fun _ => rfl) (fun _ h => h) ⟨?_,?_,trivial⟩
          · simp [Engine.session,hrow,hen]
          · simp [hrow]
  | startSession n sn ls pc => exact tended_startSession hadv hdraw hok hG hA hT
  | startSet n sn ls id =>
    simp only [advance,goto,reply] at hadv
    split at hadv <;> rename_i hw <;> cases hadv
    · obtain ⟨h₁,h₂⟩ := tended_startSet hw hok hS hG hA hT (subset_inFlight O (.inr _))
      exact ⟨h₁,h₂,trivial⟩
    · obtain ⟨h₁,h₂⟩ := tended_startSet hw hok hS hG hA hT (subset_inFlight O (.inl _))
      exact ⟨h₁,h₂,trivial⟩
  | startSnapshot n sn ls id =>
    cases hadv
    exact tended_free hG (fun _ h => h) rfl rfl (fun _ => rfl) (fun _ h => h) trivial
  | startPush n sn ls id rest r =>
    simp only [advance,goto,reply] at hadv
    split at hadv <;> cases hadv <;>
      exact tended_free hG (fun _ h => h) rfl rfl (fun _ => rfl) (fun _ h => h) trivial
  | stopGet n =>
    simp only [advance,goto,reply] at hadv
    split at hadv
    · cases hadv; exact tended_free hG (fun _ h => h) rfl rfl (fun _ => rfl) (fun _ h => h) trivial
    · cases hadv; exact tended_free hG (fun _ h => h) rfl rfl (fun _ => rfl) (fun _ h => h) trivial
    · rename_i row hget
      split at hadv <;> cases hadv
      · rename_i id hen hid
        refine tended_free hG (fun _ h => h) rfl rfl (fun _ => rfl) (fun _ h => h) fun i hi => ?_
        have hses := session_eq_some.mpr ⟨row,(getMonitor_ok hget).2,hen,hid⟩
        exact Option.some.inj (hi.symm.trans hses)
      · exact tended_free hG (fun _ h => h) rfl rfl (fun _ => rfl) (fun _ h => h) trivial
  | stopSet n id =>
    simp only [advance,goto,reply] at hadv
    split at hadv <;> rename_i hw <;> cases hadv
    · obtain ⟨h₁,h₂⟩ := tended_stopSet hw hok hG hA hT (subset_inFlight O (.inr _)) (by rintro ⟨⟩)
      exact ⟨h₁,h₂,trivial⟩
    · obtain ⟨h₁,h₂⟩ := tended_stopSet hw hok hG hA hT (subset_inFlight O (.inl _))
        fun _ => ⟨.stopSession n id _,Set.mem_insert _ _,rfl⟩
      exact ⟨h₁,h₂,trivial⟩
  | stopSession n id pc => exact tended_stopSession hadv hok hG hA hT
  | stopSnapshot n id =>
    cases hadv
    exact tended_free hG (fun _ h => h) rfl rfl (fun _ => rfl) (fun _ h => h) trivial
  | stopPush n id rest r =>
    simp only [advance,goto,reply] at hadv
    split at hadv <;> cases hadv <;>
      exact tended_free hG (fun _ h => h) rfl rfl (fun _ => rfl) (fun _ h => h) trivial
  | endSession id pc => exact tended_endSession hadv hok hG hA hT
  | deleteSession id =>
    simp only [advance,reply] at hadv
    split at hadv <;> cases hadv
    · exact ⟨(tended_delete hG (by assumption) subset_rfl).1,(tended_delete hG (by assumption) subset_rfl).2,trivial⟩
    · exact tended_free hG (fun _ h => h) rfl rfl (fun _ => rfl) (fun _ h => h) trivial
    · exact tended_free hG (fun _ h => h) rfl rfl (fun _ => rfl) (fun _ h => h) trivial
    · exact ⟨(tended_delete hG (by assumption) subset_rfl).1,(tended_delete hG (by assumption) subset_rfl).2,trivial⟩
    · exact tended_free hG (fun _ h => h) rfl rfl (fun _ => rfl) (fun _ h => h) trivial
  | sweep pc => exact tended_sweepStep hadv hS hG hA hT

theorem tended_init (b : Backend) : Tended (init b).shared ∅ := by
  refine ⟨?_,?_,?_,?_,?_⟩ <;>
    simp [init,Engine.new,ActiveOf,SessionManager.Manager.new,Store.empty,Store.find]

theorem entry_minds (c : Call) (g : Engine) : Minds g (entry c) := by
  cases c <;> trivial

theorem run_tended {b : Backend} {acts : List Action} {t : State}
    (h : Run step (fun s a => Drawn s a ∧ Careful s a) (init b) acts t) :
    Pool.Holds (fun g _ P => Sound g P ∧ Tended g P) (fun p g _ => Aware g p ∧ Minds g p)
      (fun p q => Exclusive p q ∧ Alternate p q) t := by
  have hinit := sound_init b
  refine Pool.run_holds (fun p q hpq => ⟨exclusive_symm p q hpq.1,alternate_symm p q hpq.2⟩) ?_ ?_ ?_ h
    ⟨⟨hinit.shared,by simpa [init] using tended_init b⟩,by simp [init],by simp [init]⟩
  · rintro s c ⟨-,hok⟩ hs
    refine ⟨⟨hs.shared.1.invoke c,?_⟩,⟨entry_aware c _,entry_minds c _⟩,
      fun q hq => ⟨entry_exclusive c q,?_⟩⟩
    · refine hs.shared.2.keep rfl rfl (fun _ _ h => .inl h) (fun p hp n id hc _ => ?_) fun p hp id hm => ?_
      · exact .inr ⟨p,Set.mem_insert_of_mem _ hp,hc⟩
      · exact ⟨p,Set.mem_insert_of_mem _ hp,hm⟩
    · intro n ht
      cases c with
      | startMonitor m body => obtain rfl : m = n := ht; exact hok q hq
      | stopMonitor m => obtain rfl : m = n := ht; exact hok q hq
      | _ => exact ht.elim
  · rintro s i e p o g' p' ⟨hdraw,hok⟩ hp hperm hadv hG hT hTo hC
    have hx : ∀ q ∈ o, Exclusive p q := fun q hq => (hC q hq).1
    obtain ⟨hl,hS',hA'⟩ := sound_step hadv (hdraw p hp) hG.1 hT.1 hx
    obtain ⟨hG',hspare,hM'⟩ := tended_step hadv (hdraw p hp) (hok p hp) hG.1 hG.2 hT.1 hT.2
    refine ⟨⟨hS',hG'⟩,⟨hA',hM'⟩,fun q hq => ⟨(hTo q hq).1.stable hl (hx q hq),
      (hTo q hq).2.stable hspare (hC q hq).2⟩,fun q hq => ⟨?_,fun n ht => ?_⟩⟩
    · exact exclusive_move hadv (hdraw p hp) hG.1 hT.1 hq (hTo q hq).1 (hx q hq)
    · exact (hC q hq).2 n ((names_move hadv n).1 ht)
  · rintro s i e p o g' v ⟨hdraw,hok⟩ hp hperm hadv hG hT hTo hC
    have hx : ∀ q ∈ o, Exclusive p q := fun q hq => (hC q hq).1
    obtain ⟨hl,hS',-⟩ := sound_step hadv (hdraw p hp) hG.1 hT.1 hx
    obtain ⟨hG',hspare,-⟩ := tended_step hadv (hdraw p hp) (hok p hp) hG.1 hG.2 hT.1 hT.2
    exact ⟨⟨hS',hG'⟩,fun q hq => ⟨(hTo q hq).1.stable hl (hx q hq),
      (hTo q hq).2.stable hspare (hC q hq).2⟩⟩

/-- In every run the enabled rows are accounted for; in a careful one, whenever no handler runs,
every active session of a monitor is the one its row names, so there is at most one. -/
theorem monitor_sessions_accounted (b : Backend) (acts : List Action) (t : State)
    (h : Run step Drawn (init b) acts t) :
    (∀ n, Accounted t.shared n) ∧
    (Run step (fun s a => Drawn s a ∧ Careful s a) (init b) acts t → Quiet t →
      ∀ n id id', ActiveOf t.shared n id → ActiveOf t.shared n id' →
        id = id' ∧ t.shared.session n = some id) := by
  refine ⟨(run_sound h).shared.accounted,fun hc hquiet n id id' ha ha' => ?_⟩
  have hcov : ∀ i, ActiveOf t.shared n i → t.shared.session n = some i := by
    intro i hi
    rcases (run_tended hc).shared.2.covered n i hi with hs | ⟨p,hp,hcar⟩
    · exact hs
    · obtain ⟨m,k,rfl⟩ := hquiet p hp
      exact hcar.elim
  exact ⟨Option.some.inj ((hcov id ha).symm.trans (hcov id' ha')),hcov id ha⟩

/-- The enabled row of `n` names no active session. -/
def Dangling (t : State) (n : String) : Prop :=
  (∀ p ∈ t.threads, p.isServe = true) ∧ ∃ row ∈ t.shared.monitors n, row.captureEnabled = true ∧
    ∀ id ∈ row.activeSessionID, ∀ r ∈ t.shared.mgr.store.find id, r.status ≠ .active

/-- An active session of `n` that its row does not name. -/
def Orphaned (t : State) (n id : String) : Prop :=
  (∀ p ∈ t.threads, p.isServe = true) ∧ (id,n) ∈ t.shared.ledger.created ∧
    (∃ r ∈ t.shared.mgr.store.find id, r.status = .active) ∧ t.shared.session n ≠ some id

instance (t : State) (n : String) : Decidable (Dangling t n) := inferInstanceAs (Decidable (_ ∧ _))

instance (t : State) (n id : String) : Decidable (Orphaned t n id) := inferInstanceAs (Decidable (_ ∧ _))

theorem dangling_not_consistent {t : State} {n : String} (h : Dangling t n) : ¬ Consistent t := by
  obtain ⟨hserve,row,hrow,hen,hdead⟩ := h
  intro hc
  obtain ⟨id,r,hid,hr,hact⟩ := (hc (quiet_of_isServe hserve) n).1 row hrow hen
  exact hdead id hid r hr hact

theorem orphaned_not_consistent {t : State} {n id : String} (h : Orphaned t n id) : ¬ Consistent t := by
  obtain ⟨hserve,hc,⟨r,hr,hact⟩,hne⟩ := h
  exact fun hcon => hne ((hcon (quiet_of_isServe hserve) n).2 id ⟨hc,r,hr,hact⟩)

def captureRun : List Action := drive subscribeCall 0 3 ++ drive startCall 1 8

def capturedID : String := SessionManager.newID []

/-- Two captures of one client start at once: both have read the row before either writes it. -/
def overlapRun : List Action :=
  drive subscribeCall 0 3 ++ drive startCall 1 1 ++ drive startCall 2 8 { buf := [1] } ++
    List.replicate 7 (.advance 1 {} : Action)

/-- The capture state cannot be written once the session is created. -/
def unsetRun : List Action :=
  drive subscribeCall 0 3 ++ drive startCall 1 4 ++ ([.advance 1 { fault := some false }] : List Action)

/-- The session is stopped as a session, or deleted, or its row cannot be closed, two starts overlap, or
the row of a started session cannot be written. -/
theorem monitor_sessions_inconsistent :
    (∃ t ∈ exec step (init .postgres) (captureRun ++ drive (.stopSession capturedID) 1 2), ¬ Consistent t) ∧
    (∃ t ∈ exec step (init .postgres) (captureRun ++ drive (.deleteSession capturedID) 1 1),
      ¬ Consistent t) ∧
    (∃ t ∈ exec step (init .postgres) (captureRun ++ drive (.stopMonitor "api") 1 3 ++
      [.advance 1 { fault := some false }]), ¬ Consistent t) ∧
    (∃ t ∈ exec step (init .postgres) overlapRun, ¬ Consistent t) ∧
    (∃ t ∈ exec step (init .postgres) unsetRun, ¬ Consistent t) := by
  have h₁ : ∃ t ∈ exec step (init .postgres) (captureRun ++ drive (.stopSession capturedID) 1 2),
      Dangling t "api" := by decide +kernel
  have h₂ : ∃ t ∈ exec step (init .postgres) (captureRun ++ drive (.deleteSession capturedID) 1 1),
      Dangling t "api" := by decide +kernel
  have h₃ : ∃ t ∈ exec step (init .postgres) (captureRun ++ drive (.stopMonitor "api") 1 3 ++
      [.advance 1 { fault := some false }]), Orphaned t "api" capturedID := by decide +kernel
  have h₄ : ∃ t ∈ exec step (init .postgres) overlapRun,
      Orphaned t "api" (SessionManager.newID [1]) := by decide +kernel
  have h₅ : ∃ t ∈ exec step (init .postgres) unsetRun, Orphaned t "api" capturedID := by decide +kernel
  obtain ⟨t₁,ht₁,hd₁⟩ := h₁
  obtain ⟨t₂,ht₂,hd₂⟩ := h₂
  obtain ⟨t₃,ht₃,hd₃⟩ := h₃
  obtain ⟨t₄,ht₄,hd₄⟩ := h₄
  obtain ⟨t₅,ht₅,hd₅⟩ := h₅
  exact ⟨⟨t₁,ht₁,dangling_not_consistent hd₁⟩,⟨t₂,ht₂,dangling_not_consistent hd₂⟩,
    ⟨t₃,ht₃,orphaned_not_consistent hd₃⟩,⟨t₄,ht₄,orphaned_not_consistent hd₄⟩,
    ⟨t₅,ht₅,orphaned_not_consistent hd₅⟩⟩

/-- Two captures of one monitor, the first one stopped through the session route first. -/
def recaptureRun : List Action :=
  captureRun ++ drive (.stopSession capturedID) 1 2 ++ drive (.stopMonitor "api") 1 6 ++
    drive startCall 1 8 { buf := [1] }

theorem monitor_sessions_accounted_recaptureRun : ∃ t ∈ exec step (init .postgres) recaptureRun,
    (∀ n, Accounted t.shared n) ∧ ActiveOf t.shared "api" (SessionManager.newID [1]) ∧
      t.shared.session "api" = some (SessionManager.newID [1]) := by
  have h : ∃ t ∈ exec step (init .postgres) recaptureRun, (∀ p ∈ t.threads, p.isServe = true) ∧
      (SessionManager.newID [1],"api") ∈ t.shared.ledger.created ∧
      ∃ r ∈ t.shared.mgr.store.find (SessionManager.newID [1]), r.status = .active := by decide +kernel
  obtain ⟨t,ht,hserve,hcre,r,hr,hact⟩ := h
  have hrun : Run step (fun s a => Drawn s a ∧ Careful s a) (init .postgres) recaptureRun t :=
    Run.of_exec (by decide +kernel) (Option.mem_def.mp ht)
  have hactive : ActiveOf t.shared "api" (SessionManager.newID [1]) := ⟨hcre,r,hr,hact⟩
  have hacc := monitor_sessions_accounted .postgres recaptureRun t (hrun.mono fun _ _ h => h.1)
  exact ⟨t,ht,hacc.1,hactive,(hacc.2 hrun (quiet_of_isServe hserve) _ _ _ hactive hactive).2⟩

end ControlPlane
end Clearvoiance
