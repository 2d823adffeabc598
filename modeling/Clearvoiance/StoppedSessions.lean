import Clearvoiance.SessionManager

/-! Stopped sessions stay stopped: what it means, where the manager breaks it, and the
runs in which it holds. -/
namespace Clearvoiance
namespace SessionManager

open SessionStore Transition

/-- The reply tells its caller that session `id` has been stopped. -/
def Reply.Stops (id : String) : Reply → Prop
  | ⟨.stop i,.session _⟩ => i = id
  | ⟨.sweepIdle _,.closed ids⟩ => id ∈ ids
  | _ => False

instance (id : String) : DecidablePred (Reply.Stops id)
  | ⟨c,r⟩ => by cases c <;> cases r <;> unfold Reply.Stops <;> infer_instance

def Reply.Names (id : String) (r : Reply) : Prop :=
  match r.result with
  | .session s => s.id = id
  | _ => False

def Reply.ReturnsActive (id : String) (r : Reply) : Prop :=
  match r.result with
  | .session s => s.id = id ∧ s.status = .active
  | _ => False

instance (id : String) (r : Reply) : Decidable (r.ReturnsActive id) := by
  unfold Reply.ReturnsActive; split <;> infer_instance

def StoppedIn (id : String) (rs : List Reply) : Prop := ∃ r ∈ rs, r.Stops id

instance (id : String) (rs : List Reply) : Decidable (StoppedIn id rs) :=
  inferInstanceAs (Decidable (∃ r ∈ rs, r.Stops id))

/-- The in-memory entry of `id` is active. -/
def EntryActive (m : Manager) (id : String) : Prop :=
  ∃ p s, m.sessions id = some p ∧ m.heap[p]? = some s ∧ s.status = .active

/-- Once a reply said that an id is stopped, its entry is not active, no later reply hands
out an active session with that id, and a `Start` that prefers it gets an active session
under an id nobody was given before.  Replies are listed newest first. -/
structure StaysStopped (t : State) : Prop where
  entry : ∀ id, StoppedIn id t.replies → ¬ EntryActive t.shared id
  later : ∀ newer r older, t.replies = newer ++ r :: older → ∀ id, StoppedIn id older →
    ¬ r.ReturnsActive id
  restart : ∀ newer r older, t.replies = newer ++ r :: older → ∀ req, r.call = .start req →
    req.preferredID ≠ "" → StoppedIn req.preferredID older →
    ∃ s, r.result = .session s ∧ s.status = .active ∧ ∀ r' ∈ older, ¬ r'.Names s.id

/-- Calls that hand out session `id` or put it into the map. -/
def Pc.touches (id : String) : Pc → Prop
  | .startLookup req | .startCheck req _ | .startFetch req | .startHydrate req _
  | .startCreate req => req.preferredID = id ∧ id ≠ ""
  | .startInstall _ s => s.id = id
  | .getLookup i | .getFetch i | .getInstall i _ => i = id
  | _ => False

def Pc.stops (id : String) : Pc → Prop
  | .stopLookup i | .stopMark i _ | .stopFetch i | .stopMarkRow i _ => i = id
  | .sweepMark _ ids => id ∈ ids
  | _ => False

instance (id : String) : DecidablePred (Pc.touches id) := fun p => by
  induction p using Pc.casesOn <;> unfold Pc.touches <;> infer_instance

instance (id : String) : DecidablePred (Pc.stops id) := fun p => by
  induction p using Pc.casesOn <;> unfold Pc.stops <;> infer_instance

/-- Nothing in the engine knows `id` as a session that exists, existed or is being stopped. -/
def Unused (id : String) (t : State) : Prop :=
  t.shared.store.find id = none ∧ t.shared.sessions id = none ∧ ¬ StoppedIn id t.replies ∧
    ∀ p ∈ t.threads, ¬ p.stops id

instance (id : String) (t : State) : Decidable (Unused id t) :=
  inferInstanceAs (Decidable (_ ∧ _ ∧ _ ∧ _))

/-- The ids a step draws or picks by itself meet no other call. -/
def Pc.clear (e : Env) (t : State) : Pc → Prop
  | .startCreate req => req.preferredID = "" → Unused (newID e.buf) t
  | .sweepStore idle => ∀ id ∈ t.shared.store.idleIds idle e.now, ∀ p ∈ t.threads, ¬ p.touches id
  | _ => True

instance (e : Env) (t : State) (p : Pc) : Decidable (p.clear e t) := by
  induction p using Pc.casesOn <;> unfold Pc.clear <;> infer_instance

/-- Admitted steps: no `Start` prefers a stopped id, `newID` draws an unused one, and a
`Stop` or sweep of a session never overlaps a `Start` or `Get` of that same session. -/
def Undisturbed (t : State) : Action → Prop
  | .invoke (.start req) => req.preferredID ≠ "" →
      ¬ StoppedIn req.preferredID t.replies ∧ ∀ p ∈ t.threads, ¬ p.stops req.preferredID
  | .invoke (.get id) => ∀ p ∈ t.threads, ¬ p.stops id
  | .invoke (.stop id) => ∀ p ∈ t.threads, ¬ p.touches id
  | .invoke _ => True
  | .advance i e => ∀ p, t.threads[i]? = some p → p.clear e t

instance (t : State) : DecidablePred (Undisturbed t)
  | .invoke c => by induction c using Call.casesOn <;> unfold Undisturbed <;> infer_instance
  | .advance i e => match h : t.threads[i]? with
    | none => .isTrue (by simp [Undisturbed,h])
    | some p => decidable_of_iff (p.clear e t) (by simp [Undisturbed,h])

/-- Pointers a step may install under `id`. -/
def Pc.installs (id : String) : Pc → Prop
  | .startHydrate _ row | .getInstall _ row => row.id = id
  | .startInstall _ s => s.id = id
  | _ => False

def RowStopped (s : Store) (id : String) : Prop := ∃ r, s.find id = some r ∧ r.status = .stopped

/-- The map's pointer for `id` is valid. -/
def Pointed (m : Manager) (id : String) : Prop :=
  ∃ p s, m.sessions id = some p ∧ m.heap[p]? = some s ∧ s.id = id

/-- What any step leaves alone: pointers stay valid, nothing stopped becomes active again, and
only the ids in `new` are pointed elsewhere. -/
structure Evolves (new : String → Prop) (m m' : Manager) : Prop where
  backend : m'.store.backend = m.store.backend
  heap : ∀ (p : ℕ) (s : Session), m.heap[p]? = some s → ∃ s' : Session, m'.heap[p]? = some s' ∧
    s'.id = s.id ∧ (s.status = .stopped → s'.status = .stopped)
  sessions : ∀ id, m'.sessions id = m.sessions id ∨ (new id ∧ Pointed m' id)
  rows : ∀ id, RowStopped m.store id → RowStopped m'.store id

namespace Evolves

variable {new : String → Prop} {a b c m : Manager}

theorem refl (new : String → Prop) (m : Manager) : Evolves new m m :=
  ⟨rfl,fun _ s h => ⟨s,h,rfl,fun h => h⟩,fun _ => .inl rfl,fun _ h => h⟩

theorem pointed (h : Evolves new a b) {id : String} (hs : b.sessions id = a.sessions id)
    (hp : Pointed a id) : Pointed b id := by
  obtain ⟨p,s,hm,hh,hi⟩ := hp
  obtain ⟨s',hh',hi',-⟩ := h.heap p s hh
  exact ⟨p,s',hs.trans hm,hh',hi'.trans hi⟩

theorem trans (h₁ : Evolves new a b) (h₂ : Evolves new b c) : Evolves new a c := by
  refine ⟨h₂.backend.trans h₁.backend,fun p s hs => ?_,fun id => ?_,
    fun id h => h₂.rows id (h₁.rows id h)⟩
  · obtain ⟨s₁,hs₁,hi₁,ht₁⟩ := h₁.heap p s hs
    obtain ⟨s₂,hs₂,hi₂,ht₂⟩ := h₂.heap p s₁ hs₁
    exact ⟨s₂,hs₂,hi₂.trans hi₁,fun h => ht₂ (ht₁ h)⟩
  · rcases h₂.sessions id with he₂ | hn
    · rcases h₁.sessions id with he₁ | ⟨hn,hp⟩
      · exact .inl (he₂.trans he₁)
      · exact .inr ⟨hn,h₂.pointed he₂ hp⟩
    · exact .inr hn

theorem inactive (h : Evolves new a b) {id : String} (hs : b.sessions id = a.sessions id)
    (hp : a.sessions id ≠ none → Pointed a id) (hn : ¬ EntryActive a id) : ¬ EntryActive b id := by
  rintro ⟨p,s,hm,hh,hact⟩
  rw [hs] at hm
  obtain ⟨q,s₀,hq,hs₀,-⟩ := hp (by simp [hm])
  obtain rfl : q = p := Option.some.inj (hq.symm.trans hm)
  obtain ⟨s',hs',-,hst⟩ := h.heap q s₀ hs₀
  obtain rfl : s' = s := Option.some.inj (hs'.symm.trans hh)
  cases hstat : s₀.status with
  | active => exact hn ⟨q,s₀,hq,hs₀,hstat⟩
  | stopped => simp [hst hstat] at hact

theorem install (m : Manager) (s : Session) (h : new s.id) : Evolves new m (m.install s) := by
  refine ⟨rfl,fun p s' hs => ⟨s',?_,rfl,fun h => h⟩,fun id => ?_,fun _ h => h⟩
  · have hp := (List.getElem?_eq_some_iff.mp hs).1
    simpa [Manager.install,List.getElem?_append_left hp] using hs
  · by_cases hid : id = s.id
    · subst hid
      exact .inr ⟨h,m.heap.length,s,by simp [Manager.install],by simp [Manager.install],rfl⟩
    · exact .inl (by simp [Manager.install,hid])

theorem assign (m : Manager) (p : ℕ) (f : Session → Session) (hid : ∀ s, (f s).id = s.id)
    (hst : ∀ s, s.status = .stopped → (f s).status = .stopped) : Evolves new m (m.assign p f) := by
  refine ⟨rfl,fun q s hs => ?_,fun _ => .inl rfl,fun _ h => h⟩
  by_cases hq : p = q
  · exact ⟨f s,by simp [Manager.assign,hq,hs],hid s,hst s⟩
  · exact ⟨s,by simp [Manager.assign,hq,hs],rfl,fun h => h⟩

theorem withStore (m : Manager) (s : Store) (hb : s.backend = m.store.backend)
    (hr : ∀ id, RowStopped m.store id → RowStopped s id) : Evolves new m (m.withStore s) :=
  ⟨hb,fun _ s h => ⟨s,h,rfl,fun h => h⟩,fun _ => .inl rfl,hr⟩

theorem sweepMap (now : ℕ) (m : Manager) (ids : List String) : Evolves new m (sweepMap now m ids) := by
  induction ids generalizing m with
  | nil => exact refl new m
  | cons id ids ih =>
    simp only [SessionManager.sweepMap]
    split
    · exact ih m
    · exact (assign m _ (markSwept now) (fun _ => rfl) (fun _ _ => rfl)).trans (ih _)

end Evolves

/-- A statement that keeps the backend and every stopped row. -/
def Keeps (s : Store) (r : Except StoreError Store) : Prop :=
  ∀ s', r = .ok s' → s'.backend = s.backend ∧ ∀ id, RowStopped s id → RowStopped s' id

theorem keeps_create (s : Store) (row : SessionRow) : Keeps s (s.create row) := by
  intro s' h
  refine ⟨(find_create h "").1,fun id ⟨r,hr,hst⟩ => ⟨r,?_,hst⟩⟩
  rw [(find_create h id).2.1 (by simp [hr]),hr]

theorem keeps_markStopped (s : Store) (id : String) (now : ℕ) (ev by' : ℤ) :
    Keeps s (s.markStopped id now ev by') := by
  intro s' h
  refine ⟨(find_markStopped h "").1,fun id' ⟨r,hr,hst⟩ => ?_⟩
  have hf := (find_markStopped h id').2
  rw [hr] at hf
  split at hf
  · exact ⟨_,hf,rfl⟩
  · exact ⟨r,hf,hst⟩

theorem keeps_heartbeat (s : Store) (id : String) (now : ℕ) : Keeps s (s.heartbeat id now) := by
  intro s' h
  refine ⟨(find_heartbeat h "").1,fun id' ⟨r,hr,hst⟩ => ?_⟩
  have hf := (find_heartbeat h id').2
  rw [hr,Option.map_some,hst] at hf
  obtain ⟨r',hr',hst'⟩ := Option.map_eq_some_iff.mp hf
  exact ⟨r',hr',hst'⟩

theorem rowStopped_sweepIdle (s : Store) (idle now : ℕ) (id : String) (h : RowStopped s id) :
    RowStopped (s.sweepIdle idle now).1 id := by
  obtain ⟨r,hr,hst⟩ := h
  have hf := (find_sweepIdle s idle now id).2
  rw [hr,Option.map_some] at hf
  exact ⟨_,hf,by split <;> simp [hst]⟩

theorem Evolves.write {new : String → Prop} {m m' : Manager} {e : Env} {o : Option StoreError}
    {r : Except StoreError Store} (hr : Keeps m.store r) (hw : m.write e r = (o,m')) :
    Evolves new m m' := by
  rcases write_cases hw with ⟨s,rfl,rfl⟩ | ⟨-,rfl⟩
  · exact Evolves.withStore m s (hr s rfl).1 (hr s rfl).2
  · exact Evolves.refl new _

theorem advance_evolves {e : Env} {m m' : Manager} {p : Pc} {o : Pc ⊕ Reply}
    (h : advance e m p = (m',o)) : Evolves (p.installs) m m' := by
  cases p with
  | startLookup req =>
    simp only [advance,goto] at h
    split at h <;> cases h <;> exact .refl _ _
  | startCheck req existing =>
    simp only [advance,goto,reply] at h
    split at h
    · split at h <;> cases h <;> exact .refl _ _
    · cases h; exact .refl _ _
  | startFetch req =>
    simp only [advance,goto,reply] at h
    split at h <;> cases h <;> exact .refl _ _
  | startHydrate req row =>
    simp only [advance,goto,reply] at h
    split at h <;> cases h <;> exact .install m _ rfl
  | startCreate req =>
    simp only [advance,goto,reply] at h
    split at h <;> rename_i hw <;> cases h <;> exact .write (keeps_create _ _) hw
  | startInstall req s => cases h; exact .install m s rfl
  | getLookup id =>
    simp only [advance,goto,reply] at h
    split at h <;> cases h <;> exact .refl _ _
  | getFetch id =>
    simp only [advance,goto,reply] at h
    split at h
    · cases h; exact .refl _ _
    · cases h; exact .refl _ _
    · split at h <;> cases h <;> exact .refl _ _
  | getInstall id row =>
    simp only [advance,reply] at h
    split at h <;> cases h
    · exact .refl _ _
    · exact .install m _ rfl
  | stopLookup id =>
    simp only [advance,goto,reply] at h
    split at h
    · cases h; exact .refl _ _
    · split at h
      · cases h; exact .refl _ _
      · split at h <;> cases h
        · exact .refl _ _
        · exact .assign m _ _ (fun _ => rfl) (fun _ _ => rfl)
  | stopMark id q =>
    simp only [advance,reply] at h
    split at h
    · cases h; exact .refl _ _
    · split at h <;> rename_i hw <;> cases h <;> exact .write (keeps_markStopped _ _ _ _ _) hw
  | stopFetch id =>
    simp only [advance,goto,reply] at h
    split at h
    · cases h; exact .refl _ _
    · cases h; exact .refl _ _
    · split at h <;> cases h <;> exact .refl _ _
  | stopMarkRow id row =>
    simp only [advance,reply] at h
    split at h <;> rename_i hw <;> cases h <;> exact .write (keeps_markStopped _ _ _ _ _) hw
  | recordLookup id count bytes =>
    simp only [advance,goto,reply] at h
    split at h <;> cases h <;> exact .refl _ _
  | recordAdd id q count bytes => cases h; exact .assign m q _ (fun _ => rfl) (fun _ h => h)
  | recordAddBytes id q count bytes => cases h; exact .assign m q _ (fun _ => rfl) (fun _ h => h)
  | heartbeat id =>
    simp only [advance,reply] at h
    split at h <;> rename_i hw <;> cases h <;> exact .write (keeps_heartbeat _ _ _) hw
  | sweepStore idle =>
    have hsweep := @Evolves.withStore (Pc.installs · (.sweepStore idle)) m _
      (find_sweepIdle m.store idle e.now "").1 (rowStopped_sweepIdle m.store idle e.now)
    simp only [advance,goto,reply] at h
    split at h <;> cases h
    · exact hsweep
    · exact hsweep
    · exact .refl _ _
  | sweepMark idle ids => cases h; exact .sweepMap _ m ids

/-- The session of `id` is stopped wherever the backend remembers it. -/
structure Shut (m : Manager) (id : String) : Prop where
  entry : ¬ EntryActive m id
  row : m.store.backend = .postgres → RowStopped m.store id
  kept : m.store.backend = .noop → m.sessions id ≠ none

/-- What the manager owes to the replies given so far. -/
structure Settled (m : Manager) (rs : List Reply) : Prop where
  pointed : ∀ id, m.sessions id ≠ none → Pointed m id
  shut : ∀ id, StoppedIn id rs → Shut m id

/-- What a call in flight knows about the ids it works on. -/
def Local (m : Manager) (rs : List Reply) : Pc → Prop
  | .startLookup req | .startCreate req => req.preferredID ≠ "" → ¬ StoppedIn req.preferredID rs
  | .startFetch req => req.preferredID ≠ "" ∧ ¬ StoppedIn req.preferredID rs
  | .startCheck req existing => req.preferredID ≠ "" ∧ ¬ StoppedIn req.preferredID rs ∧
    ∀ p, existing = some p → ∃ s : Session, m.heap[p]? = some s ∧ s.id = req.preferredID
  | .startHydrate req row => req.preferredID ≠ "" ∧ ¬ StoppedIn req.preferredID rs ∧
    row.id = req.preferredID
  | .startInstall req s => (req.preferredID ≠ "" → s.id = req.preferredID) ∧ ¬ StoppedIn s.id rs
  | .getInstall id row => row.id = id ∧ ¬ StoppedIn id rs
  | .stopMark id p => m.sessions id = some p ∧ ∃ s, m.heap[p]? = some s ∧ s.status = .stopped
  | .stopFetch id => m.sessions id = none
  | .stopMarkRow id _ => m.sessions id = none ∧ m.store.backend = .postgres
  | .sweepMark _ ids => ∀ id ∈ ids, RowStopped m.store id ∧ m.store.backend = .postgres
  | _ => True

/-- A stop of a session and a call that hands it out do not meet. -/
def Apart (p q : Pc) : Prop := ∀ id, (p.stops id → ¬ q.touches id) ∧ (q.stops id → ¬ p.touches id)

theorem apart_symm (p q : Pc) (h : Apart p q) : Apart q p := fun id => ⟨(h id).2,(h id).1⟩

theorem stoppedIn_cons {id : String} {v : Reply} {rs : List Reply} :
    StoppedIn id (v :: rs) ↔ v.Stops id ∨ StoppedIn id rs := by
  simp [StoppedIn]

theorem Shut.stable {m m' : Manager} {new : String → Prop} {id : String} (h : Shut m id)
    (hev : Evolves new m m') (hp : m.sessions id ≠ none → Pointed m id) (hnew : ¬ new id) :
    Shut m' id := by
  have hs : m'.sessions id = m.sessions id := (hev.sessions id).resolve_right fun h => hnew h.1
  exact ⟨hev.inactive hs hp h.entry,fun hb => hev.rows id (h.row (hev.backend ▸ hb)),
    fun hb => hs ▸ h.kept (hev.backend ▸ hb)⟩

theorem Settled.stable {m m' : Manager} {rs : List Reply} {new : String → Prop}
    (h : Settled m rs) (hev : Evolves new m m') (hnew : ∀ id, new id → ¬ StoppedIn id rs) :
    Settled m' rs := by
  refine ⟨fun id hid => ?_,fun id hid => ?_⟩
  · rcases hev.sessions id with he | ⟨-,hp⟩
    · exact hev.pointed he (h.pointed id (he ▸ hid))
    · exact hp
  · exact (h.shut id hid).stable hev (h.pointed id) fun hn => hnew id hn hid

theorem Local.stable {m m' : Manager} {rs rs' : List Reply} {q : Pc} {new : String → Prop}
    (h : Local m rs q) (hev : Evolves new m m') (hnew : ∀ id, new id → ¬ q.stops id)
    (hrs : ∀ id, q.touches id → StoppedIn id rs' → StoppedIn id rs) : Local m' rs' q := by
  have hsame : ∀ id, q.stops id → m'.sessions id = m.sessions id := by
    intro id hid
    rcases hev.sessions id with he | ⟨hn,-⟩
    · exact he
    · exact absurd hid (hnew id hn)
  cases q with
  | startLookup req | startCreate req => exact fun hne hst => h hne (hrs _ ⟨rfl,hne⟩ hst)
  | startFetch req => exact ⟨h.1,fun hst => h.2 (hrs _ ⟨rfl,h.1⟩ hst)⟩
  | startCheck req existing =>
    obtain ⟨hne,hst,hp⟩ := h
    refine ⟨hne,fun hst' => hst (hrs _ ⟨rfl,hne⟩ hst'),fun p hex => ?_⟩
    obtain ⟨s,hs,hi⟩ := hp p hex
    obtain ⟨s',hs',hi',-⟩ := hev.heap p s hs
    exact ⟨s',hs',hi'.trans hi⟩
  | startHydrate req row =>
    obtain ⟨hne,hst,hrow⟩ := h
    exact ⟨hne,fun hst' => hst (hrs _ ⟨rfl,hne⟩ hst'),hrow⟩
  | startInstall req s => exact ⟨h.1,fun hst => h.2 (hrs _ rfl hst)⟩
  | getInstall id row => exact ⟨h.1,fun hst => h.2 (hrs _ rfl hst)⟩
  | stopMark id p =>
    obtain ⟨hp,s,hs,hst⟩ := h
    obtain ⟨s',hs',-,hst'⟩ := hev.heap p s hs
    exact ⟨(hsame id rfl).trans hp,s',hs',hst' hst⟩
  | stopFetch id => exact (hsame id rfl).trans h
  | stopMarkRow id row => exact ⟨(hsame id rfl).trans h.1,hev.backend.trans h.2⟩
  | sweepMark idle ids => exact fun id hid => ⟨hev.rows id (h id hid).1,hev.backend.trans (h id hid).2⟩
  | _ => trivial

theorem Local.installs {m : Manager} {rs : List Reply} {p : Pc} (h : Local m rs p) {id : String}
    (hi : p.installs id) : p.touches id ∧ ¬ StoppedIn id rs := by
  cases p with
  | startHydrate req row => obtain rfl := hi; exact ⟨⟨h.2.2.symm,h.2.2 ▸ h.1⟩,h.2.2 ▸ h.2.1⟩
  | startInstall req s => obtain rfl := hi; exact ⟨rfl,h.2⟩
  | getInstall i row => obtain rfl := hi; exact ⟨h.1.symm,h.1 ▸ h.2⟩
  | _ => exact hi.elim

/-- An entry that a lookup finds belongs to the id looked up, and is not active once the id
has been stopped. -/
theorem Settled.lookup {m : Manager} {rs : List Reply} (h : Settled m rs) {id : String} {s : Session}
    (hl : (m.sessions id).bind (m.heap[·]?) = some s) :
    s.id = id ∧ (StoppedIn id rs → s.status ≠ .active) := by
  obtain ⟨p,hp,hs⟩ := Option.bind_eq_some_iff.mp hl
  obtain ⟨q,s',hq,hs',hi⟩ := h.pointed id (by simp [hp])
  obtain rfl : q = p := Option.some.inj (hq.symm.trans hp)
  obtain rfl : s' = s := Option.some.inj (hs'.symm.trans hs)
  exact ⟨hi,fun hst hact => (h.shut id hst).entry ⟨q,s',hq,hs',hact⟩⟩

/-- What a call in flight knows after a step that did not finish it. -/
theorem local_move {e : Env} {t : State} {m' : Manager} {p p' : Pc}
    (h : advance e t.shared p = (m',.inl p')) (hok : p.clear e t)
    (hG : Settled t.shared t.replies) (hT : Local t.shared t.replies p) :
    Local m' t.replies p' := by
  cases p with
  | startLookup req =>
    simp only [advance,goto] at h
    split at h <;> rename_i hne <;> cases h
    · exact fun h => absurd hne h
    · refine ⟨hne,hT hne,fun q hq => ?_⟩
      obtain ⟨q',s,hq',hs,hi⟩ := hG.pointed req.preferredID (by simp [hq])
      obtain rfl : q' = q := Option.some.inj (hq'.symm.trans hq)
      exact ⟨s,hs,hi⟩
  | startCheck req existing =>
    simp only [advance,goto,reply] at h
    split at h
    · split at h <;> cases h
      exact ⟨hT.1,hT.2.1⟩
    · cases h
      exact ⟨hT.1,hT.2.1⟩
  | startFetch req =>
    simp only [advance,goto,reply] at h
    split at h
    · cases h; exact fun _ => hT.2
    · cases h
    · rename_i hf
      cases h
      exact ⟨hT.1,hT.2,find_id (fetch_ok hf).2⟩
  | startHydrate req row =>
    simp only [advance,goto,reply] at h
    split at h <;> cases h
    exact fun _ => hT.2.1
  | startCreate req =>
    simp only [advance,goto,reply] at h
    split at h <;> cases h
    by_cases hne : req.preferredID = ""
    · exact ⟨fun h => absurd hne h,by simpa [freshSession,hne] using (hok hne).2.2.1⟩
    · exact ⟨fun _ => by simp [freshSession,hne],by simpa [freshSession,hne] using hT hne⟩
  | startInstall req s => cases h
  | getLookup id =>
    simp only [advance,goto,reply] at h
    split at h <;> cases h
    trivial
  | getFetch id =>
    simp only [advance,goto,reply] at h
    split at h
    · cases h
    · cases h
    · rename_i hf
      split at h <;> cases h
      rename_i hact
      obtain ⟨hb,hrow⟩ := fetch_ok hf
      refine ⟨find_id hrow,fun hst => ?_⟩
      obtain ⟨r,hr,hstop⟩ := (hG.shut id hst).row hb
      rw [Option.some.inj (hr.symm.trans hrow),hact] at hstop
      cases hstop
  | getInstall id row =>
    simp only [advance,reply] at h
    split at h <;> cases h
  | stopLookup id =>
    simp only [advance,goto,reply] at h
    split at h
    · rename_i hnone; cases h; exact hnone
    · rename_i q hq
      obtain ⟨q',s',hq',hs',-⟩ := hG.pointed id (by simp [hq])
      obtain rfl : q' = q := Option.some.inj (hq'.symm.trans hq)
      simp only [hs'] at h
      split at h <;> cases h
      exact ⟨hq,markStopped e.now s',by simp [Manager.assign,hs'],rfl⟩
  | stopMark id q =>
    simp only [advance,reply] at h
    split at h
    · cases h
    · split at h <;> cases h
  | stopFetch id =>
    simp only [advance,goto,reply] at h
    split at h
    · cases h
    · cases h
    · rename_i hf
      split at h <;> cases h
      exact ⟨hT,(fetch_ok hf).1⟩
  | stopMarkRow id row =>
    simp only [advance,reply] at h
    split at h <;> cases h
  | recordLookup id count bytes =>
    simp only [advance,goto,reply] at h
    split at h <;> cases h
    trivial
  | recordAdd id q count bytes => cases h; trivial
  | recordAddBytes id q count bytes => cases h
  | heartbeat id =>
    simp only [advance,reply] at h
    split at h <;> cases h
  | sweepStore idle =>
    simp only [advance,goto,reply] at h
    split at h <;> cases h
    exact fun id hid => ⟨(find_swept hid).2,
      (find_sweepIdle t.shared.store idle e.now "").1.trans (find_swept hid).1⟩
  | sweepMark idle ids => cases h

/-- A call keeps to its ids, except that a sweep picks the idle ones and `newID` draws one. -/
theorem move_names {e : Env} {m m' : Manager} {p p' : Pc} (h : advance e m p = (m',.inl p'))
    (id : String) :
    (p'.stops id → p.stops id ∨ ∃ idle, p = .sweepStore idle ∧ id ∈ m.store.idleIds idle e.now) ∧
    (p'.touches id → p.touches id ∨
      ∃ req, p = .startCreate req ∧ req.preferredID = "" ∧ id = newID e.buf) := by
  cases p with
  | startLookup req =>
    simp only [advance,goto] at h
    split at h <;> cases h <;> exact ⟨False.elim,.inl⟩
  | startCheck req existing =>
    simp only [advance,goto,reply] at h
    split at h
    · split at h <;> cases h
      exact ⟨False.elim,.inl⟩
    · cases h; exact ⟨False.elim,.inl⟩
  | startFetch req =>
    simp only [advance,goto,reply] at h
    split at h <;> cases h <;> exact ⟨False.elim,.inl⟩
  | startHydrate req row =>
    simp only [advance,goto,reply] at h
    split at h <;> cases h
    exact ⟨False.elim,.inl⟩
  | startCreate req =>
    simp only [advance,goto,reply] at h
    split at h <;> cases h
    refine ⟨False.elim,fun hid => ?_⟩
    by_cases hne : req.preferredID = ""
    · exact .inr ⟨req,rfl,hne,by simpa [Pc.touches,freshSession,hne] using hid.symm⟩
    · have hi : req.preferredID = id := by simpa [Pc.touches,freshSession,hne] using hid
      exact .inl ⟨hi,hi ▸ hne⟩
  | startInstall req s => cases h
  | getLookup i =>
    simp only [advance,goto,reply] at h
    split at h <;> cases h
    exact ⟨False.elim,.inl⟩
  | getFetch i =>
    simp only [advance,goto,reply] at h
    split at h
    · cases h
    · cases h
    · split at h <;> cases h
      exact ⟨False.elim,.inl⟩
  | getInstall i row =>
    simp only [advance,reply] at h
    split at h <;> cases h
  | stopLookup i =>
    simp only [advance,goto,reply] at h
    split at h
    · cases h; exact ⟨.inl,False.elim⟩
    · split at h
      · cases h; exact ⟨.inl,False.elim⟩
      · split at h <;> cases h
        exact ⟨.inl,False.elim⟩
  | stopMark i q =>
    simp only [advance,reply] at h
    split at h
    · cases h
    · split at h <;> cases h
  | stopFetch i =>
    simp only [advance,goto,reply] at h
    split at h
    · cases h
    · cases h
    · split at h <;> cases h
      exact ⟨.inl,False.elim⟩
  | stopMarkRow i row =>
    simp only [advance,reply] at h
    split at h <;> cases h
  | recordLookup i count bytes =>
    simp only [advance,goto,reply] at h
    split at h <;> cases h
    exact ⟨False.elim,False.elim⟩
  | recordAdd i q count bytes => cases h; exact ⟨False.elim,False.elim⟩
  | recordAddBytes i q count bytes => cases h
  | heartbeat i =>
    simp only [advance,reply] at h
    split at h <;> cases h
  | sweepStore idle =>
    simp only [advance,goto,reply] at h
    split at h <;> cases h
    rw [sweepIdle_ids]
    exact ⟨fun hid => .inr ⟨idle,rfl,hid⟩,False.elim⟩
  | sweepMark idle ids => cases h

theorem apart_move {e : Env} {t : State} {m' : Manager} {p p' q : Pc}
    (h : advance e t.shared p = (m',.inl p')) (hok : p.clear e t) (hq : q ∈ t.threads)
    (hpq : Apart p q) : Apart p' q := by
  intro id
  obtain ⟨hstops,htouches⟩ := move_names h id
  refine ⟨fun hs ht => ?_,fun hs ht => ?_⟩
  · rcases hstops hs with hs | ⟨idle,rfl,hid⟩
    · exact (hpq id).1 hs ht
    · exact hok id hid q hq ht
  · rcases htouches ht with ht | ⟨req,rfl,hne,rfl⟩
    · exact (hpq id).2 hs ht
    · exact (hok hne).2.2.2 q hq hs

/-- A finishing call reports a stop only of an id it was stopping, returns no active session
of a stopped id, and answers no `Start` that prefers one. -/
structure Honest (p : Pc) (rs : List Reply) (v : Reply) : Prop where
  stops : ∀ id, v.Stops id → p.stops id
  active : ∀ id, StoppedIn id rs → ¬ v.ReturnsActive id
  start : ∀ req, v.call = .start req → req.preferredID ≠ "" → ¬ StoppedIn req.preferredID rs

theorem honest_error (p : Pc) (rs : List Reply) (c : Call) (e : Err)
    (hstart : ∀ req, c = .start req → req.preferredID ≠ "" → ¬ StoppedIn req.preferredID rs) :
    Honest p rs ⟨c,.error e⟩ :=
  ⟨by cases c <;> exact fun _ h => h.elim,fun _ _ h => h,hstart⟩

theorem honest_session (p : Pc) (rs : List Reply) (c : Call) (s : Session)
    (hstops : ∀ id, c = .stop id → p.stops id) (hact : s.status = .active → ¬ StoppedIn s.id rs)
    (hstart : ∀ req, c = .start req → req.preferredID ≠ "" → ¬ StoppedIn req.preferredID rs) :
    Honest p rs ⟨c,.session s⟩ := by
  refine ⟨fun id h => ?_,fun id hst h => ?_,hstart⟩
  · cases c with
    | stop i => exact hstops id (congrArg Call.stop h)
    | _ => exact h.elim
  · obtain ⟨rfl,hs⟩ := h
    exact hact hs hst

theorem reply_honest {e : Env} {m m' : Manager} {rs : List Reply} {p : Pc} {v : Reply}
    (h : advance e m p = (m',.inr v)) (hG : Settled m rs) (hT : Local m rs p) : Honest p rs v := by
  cases p with
  | startLookup req =>
    simp only [advance,goto] at h
    split at h <;> cases h
  | startCheck req existing =>
    obtain ⟨hne,hst,hp⟩ := hT
    simp only [advance,goto,reply] at h
    split at h
    · rename_i s hs
      split at h <;> cases h
      obtain ⟨q,rfl,hq⟩ := Option.bind_eq_some_iff.mp hs
      obtain ⟨s',hs',hi⟩ := hp q rfl
      obtain rfl : s' = s := Option.some.inj (hs'.symm.trans hq)
      refine honest_session _ _ _ _ (by simp) (fun _ => hi ▸ hst) ?_
      rintro _ ⟨⟩ -
      exact hst
    · cases h
  | startFetch req =>
    simp only [advance,goto,reply] at h
    split at h <;> cases h
    refine honest_error _ _ _ _ ?_
    rintro _ ⟨⟩ -
    exact hT.2
  | startHydrate req row =>
    simp only [advance,goto,reply] at h
    split at h <;> cases h
    refine honest_session _ _ _ _ (by simp) (fun _ => ?_) ?_
    · simpa [hydrate,hT.2.2] using hT.2.1
    · rintro _ ⟨⟩ -
      exact hT.2.1
  | startCreate req =>
    simp only [advance,goto,reply] at h
    split at h <;> cases h
    refine honest_error _ _ _ _ ?_
    rintro _ ⟨⟩
    exact hT
  | startInstall req s =>
    cases h
    refine honest_session _ _ _ _ (by simp) (fun _ => hT.2) ?_
    rintro _ ⟨⟩ hne
    exact hT.1 hne ▸ hT.2
  | getLookup id =>
    simp only [advance,goto,reply] at h
    split at h <;> cases h
    rename_i hs
    obtain ⟨rfl,hst⟩ := hG.lookup hs
    exact honest_session _ _ _ _ (by simp) (fun ha hs => hst hs ha) (by simp)
  | getFetch id =>
    simp only [advance,goto,reply] at h
    split at h
    · cases h; exact honest_error _ _ _ _ (by simp)
    · cases h; exact honest_error _ _ _ _ (by simp)
    · split at h <;> cases h
      exact honest_error _ _ _ _ (by simp)
  | getInstall id row =>
    simp only [advance,reply] at h
    split at h <;> cases h
    · rename_i hs
      obtain ⟨rfl,hst⟩ := hG.lookup hs
      exact honest_session _ _ _ _ (by simp) (fun ha hs => hst hs ha) (by simp)
    · exact honest_session _ _ _ _ (by simp) (fun _ => by simpa [rehydrate,hT.1] using hT.2) (by simp)
  | stopLookup id =>
    simp only [advance,goto,reply] at h
    split at h
    · cases h
    · split at h
      · cases h
      · split at h <;> cases h
        exact honest_error _ _ _ _ (by simp)
  | stopMark id q =>
    obtain ⟨-,s,hs,hst⟩ := hT
    simp only [advance,reply,hs] at h
    split at h <;> cases h
    · exact honest_error _ _ _ _ (by simp)
    · exact honest_session _ _ _ _ (by rintro _ ⟨⟩; rfl) (by simp [hst]) (by simp)
  | stopFetch id =>
    simp only [advance,goto,reply] at h
    split at h
    · cases h; exact honest_error _ _ _ _ (by simp)
    · cases h; exact honest_error _ _ _ _ (by simp)
    · split at h <;> cases h
      exact honest_error _ _ _ _ (by simp)
  | stopMarkRow id row =>
    simp only [advance,reply] at h
    split at h <;> cases h
    · exact honest_error _ _ _ _ (by simp)
    · exact honest_session _ _ _ _ (by rintro _ ⟨⟩; rfl) (by simp [stoppedRow]) (by simp)
  | recordLookup id count bytes =>
    simp only [advance,goto,reply] at h
    split at h <;> cases h
    exact ⟨fun _ h => h.elim,fun _ _ h => h,by simp⟩
  | recordAdd id q count bytes => cases h
  | recordAddBytes id q count bytes =>
    cases h
    exact ⟨fun _ h => h.elim,fun _ _ h => h,by simp⟩
  | heartbeat id =>
    simp only [advance,reply] at h
    split at h <;> cases h
    · exact honest_error _ _ _ _ (by simp)
    · exact ⟨fun _ h => h.elim,fun _ _ h => h,by simp⟩
  | sweepStore idle =>
    simp only [advance,goto,reply] at h
    split at h <;> cases h <;> exact honest_error _ _ _ _ (by simp)
  | sweepMark idle ids =>
    cases h
    exact ⟨fun _ h => h,fun _ _ h => h,by simp⟩

theorem rowStopped_markStopped {s s' : Store} {id : String} {now : ℕ} {ev by' : ℤ}
    (h : s.markStopped id now ev by' = .ok s') (hb : s'.backend = .postgres) : RowStopped s' id := by
  have hf := find_markStopped h id
  rw [hf.1] at hb
  have hrow := hf.2
  simp only [hb,true_and,if_true] at hrow
  obtain ⟨r,hr⟩ : ∃ r, s.find id = some r := by
    simp only [Store.markStopped,hb] at h
    split at h
    · cases h
    · exact ⟨_,by assumption⟩
  exact ⟨_,by rw [hrow,hr]; rfl,rfl⟩

theorem sweepMap_inactive (now : ℕ) {m : Manager} {ids : List String}
    (hp : ∀ id, m.sessions id ≠ none → Pointed m id) {id : String} (hid : id ∈ ids) :
    ¬ EntryActive (sweepMap now m ids) id := by
  induction ids generalizing m with
  | nil => cases hid
  | cons i ids ih =>
    simp only [sweepMap]
    cases hi : m.sessions i with
    | none =>
      rcases List.mem_cons.mp hid with rfl | hid
      · have hev := @Evolves.sweepMap (fun _ => False) now m ids
        refine hev.inactive (by simpa using hev.sessions id) (hp id) ?_
        rintro ⟨p,s,hs,-⟩
        simp [hi] at hs
      · exact ih hp hid
    | some p =>
      have hev := @Evolves.assign (fun _ => False) m p (markSwept now) (fun _ => rfl) (fun _ _ => rfl)
      have hp' : ∀ id, (m.assign p (markSwept now)).sessions id ≠ none →
          Pointed (m.assign p (markSwept now)) id := fun id hs => hev.pointed rfl (hp id hs)
      rcases List.mem_cons.mp hid with rfl | hid
      · have hev' := @Evolves.sweepMap (fun _ => False) now (m.assign p (markSwept now)) ids
        refine hev'.inactive (by simpa using hev'.sessions id) (hp' id) ?_
        rintro ⟨q,s,hq,hs,hact⟩
        obtain rfl : p = q := Option.some.inj (hi.symm.trans hq)
        simp only [Manager.assign,List.getElem?_modify,if_true] at hs
        obtain ⟨s₀,-,rfl⟩ := Option.map_eq_some_iff.mp hs
        cases hact
      · exact ih hp' hid

theorem reply_shut {e : Env} {m m' : Manager} {rs : List Reply} {p : Pc} {v : Reply}
    (h : advance e m p = (m',.inr v)) (hG : Settled m rs) (hT : Local m rs p) {id : String}
    (hv : v.Stops id) : Shut m' id := by
  cases p with
  | stopLookup i =>
    simp only [advance,goto,reply] at h
    split at h
    · cases h
    · split at h
      · cases h
      · split at h <;> cases h
        exact hv.elim
  | stopMark i q =>
    obtain ⟨hq,s,hs,hst⟩ := hT
    simp only [advance,reply,hs] at h
    split at h <;> rename_i hw <;> cases h
    · exact hv.elim
    · obtain rfl : i = id := hv
      rcases write_cases hw with ⟨s',hmark,rfl⟩ | ⟨hne,-⟩
      · refine ⟨?_,rowStopped_markStopped hmark,fun _ => by simp [Manager.withStore,hq]⟩
        rintro ⟨q',s'',hq',hs'',hact⟩
        obtain rfl : q = q' := Option.some.inj (hq.symm.trans hq')
        obtain rfl : s = s'' := Option.some.inj (hs.symm.trans hs'')
        simp [hst] at hact
      · exact absurd rfl hne
  | stopFetch i =>
    simp only [advance,goto,reply] at h
    split at h
    · cases h; exact hv.elim
    · cases h; exact hv.elim
    · split at h <;> cases h
      exact hv.elim
  | stopMarkRow i row =>
    simp only [advance,reply] at h
    split at h <;> rename_i hw <;> cases h
    · exact hv.elim
    · obtain rfl : i = id := hv
      rcases write_cases hw with ⟨s',hmark,rfl⟩ | ⟨hne,-⟩
      · refine ⟨?_,rowStopped_markStopped hmark,fun hb => ?_⟩
        · rintro ⟨q,s,hq,-⟩
          simp [Manager.withStore,hT.1] at hq
        · rw [show (m.withStore s').store.backend = m.store.backend from (find_markStopped hmark "").1,
            hT.2] at hb
          cases hb
      · exact absurd rfl hne
  | sweepMark idle ids =>
    cases h
    have hev := @Evolves.sweepMap (fun _ => False) e.now m ids
    obtain ⟨hrow,hb⟩ := hT id hv
    refine ⟨sweepMap_inactive e.now hG.pointed hv,fun _ => hev.rows id hrow,fun hn => ?_⟩
    rw [hev.backend,hb] at hn
    cases hn
  | _ => exact ((reply_honest h hG hT).stops id hv).elim

/-- Every reply is honest about the replies before it. -/
def Orderly : List Reply → Prop
  | [] => True
  | v :: rs => (∃ p, Honest p rs v) ∧ Orderly rs

theorem Orderly.of_append {newer : List Reply} {r : Reply} {older : List Reply}
    (h : Orderly (newer ++ r :: older)) : ∃ p, Honest p older r := by
  induction newer with
  | nil => exact h.1
  | cons v newer ih => exact ih h.2

theorem holds_init (b : Backend) :
    Pool.Holds (fun m rs _ => Settled m rs ∧ Orderly rs) (fun p m rs => Local m rs p) Apart (init b) := by
  refine ⟨⟨⟨fun id h => absurd rfl h,fun id h => ?_⟩,trivial⟩,by simp [init],by simp [init]⟩
  obtain ⟨r,hr,-⟩ := h
  cases hr

theorem invoke_holds {t : State} {c : Call} (hok : Undisturbed t (.invoke c)) :
    Local t.shared t.replies (entry c) ∧ ∀ q ∈ t.threads, Apart (entry c) q := by
  cases c with
  | start req =>
    refine ⟨fun hne => (hok hne).1,fun q hq id => ⟨False.elim,fun hst htc => ?_⟩⟩
    obtain ⟨rfl,hne⟩ := htc
    exact (hok hne).2 q hq hst
  | get i =>
    refine ⟨trivial,fun q hq id => ⟨False.elim,fun hst htc => ?_⟩⟩
    obtain rfl := htc
    exact hok q hq hst
  | stop i =>
    refine ⟨trivial,fun q hq id => ⟨fun hst htc => ?_,fun _ h => h⟩⟩
    obtain rfl := hst
    exact hok q hq htc
  | _ => exact ⟨trivial,fun q hq id => ⟨False.elim,fun _ h => h⟩⟩

theorem run_holds {b : Backend} {acts : List Action} {t : State}
    (h : Run step Undisturbed (init b) acts t) :
    Pool.Holds (fun m rs _ => Settled m rs ∧ Orderly rs) (fun p m rs => Local m rs p) Apart t := by
  refine Pool.run_holds apart_symm ?_ ?_ ?_ h (holds_init b)
  · intro s c hok hs
    exact ⟨hs.shared,invoke_holds hok⟩
  · intro s i e p o m' p' hok hp hperm hadv hG hT hTo hC
    have hclear := hok p hp
    have hmem : ∀ q ∈ o, q ∈ s.threads := fun q hq => hperm.symm.subset (List.mem_cons_of_mem p hq)
    have hev := advance_evolves hadv
    refine ⟨⟨hG.1.stable hev fun id hi => (hT.installs hi).2,hG.2⟩,local_move hadv hclear hG.1 hT,
      fun q hq => ?_,fun q hq => apart_move hadv hclear (hmem q hq) (hC q hq)⟩
    exact (hTo q hq).stable hev (fun id hi hs => (hC q hq id).2 hs (hT.installs hi).1) fun _ _ h => h
  · intro s i e p o m' v hok hp hperm hadv hG hT hTo hC
    have hev := advance_evolves hadv
    have hhonest := reply_honest hadv hG.1 hT
    have hG' := hG.1.stable hev fun id hi => (hT.installs hi).2
    refine ⟨⟨⟨hG'.pointed,fun id hid => ?_⟩,⟨p,hhonest⟩,hG.2⟩,fun q hq => ?_⟩
    · rcases stoppedIn_cons.mp hid with hv | hid
      · exact reply_shut hadv hG.1 hT hv
      · exact hG'.shut id hid
    · refine (hTo q hq).stable hev (fun id hi hs => (hC q hq id).2 hs (hT.installs hi).1) ?_
      intro id htc hid
      rcases stoppedIn_cons.mp hid with hv | hid
      · exact absurd htc ((hC q hq id).1 (hhonest.stops id hv))
      · exact hid

/-- Stopped sessions stay stopped along every undisturbed run, whatever the backend. -/
theorem undisturbed_stays_stopped (b : Backend) (acts : List Action) (t : State)
    (h : Run step Undisturbed (init b) acts t) : StaysStopped t := by
  have hinv := run_holds h
  refine ⟨fun id hid => (hinv.shared.1.shut id hid).entry,fun newer r older he id hid => ?_,
    fun newer r older he req hreq hne hid => ?_⟩
  · obtain ⟨p,hp⟩ := Orderly.of_append (he ▸ hinv.shared.2)
    exact hp.active id hid
  · obtain ⟨p,hp⟩ := Orderly.of_append (he ▸ hinv.shared.2)
    exact absurd hid (hp.start req hreq hne)

/-- A call and the next `n` steps of the first call in flight. -/
def call (c : Call) (n : ℕ) : List Action := .invoke c :: List.replicate n (.advance 0 {})

/-- Attach to `id`, stop it, attach to it again. -/
def reattachRun (id : String) : List Action :=
  call (.start ⟨"api",[],id⟩) 5 ++ call (.stop id) 2 ++ call (.start ⟨"api",[],id⟩) 5

/-- The second attach revives the stopped id without a database, and fails on the primary key
with one. -/
theorem reattach_not_stays_stopped :
    (∃ t, exec step (init .noop) (reattachRun "sess_1") = some t ∧ EntryActive t.shared "sess_1" ∧
      ¬ StaysStopped t) ∧
    (∃ t, exec step (init .postgres) (reattachRun "sess_1") = some t ∧
      t.replies.head? = some ⟨.start ⟨"api",[],"sess_1"⟩,.error (.store .uniqueViolation)⟩ ∧
      ¬ StaysStopped t) := by
  refine ⟨⟨_,rfl,⟨1,_,rfl,rfl,rfl⟩,fun h => ?_⟩,⟨_,rfl,rfl,fun h => ?_⟩⟩
  · exact h.entry "sess_1" (by decide) ⟨1,_,rfl,rfl,rfl⟩
  · obtain ⟨s,hs,-⟩ := h.restart [] _ _ rfl _ rfl (by decide) (by decide)
    cases hs

/-- One session is stopped while another is handed out, that one is swept, a third is started. -/
def quietRun : List Action :=
  let draw (b : UInt8) : Action := .advance 0 { buf := [b] }
  call (.start ⟨"api",[],""⟩) 1 ++ draw 1 :: .advance 0 {} :: call (.start ⟨"api",[],"sess_2"⟩) 5 ++
    .invoke (.stop "sess_01") :: .invoke (.get "sess_2") :: .advance 1 {} :: .advance 0 {} ::
    .advance 0 {} :: .invoke (.sweepIdle 3) :: .advance 0 { now := 9 } :: .advance 0 {} ::
    call (.get "sess_2") 1 ++ call (.start ⟨"web",[],""⟩) 1 ++ [draw 3,.advance 0 {}]

theorem undisturbed_stays_stopped_quietRun : ∃ t ∈ exec step (init .postgres) quietRun,
    StoppedIn "sess_01" t.replies ∧ StoppedIn "sess_2" t.replies ∧ StaysStopped t := by
  obtain ⟨t,ht,h₁,h₂⟩ : ∃ t ∈ exec step (init .postgres) quietRun,
      StoppedIn "sess_01" t.replies ∧ StoppedIn "sess_2" t.replies := by decide +kernel
  have hrun : Run step Undisturbed (init .postgres) quietRun t := Run.of_exec (by decide +kernel) (Option.mem_def.mp ht)
  exact ⟨t,ht,h₁,h₂,undisturbed_stays_stopped _ _ _ hrun⟩

end SessionManager
end Clearvoiance
