import Clearvoiance.Client

/-! Durability of `sendBatch`.  A batch id links a send, its ack, its file and the file's
removal, but ids restart at one in every process while the files stay.  As long as `sendBatch`
never takes the id of a file that is still there, a resolved batch is always stored or on disk,
no unacked file is lost, and an ack is heard only for the batch it was sent for. -/
namespace Clearvoiance
namespace Client

open Wal Transition

def Log.Stored (l : Log) (b : Batch) : Prop := ∃ x ∈ l.stored, x.2.events = b

def OnDisk (d : Disk) (b : Batch) : Prop :=
  ∃ p m, d.lookup p = some m ∧ (batchIdOf p.2).isSome ∧ m.events = b

def World.Safe (s : World) (b : Batch) : Prop := s.log.Stored b ∨ OnDisk s.disk b

/-- Every resolved batch is stored or on disk, no file of an unacked batch was overwritten or
removed, and no ack was taken for another batch. -/
structure Durable (s : World) : Prop where
  resolved : ∀ b ∈ s.log.resolved, s.Safe b
  incidents : s.log.incidents = []

def Free (d : Disk) (i : ℕ) : Prop := ∀ p ∈ d.keys, batchIdOf p.2 ≠ some i

instance (d : Disk) (i : ℕ) : Decidable (Free d i) :=
  inferInstanceAs (Decidable (∀ p ∈ d.keys, batchIdOf p.2 ≠ some i))

/-- `sendBatch` on an open session takes an id that no file on disk carries. -/
def Fresh (t : State) : Action → Prop
  | .call (.sendBatch _) => t.world.mem.session.isSome = true → Free t.world.disk t.world.mem.nextBatchId
  | _ => True

instance (t : State) : DecidablePred (Fresh t)
  | .call (.sendBatch _) => inferInstanceAs (Decidable (_ → Free _ _))
  | .call .start | .call .stop | .call .track | .call .untrack => .isTrue trivial
  | .command _ | .settle _ _ | .resume _ | .timer | .engine _ | .deliver _ | .streamError _ _
  | .crash => .isTrue trivial

/-- The batch a `sendBatch` task has accepted and not yet put on disk. -/
def Task.live (t : Task) : Option EventBatch :=
  match t.pc,t.outcome with
  | .rename _ _,some .done => none
  | pc,_ => pc.accepted

def Pc.drains : Pc → Bool
  | .readdir _ .drain | .readFile _ .drain _ _ _ | .listed _ .drain _ => true
  | .drainSend _ _ _ | .unlink _ _ _ | .removed _ => true
  | _ => false

/-- The entries a drain has read and not yet removed. -/
def Task.held (t : Task) : List WALEntry :=
  match t.pc,t.outcome with
  | .readFile w .drain out n _,some (.content m) => out ++ [.of w.sessionDir n m]
  | .readFile _ .drain out _ _,_ => out
  | .listed _ .drain out,_ => out
  | .drainSend e rest _,_ => e :: rest
  | .unlink _ _ rest,some _ => rest
  | .unlink _ e rest,none => e :: rest
  | .removed rest,_ => rest
  | _,_ => []

def located (w : WAL) (ns : List (FileName × ℕ)) : List (Path × ℕ) := ns.map fun n => ((w.sessionDir,n.1),n.2)

/-- The files a drain has seen and not yet read. -/
def Task.unread (t : Task) : List (Path × ℕ) :=
  match t.pc,t.outcome with
  | .readdir w .drain,some (.names ns) => located w (selected ns)
  | .readFile w .drain _ _ rest,some (.content _) => located w rest
  | .readFile w .drain _ n rest,_ => located w (n :: rest)
  | _,_ => []

def Holds (d : Disk) (e : WALEntry) : Prop :=
  batchIdOf e.filePath.2 = some e.batchId ∧ ∃ m, d.lookup e.filePath = some m ∧ m.events = e.events

def Task.cleared (t : Task) : Option WALEntry :=
  match t.pc,t.outcome with
  | .drainSend e _ _,some .done => some e
  | .unlink _ e _,none => some e
  | _,_ => none

/-- The batch a `sendBatch` task is about to resolve. -/
def Task.saved (t : Task) : Option EventBatch :=
  match t.pc,t.outcome with
  | .sendBatch m _,some .done => some m
  | .rename _ m,some .done => some m
  | .appended m,_ => some m
  | _,_ => none

/-- The batch whose temporary file is written and waits to be renamed. -/
def Task.staged (t : Task) : Option (WAL × EventBatch) :=
  match t.pc,t.outcome with
  | .writeFile w m,some .done => some (w,m)
  | .rename w m,none => some (w,m)
  | _,_ => none

structure Task.Ok (s : World) (t : Task) : Prop where
  next : ∀ m ∈ t.live, m.batchId < s.mem.nextBatchId
  free : ∀ m ∈ t.live, Free s.disk m.batchId
  tmp : ∀ a ∈ t.staged, s.disk.lookup (a.1.sessionDir,tmpName a.2.batchId) = some a.2
  draining : t.pc.drains = true → s.mem.draining = true
  held : ∀ e ∈ t.held, Holds s.disk e
  unread : ∀ n ∈ t.unread, batchIdOf n.1.2 = some n.2
  paths : (t.held.map (·.filePath) ++ t.unread.map Prod.fst).Nodup
  cleared : ∀ e ∈ t.cleared, e.events ∈ s.log.acked
  saved : ∀ m ∈ t.saved, s.Safe m.events

/-- Two tasks carry different live batches and do not both drain. -/
structure Apart (t t' : Task) : Prop where
  live : ∀ m ∈ t.live, ∀ m' ∈ t'.live, m.batchId ≠ m'.batchId
  drains : t.pc.drains = true → t'.pc.drains = false

theorem Apart.symm {t t' : Task} (h : Apart t t') : Apart t' t :=
  ⟨fun m hm m' hm' he => h.live m' hm' m hm he.symm,fun hd => by
    cases ht : t.pc.drains with
    | false => rfl
    | true => exact absurd hd (by simp [h.drains ht])⟩

def Response.message? : Response → Option EventBatch
  | .batchAck m => some m
  | .ack => none

def Request.message? : Request → Option EventBatch
  | .batch m => some m
  | .handshake => none

def Stream.transit (st : Stream) : List EventBatch :=
  if st.status = .dead then [] else st.down.filterMap (·.message?) ++ st.up.filterMap (·.message?)

def World.transit (s : World) (k : ℕ) : List EventBatch := (s.streams[k]?.map Stream.transit).getD []

/-- Acks the engine has sent and the client has not heard. -/
def World.acks (s : World) : Set EventBatch := {m | ∃ st ∈ s.streams, .batchAck m ∈ st.down}

structure Inv (s : World) (tasks : List Task) : Prop where
  ok : ∀ t ∈ tasks, t.Ok s
  apart : tasks.Pairwise Apart
  nodup : ∀ k, ((s.transit k).map (·.batchId)).Nodup
  awaited : ∀ k, ∀ m ∈ s.transit k, ∃ t ∈ tasks, t.outcome = none ∧ t.pc.waits = some (k,m)
  acks : ∀ m ∈ s.acks, s.log.Stored m.events
  acked : ∀ b ∈ s.log.acked, s.log.Stored b
  durable : Durable s

theorem Inv.perm {s : World} {l l' : List Task} (h : Inv s l) (hp : l.Perm l') : Inv s l' :=
  ⟨fun t ht => h.ok t (hp.mem_iff.mpr ht),(hp.pairwise_iff fun hxy => hxy.symm).mp h.apart,h.nodup,
    fun k m hm => by simpa only [hp.mem_iff] using h.awaited k m hm,h.acks,h.acked,h.durable⟩

theorem live_of_waits {t : Task} {k : ℕ} {m : EventBatch} (h : t.pc.waits = some (k,m)) :
    t.live = some m ∨ ∃ e, e ∈ t.held ∧ e.message = m ∧ t.pc.drains = true := by
  obtain ⟨pc,o⟩ := t
  cases pc <;> simp [Pc.waits] at h
  case sendBatch => simp [Task.live,Pc.accepted,h]
  case drainSend e rest k' => exact .inr ⟨e,by simp [Task.held],h.2,rfl⟩

theorem waits_ne {s : World} {t t' : Task} {k k' : ℕ} {m m' : EventBatch} (ht : t.Ok s) (ht' : t'.Ok s)
    (ha : Apart t t') (hw : t.pc.waits = some (k,m)) (hw' : t'.pc.waits = some (k',m')) :
    m.batchId ≠ m'.batchId := by
  have hfree : ∀ {x y : Task} {n : EventBatch} {e : WALEntry}, x.Ok s → y.Ok s → x.live = some n →
      e ∈ y.held → n.batchId ≠ e.batchId := by
    intro x y n e hx hy hn he heq
    obtain ⟨hid,c,hc,-⟩ := hy.held e he
    have hmem : e.filePath ∈ s.disk.keys := AList.mem_keys.mp (AList.lookup_isSome.mp (by simp [hc]))
    exact hx.free n (by simp [hn]) _ hmem (heq ▸ hid)
  rcases live_of_waits hw with hl | ⟨e,he,rfl,hd⟩ <;> rcases live_of_waits hw' with hl' | ⟨e',he',rfl,hd'⟩
  · exact ha.live m (by simp [hl]) m' (by simp [hl'])
  · exact hfree ht ht' hl he'
  · exact (hfree ht' ht hl' he).symm
  · simp [ha.drains hd] at hd'

theorem live_of_staged {t : Task} {a : WAL × EventBatch} (h : a ∈ t.staged) : a.2 ∈ t.live := by
  obtain ⟨pc,o⟩ := t
  unfold Task.staged at h
  split at h
  · cases h
    simp_all [Task.live,Pc.accepted]
  · cases h
    simp_all [Task.live,Pc.accepted]
  · cases h

/-- How the world may change under a task that does not move. -/
structure Frame (s s' : World) (t : Task) : Prop where
  next : s.mem.nextBatchId ≤ s'.mem.nextBatchId
  free : ∀ m ∈ t.live, Free s.disk m.batchId → Free s'.disk m.batchId
  tmp : ∀ m ∈ t.live, ∀ dir, s'.disk.lookup (dir,tmpName m.batchId) = s.disk.lookup (dir,tmpName m.batchId)
  draining : t.pc.drains = true → s.mem.draining = true → s'.mem.draining = true
  held : ∀ e ∈ t.held, s'.disk.lookup e.filePath = s.disk.lookup e.filePath
  acked : ∀ b ∈ s.log.acked, b ∈ s'.log.acked
  safe : ∀ b, s.Safe b → s'.Safe b

theorem Task.Ok.frame {s s' : World} {t : Task} (h : t.Ok s) (hf : Frame s s' t) : t.Ok s' where
  next m hm := lt_of_lt_of_le (h.next m hm) hf.next
  free m hm := hf.free m hm (h.free m hm)
  tmp a ha := by
    rw [hf.tmp a.2 (live_of_staged ha)]
    exact h.tmp a ha
  draining hd := hf.draining hd (h.draining hd)
  held e he := by
    obtain ⟨hid,m,hm,hev⟩ := h.held e he
    exact ⟨hid,m,by rw [hf.held e he,hm],hev⟩
  unread := h.unread
  paths := h.paths
  cleared e he := hf.acked _ (h.cleared e he)
  saved m hm := hf.safe _ (h.saved m hm)

/-- What a step of one task, or the start of a new one, does outside the file system. -/
structure Moves (s : World) (x : Task) (n : Next) : Prop where
  disk : n.1.disk = s.disk
  next : s.mem.nextBatchId ≤ n.1.mem.nextBatchId
  stored : n.1.log.stored = s.log.stored
  acked : n.1.log.acked = s.log.acked
  incidents : n.1.log.incidents = s.log.incidents
  resolved : ∀ b ∈ n.1.log.resolved, b ∈ s.log.resolved ∨ s.Safe b
  draining : x.pc.drains = false → s.mem.draining = true → n.1.mem.draining = true
  ok : ∀ y ∈ n.2, y.Ok n.1
  live : ∀ y ∈ n.2, ∀ m ∈ y.live, m ∈ x.live ∨ s.mem.nextBatchId ≤ m.batchId
  drains : ∀ y ∈ n.2, y.pc.drains = true → x.pc.drains = true ∨ s.mem.draining = false
  transit : ∀ k, n.1.transit k = s.transit k ∨ ∃ m, n.1.transit k = s.transit k ++ [m] ∧
    ∃ y ∈ n.2, y.outcome = none ∧ y.pc.waits = some (k,m)
  acks : n.1.acks ⊆ s.acks

theorem safe_of_eq {s s' : World} (hd : s'.disk = s.disk) (hl : s'.log.stored = s.log.stored) {b : Batch} :
    s'.Safe b ↔ s.Safe b := by
  simp [World.Safe,Log.Stored,hd,hl]

theorem Inv.moves {s : World} {x : Task} {o : List Task} {n : Next} (h : Inv s (x :: o))
    (hx : x.outcome ≠ none) (hm : Moves s x n) : Inv n.1 (n.2.toList ++ o) := by
  have hapart := List.pairwise_cons.mp h.apart
  have hsafe : ∀ b, n.1.Safe b ↔ s.Safe b := fun b => safe_of_eq hm.disk hm.stored
  have hstored : ∀ b, n.1.log.Stored b ↔ s.log.Stored b := by simp [Log.Stored,hm.stored]
  have ho : ∀ t ∈ o, t.Ok n.1 := by
    intro t ht
    refine (h.ok t (by simp [ht])).frame ⟨hm.next,by simp [hm.disk],by simp [hm.disk],fun hd hs => ?_,
      by simp [hm.disk],by simp [hm.acked],fun b hb => (hsafe b).mpr hb⟩
    refine hm.draining ?_ hs
    exact ((hapart.1 t ht).symm).drains hd
  have hyo : ∀ y ∈ n.2, ∀ t ∈ o, Apart y t := by
    intro y hy t ht
    refine ⟨fun m hlm m' hm' => ?_,fun hd => ?_⟩
    · rcases hm.live y hy m hlm with hlx | hnext
      · exact (hapart.1 t ht).live m hlx m' hm'
      · have := (h.ok t (by simp [ht])).next m' hm'
        omega
    · rcases hm.drains y hy hd with hdx | hds
      · exact (hapart.1 t ht).drains hdx
      · by_contra hdt
        have := (h.ok t (by simp [ht])).draining (by simpa using hdt)
        simp [hds] at this
  have hold : ∀ k, ∀ m ∈ s.transit k, ∃ t ∈ o, t.outcome = none ∧ t.pc.waits = some (k,m) := by
    intro k m hmk
    obtain ⟨t,ht,hto,htw⟩ := h.awaited k m hmk
    rcases List.mem_cons.mp ht with rfl | ht
    · exact absurd hto hx
    · exact ⟨t,ht,hto,htw⟩
  refine ⟨fun t ht => ?_,?_,fun k => ?_,fun k m hmk => ?_,fun m hmk => ?_,fun b hb => ?_,?_,?_⟩
  · rcases List.mem_append.mp ht with ht | ht
    · exact hm.ok t (by simpa using ht)
    · exact ho t ht
  · refine List.pairwise_append.mpr ⟨?_,hapart.2,fun y hy t ht => hyo y (by simpa using hy) t ht⟩
    cases n.2 <;> simp
  · rcases hm.transit k with hk | ⟨m,hk,y,hy,hyo',hyw⟩
    · rw [hk]
      exact h.nodup k
    · rw [hk,List.map_append,List.nodup_append]
      refine ⟨h.nodup k,by simp,?_⟩
      intro i hi j hj hij
      obtain ⟨m',hm',rfl⟩ := List.mem_map.mp hi
      obtain ⟨t,ht,-,htw⟩ := hold k m' hm'
      have hne := waits_ne (hm.ok y hy) (ho t ht) (hyo y hy t ht) hyw htw
      simp only [List.map_cons,List.map_nil,List.mem_singleton] at hj
      exact hne (hj.symm.trans hij.symm)
  · rcases hm.transit k with hk | ⟨m',hk,y,hy,hyo',hyw⟩
    · obtain ⟨t,ht,hw⟩ := hold k m (hk ▸ hmk)
      exact ⟨t,by simp [ht],hw⟩
    · rcases List.mem_append.mp (hk ▸ hmk) with hmk | hmk
      · obtain ⟨t,ht,hw⟩ := hold k m hmk
        exact ⟨t,by simp [ht],hw⟩
      · rw [List.mem_singleton.mp hmk]
        exact ⟨y,by simp [Option.mem_def.mp hy],hyo',hyw⟩
  · exact (hstored _).mpr (h.acks m (hm.acks hmk))
  · exact (hstored _).mpr (h.acked b (hm.acked ▸ hb))
  · intro b hb
    rw [hsafe]
    exact (hm.resolved b hb).elim (h.durable.resolved b) id
  · rw [hm.incidents,h.durable.incidents]

/-- Only the client's fields change, and neither the ids nor the drain flag do. -/
structure Calm (s s' : World) : Prop where
  disk : s'.disk = s.disk
  streams : s'.streams = s.streams
  log : s'.log = s.log
  next : s'.mem.nextBatchId = s.mem.nextBatchId
  draining : s'.mem.draining = s.mem.draining

theorem Calm.trans {s s' s'' : World} (h : Calm s s') (h' : Calm s' s'') : Calm s s'' :=
  ⟨h'.disk.trans h.disk,h'.streams.trans h.streams,h'.log.trans h.log,h'.next.trans h.next,
    h'.draining.trans h.draining⟩

theorem Calm.ok {s s' : World} (h : Calm s s') {t : Task} (ht : t.Ok s) : t.Ok s' :=
  ht.frame ⟨h.next.ge,by simp [h.disk],by simp [h.disk],by simp [h.draining],by simp [h.disk],by simp [h.log],
    fun b => (safe_of_eq h.disk (by rw [h.log])).mpr⟩

theorem Calm.transit {s s' : World} (h : Calm s s') (k : ℕ) : s'.transit k = s.transit k := by
  simp [World.transit,h.streams]

theorem Calm.acks {s s' : World} (h : Calm s s') : s'.acks = s.acks := by simp [World.acks,h.streams]

theorem calm_scheduleReconnect (cfg : Config) (s : World) : Calm s (s.scheduleReconnect cfg) := by
  unfold World.scheduleReconnect
  split <;> exact ⟨rfl,rfl,rfl,rfl,rfl⟩

theorem calm_markStreamFailed (cfg : Config) (gone : Bool) (s : World) : Calm s (s.markStreamFailed cfg gone) := by
  simp only [World.markStreamFailed]
  split
  · exact ⟨rfl,rfl,rfl,rfl,rfl⟩
  split
  · exact ⟨rfl,rfl,rfl,rfl,rfl⟩
  have hfields : Calm s { s with mem := { s.mem with streamHealthy := false, stream := none } } :=
    ⟨rfl,rfl,rfl,rfl,rfl⟩
  exact hfields.trans (calm_scheduleReconnect cfg _)

theorem calm_setUsage (s : World) (w : WAL) (f : Usage → Usage) : Calm s (s.setUsage w f) := ⟨rfl,rfl,rfl,rfl,rfl⟩

/-- A task that carries no batch and does not drain. -/
structure Task.Plain (t : Task) : Prop where
  live : t.live = none
  staged : t.staged = none
  drains : t.pc.drains = false
  held : t.held = []
  unread : t.unread = []
  cleared : t.cleared = none
  saved : t.saved = none

theorem Task.Plain.ok {t : Task} (h : t.Plain) (s : World) : t.Ok s :=
  ⟨by simp [h.live],by simp [h.live],by simp [h.staged],by simp [h.drains],by simp [h.held],by simp [h.unread],
    by simp [h.held,h.unread],by simp [h.cleared],by simp [h.saved]⟩

theorem Task.Ok.carry {s : World} {x y : Task} (hx : x.Ok s) (hl : ∀ m ∈ y.live, m ∈ x.live)
    (hs : y.staged = none) (hd : y.pc.drains = false) (hh : y.held = []) (hu : y.unread = [])
    (hc : y.cleared = none) (hv : y.saved = none) : y.Ok s :=
  ⟨fun m hm => hx.next m (hl m hm),fun m hm => hx.free m (hl m hm),by simp [hs],by simp [hd],by simp [hh],
    by simp [hu],by simp [hh,hu],by simp [hc],by simp [hv]⟩

namespace Moves

variable {s s' : World} {x y : Task}

/-- After a change of fields only, a step goes on as from the world before it. -/
theorem pre {n : Next} (hc : Calm s s') (h : Moves s' x n) : Moves s x n where
  disk := h.disk.trans hc.disk
  next := hc.next ▸ h.next
  stored := h.stored.trans (by rw [hc.log])
  acked := h.acked.trans (by rw [hc.log])
  incidents := h.incidents.trans (by rw [hc.log])
  resolved b hb := by
    rw [← safe_of_eq hc.disk (by rw [hc.log]),← hc.log]
    exact h.resolved b hb
  draining := hc.draining ▸ h.draining
  ok := h.ok
  live := hc.next ▸ h.live
  drains := hc.draining ▸ h.drains
  transit k := hc.transit k ▸ h.transit k
  acks := hc.acks ▸ h.acks

theorem next_task (hy : ∀ t ∈ (some y : Option Task), t.Ok s) (hlive : ∀ m ∈ y.live, m ∈ x.live)
    (hd : y.pc.drains = true → x.pc.drains = true ∨ s.mem.draining = false) : Moves s x (s,some y) where
  disk := rfl
  next := le_rfl
  stored := rfl
  acked := rfl
  incidents := rfl
  resolved _ hb := .inl hb
  draining _ h := h
  ok := hy
  live _ ht m hm := .inl (hlive m (Option.mem_some.mp ht ▸ hm))
  drains _ ht h := hd (Option.mem_some.mp ht ▸ h)
  transit _ := .inl rfl
  acks := subset_rfl

theorem returns (s : World) (x : Task) : Moves s x (finish s) where
  disk := rfl
  next := le_rfl
  stored := rfl
  acked := rfl
  incidents := rfl
  resolved _ hb := .inl hb
  draining _ h := h
  ok := by simp [finish]
  live := by simp [finish]
  drains := by simp [finish]
  transit _ := .inl rfl
  acks := subset_rfl

theorem plain (hy : y.Plain) : Moves s x (s,some y) :=
  next_task (by simpa using hy.ok s) (by simp [hy.live]) (by simp [hy.drains])

theorem carry (hx : x.Ok s) (hl : ∀ m ∈ y.live, m ∈ x.live) (hs : y.staged = none) (hd : y.pc.drains = false)
    (hh : y.held = []) (hu : y.unread = []) (hc : y.cleared = none) (hv : y.saved = none) :
    Moves s x (s,some y) :=
  next_task (by simpa using hx.carry hl hs hd hh hu hc hv) hl (by simp [hd])

theorem endDrain (hx : x.pc.drains = true) : Moves s x (finish s.endDrain) where
  disk := rfl
  next := le_rfl
  stored := rfl
  acked := rfl
  incidents := rfl
  resolved _ hb := .inl hb
  draining h := by simp [hx] at h
  ok := by simp [finish]
  live := by simp [finish]
  drains := by simp [finish]
  transit _ := .inl rfl
  acks := subset_rfl

theorem resolve {m : EventBatch} (hm : s.Safe m.events) : Moves s x (finish (s.resolve m)) where
  disk := rfl
  next := le_rfl
  stored := rfl
  acked := rfl
  incidents := rfl
  resolved b hb := by
    rcases List.mem_cons.mp hb with rfl | hb
    · exact .inr hm
    · exact .inl hb
  draining _ h := h
  ok := by simp [finish]
  live := by simp [finish]
  drains := by simp [finish]
  transit _ := .inl rfl
  acks := subset_rfl

end Moves

theorem transit_congr {s s' : World} {k : ℕ} (h : s'.streams[k]?.map Stream.transit = s.streams[k]?.map Stream.transit) :
    s'.transit k = s.transit k := by simp [World.transit,h]

theorem transit_append (s : World) (sid : String) (k : ℕ) (mem : Memory) :
    World.transit ⟨mem,s.disk,s.streams ++ [⟨sid,[.handshake],[],.live,false⟩],s.log⟩ k = s.transit k := by
  unfold World.transit
  rcases lt_trichotomy k s.streams.length with h | h | h
  · rw [List.getElem?_append_left h]
  · subst h
    simp [Stream.transit,Request.message?]
  · have h1 : s.streams.length ≤ k := h.le
    rw [List.getElem?_append_right h1,List.getElem?_eq_none (by simp; omega),List.getElem?_eq_none h1]

theorem moves_openStream {s : World} {x : Task} (sid : String) {pc : ℕ → Pc} (hpc : ∀ k, Task.Plain ⟨pc k,none⟩) :
    Moves s x (s.openStream sid pc) where
  disk := rfl
  next := le_rfl
  stored := rfl
  acked := rfl
  incidents := rfl
  resolved _ hb := .inl hb
  draining _ h := h
  ok := by simpa [World.openStream,await] using (hpc _).ok _
  live := by simp [World.openStream,await,(hpc _).live]
  drains := by simp [World.openStream,await,(hpc _).drains]
  transit k := .inl (transit_append s sid k _)
  acks := by
    rintro m ⟨st,hst,hm⟩
    rcases List.mem_append.mp hst with hst | hst
    · exact ⟨st,hst,hm⟩
    · rw [List.mem_singleton.mp hst] at hm
      simp at hm

theorem transit_write (m : EventBatch) (st : Stream) :
    (st.write (.batch m)).transit = st.transit ∨ (st.write (.batch m)).transit = st.transit ++ [m] := by
  unfold Stream.write
  split
  · rename_i h
    right
    simp [Stream.transit,h,Request.message?]
  · exact .inl rfl

theorem transit_send (s : World) (k j : ℕ) (m : EventBatch) :
    (s.sendOverStream k m).transit j = s.transit j ∨
    (j = k ∧ (s.sendOverStream k m).transit j = s.transit j ++ [m]) := by
  simp only [World.transit,World.sendOverStream]
  by_cases h : k = j
  · subst h
    cases hst : s.streams[k]? with
    | none => simp [hst]
    | some st =>
      simp only [List.getElem?_modify,hst,Option.map_some,Option.getD_some,if_true,Option.map_eq_map]
      exact (transit_write m st).imp id fun h => ⟨trivial,h⟩
  · left
    rw [List.getElem?_modify]
    simp [h]

theorem acks_modify {s : World} {k : ℕ} {f : Stream → Stream} (hf : ∀ st, (f st).down = st.down) (mem : Memory) :
    World.acks ⟨mem,s.disk,s.streams.modify k f,s.log⟩ ⊆ s.acks := by
  rintro m ⟨st,hst,hm⟩
  obtain ⟨j,hj⟩ := List.mem_iff_getElem?.mp hst
  rw [List.getElem?_modify] at hj
  cases hs : s.streams[j]? with
  | none => simp [hs] at hj
  | some st' =>
    refine ⟨st',List.mem_of_getElem? hs,?_⟩
    simp only [hs,Option.map_eq_map,Option.map_some,Option.some.injEq] at hj
    rw [← hj] at hm
    split at hm
    · rwa [hf] at hm
    · exact hm

/-- The batch is written to a stream and its ack awaited. -/
theorem moves_send {s : World} {x : Task} {k : ℕ} {m : EventBatch} {pc : Pc} (hw : pc.waits = some (k,m))
    (hok : Task.Ok s ⟨pc,none⟩) (hlive : ∀ a ∈ Task.live ⟨pc,none⟩, a ∈ x.live)
    (hd : pc.drains = true → x.pc.drains = true) : Moves s x (await (s.sendOverStream k m) pc) where
  disk := rfl
  next := le_rfl
  stored := rfl
  acked := rfl
  incidents := rfl
  resolved _ hb := .inl hb
  draining _ h := h
  ok t ht := by
    rw [← Option.mem_some.mp ht]
    exact hok.frame ⟨le_rfl,fun _ _ h => h,fun _ _ _ => rfl,fun _ h => h,fun _ _ => rfl,fun _ h => h,fun _ h => h⟩
  live _ ht a ha := .inl (hlive a (Option.mem_some.mp ht ▸ ha))
  drains t ht h := by
    rw [← Option.mem_some.mp ht] at h
    exact .inl (hd h)
  transit j := by
    rcases transit_send s k j m with h | ⟨rfl,h⟩
    · exact .inl h
    · exact .inr ⟨m,h,_,rfl,rfl,hw⟩
  acks := by
    refine acks_modify (fun st => ?_) _
    unfold Stream.write
    split <;> rfl

theorem moves_initWal {s : World} {x : Task} (hx : x.Ok s) (w : WAL) (k : Init)
    (hk : ∀ m ∈ k.accepted, m ∈ x.live) : Moves s x (s.initWal w k) := by
  unfold World.initWal
  split
  · exact .carry hx hk rfl rfl rfl rfl rfl rfl
  · exact .carry hx hk rfl rfl rfl rfl rfl rfl

theorem moves_persistToWAL {s : World} {x : Task} (hx : x.Ok s) {m : EventBatch} (hm : m ∈ x.live) :
    Moves s x (s.persistToWAL m) := by
  unfold World.persistToWAL
  split
  · exact .returns s x
  · refine moves_initWal hx _ _ ?_
    intro a ha
    cases ha
    exact hm

theorem moves_endStream {s : World} {x : Task} {pc : Pc} (hpc : Task.Plain ⟨pc,none⟩) :
    Moves s x (await s.endStream pc) where
  disk := rfl
  next := le_rfl
  stored := rfl
  acked := rfl
  incidents := rfl
  resolved _ hb := .inl hb
  draining _ h := h
  ok := by simpa [await] using hpc.ok _
  live := by simp [await,hpc.live]
  drains := by simp [await,hpc.drains]
  transit j := by
    left
    apply transit_congr
    simp only [await,World.endStream]
    split
    · rename_i k _
      rw [List.getElem?_modify]
      cases s.streams[j]? with
      | none => rfl
      | some st =>
        by_cases h : k = j <;> by_cases hs : st.status = .live <;> simp [h,hs,Stream.transit]
    · rfl
  acks := by
    simp only [await,World.endStream]
    split
    · refine acks_modify (fun st => ?_) _
      split <;> rfl
    · exact subset_rfl

theorem ok_drain {s : World} {y : Task} (hs : s.mem.draining = true) (hl : y.live = none)
    (ht : y.staged = none) (hv : y.saved = none) (hh : ∀ e ∈ y.held, Holds s.disk e)
    (hu : ∀ n ∈ y.unread, batchIdOf n.1.2 = some n.2)
    (hp : (y.held.map (·.filePath) ++ y.unread.map Prod.fst).Nodup)
    (hc : ∀ e ∈ y.cleared, e.events ∈ s.log.acked) : y.Ok s :=
  ⟨by simp [hl],by simp [hl],by simp [ht],fun _ => hs,hh,hu,hp,hc,by simp [hv]⟩

theorem moves_drainList {s : World} {x : Task} (hx : x.pc.drains = true) (hs : s.mem.draining = true) :
    Moves s x s.drainList := by
  unfold World.drainList
  split
  · refine .next_task ?_ (by simp [Task.live,Pc.accepted,Listing.accepted]) fun _ => .inl hx
    intro t ht
    rw [← Option.mem_some.mp ht]
    exact ok_drain hs rfl rfl rfl (by simp [Task.held]) (by simp [Task.unread]) (by simp [Task.held,Task.unread])
      (by simp [Task.cleared])
  · exact .endDrain hx

theorem moves_drainEach {s : World} {x : Task} (hx : x.pc.drains = true) (hs : s.mem.draining = true)
    {es : List WALEntry} (hh : ∀ e ∈ es, Holds s.disk e) (hp : (es.map (·.filePath)).Nodup) :
    Moves s x (s.drainEach es) := by
  cases es with
  | nil => exact moves_drainList hx hs
  | cons e rest =>
    simp only [World.drainEach]
    split
    · refine moves_send rfl ?_ (by simp [Task.live,Pc.accepted]) fun _ => hx
      exact ok_drain hs rfl rfl rfl hh (by simp [Task.unread]) (by simpa [Task.held,Task.unread] using hp)
        (by simp [Task.cleared])
    · exact .endDrain hx

theorem moves_drainWAL {s : World} {x : Task} : Moves s x s.drainWAL := by
  unfold World.drainWAL
  split
  · exact .returns s x
  rename_i h
  have hs : s.mem.draining = false := by
    cases hd : s.mem.draining with
    | false => rfl
    | true => simp [hd] at h
  unfold World.drainList
  split
  · refine ⟨rfl,le_rfl,rfl,rfl,rfl,fun _ hb => .inl hb,fun _ _ => rfl,?_,?_,fun _ _ _ => .inr hs,
      fun _ => .inl rfl,subset_rfl⟩
    · intro t ht
      rw [← Option.mem_some.mp ht]
      exact ok_drain rfl rfl rfl rfl (by simp [Task.held]) (by simp [Task.unread])
        (by simp [Task.held,Task.unread]) (by simp [Task.cleared])
    · intro t ht
      rw [← Option.mem_some.mp ht]
      simp [Task.live,Pc.accepted,Listing.accepted]
  · have hc : Calm s { s with mem := { s.mem with draining := true } }.endDrain := ⟨rfl,rfl,rfl,rfl,hs.symm⟩
    exact .pre hc (.returns _ x)

theorem moves_readNext_drain {s : World} {x : Task} (hx : x.pc.drains = true) (hs : s.mem.draining = true)
    {w : WAL} {out : List WALEntry} {ns : List (FileName × ℕ)} (hh : ∀ e ∈ out, Holds s.disk e)
    (hu : ∀ n ∈ located w ns, batchIdOf n.1.2 = some n.2)
    (hp : (out.map (·.filePath) ++ (located w ns).map Prod.fst).Nodup) :
    Moves s x (readNext s w .drain out ns) := by
  cases ns with
  | nil =>
    refine .next_task ?_ (by simp [Task.live,Pc.accepted,Listing.accepted]) fun _ => .inl hx
    intro t ht
    rw [← Option.mem_some.mp ht]
    exact ok_drain hs rfl rfl rfl hh (by simp [Task.unread])
      (by simpa [Task.held,Task.unread,located] using hp) (by simp [Task.cleared])
  | cons n rest =>
    refine .next_task ?_ (by simp [Task.live,Pc.accepted,Listing.accepted]) fun _ => .inl hx
    intro t ht
    rw [← Option.mem_some.mp ht]
    exact ok_drain hs rfl rfl rfl hh hu hp (by simp [Task.cleared])

theorem moves_readNext_init {s : World} {x : Task} (hx : x.Ok s) {w : WAL} {k : Init} {out : List WALEntry}
    {ns : List (FileName × ℕ)} (hk : ∀ m ∈ k.accepted, m ∈ x.live) :
    Moves s x (readNext s w (.init k) out ns) := by
  cases ns with
  | nil => exact .carry hx hk rfl rfl rfl rfl rfl rfl
  | cons n rest => exact .carry hx hk rfl rfl rfl rfl rfl rfl

theorem moves_listFailed {s : World} {x : Task} {l : Listing} (hx : l = .drain → x.pc.drains = true) :
    Moves s x (s.listFailed l) := by
  cases l with
  | drain => exact .endDrain (hx rfl)
  | init k => exact .returns s x

theorem moves_written {s : World} {w : WAL} {m : EventBatch} (hx : Task.Ok s ⟨.writeFile w m,some .done⟩) :
    Moves s ⟨.writeFile w m,some .done⟩ (await s (.rename w m)) := by
  refine .next_task ?_ (fun m hm => hm) (by simp [Pc.drains])
  intro t ht
  rw [← Option.mem_some.mp ht]
  exact ⟨hx.next,hx.free,hx.tmp,by simp [Pc.drains],by simp [Task.held],by simp [Task.unread],
    by simp [Task.held,Task.unread],by simp [Task.cleared],by simp [Task.saved]⟩

theorem moves_renamed {s : World} {w : WAL} {m : EventBatch} {f : Usage → Usage}
    (hx : Task.Ok s ⟨.rename w m,some .done⟩) :
    Moves s ⟨.rename w m,some .done⟩ (ready (s.setUsage w f) (.appended m)) := by
  have hc := calm_setUsage s w f
  refine .pre hc (.next_task ?_ (by simp [Task.live,Pc.accepted]) (by simp [Pc.drains]))
  intro t ht
  rw [← Option.mem_some.mp ht]
  exact ⟨by simp [Task.live,Pc.accepted],by simp [Task.live,Pc.accepted],by simp [Task.staged],
    by simp [Pc.drains],by simp [Task.held],by simp [Task.unread],by simp [Task.held,Task.unread],
    by simp [Task.cleared],(hc.ok hx).saved⟩

theorem moves_drainSent {s : World} {w : WAL} {e : WALEntry} {rest : List WALEntry} {k : ℕ}
    (hx : Task.Ok s ⟨.drainSend e rest k,some .done⟩) :
    Moves s ⟨.drainSend e rest k,some .done⟩ (await s (.unlink w e rest)) := by
  refine .next_task ?_ (by simp [Task.live,Pc.accepted]) fun _ => .inl rfl
  intro t ht
  rw [← Option.mem_some.mp ht]
  exact ok_drain (hx.draining rfl) rfl rfl rfl hx.held (by simp [Task.unread]) hx.paths hx.cleared

/-- A drain goes on behind the file that it has removed, or found missing. -/
theorem moves_unlinked {s s' : World} {w : WAL} {e : WALEntry} {rest : List WALEntry} {o : Outcome} (hc : Calm s s')
    (hx : Task.Ok s ⟨.unlink w e rest,some o⟩) : Moves s ⟨.unlink w e rest,some o⟩ (ready s' (.removed rest)) := by
  have hok : Task.Ok s ⟨.removed rest,some .done⟩ :=
    ok_drain (hx.draining rfl) rfl rfl rfl hx.held (by simp [Task.unread]) hx.paths (by simp [Task.cleared])
  refine .pre hc (.next_task ?_ (by simp [Task.live,Pc.accepted]) fun _ => .inl rfl)
  intro t ht
  rw [← Option.mem_some.mp ht]
  exact hc.ok hok

theorem resume_moves {s : World} {pc : Pc} {o : Outcome} (cfg : Config) (hx : Task.Ok s ⟨pc,some o⟩) :
    Moves s ⟨pc,some o⟩ (resume cfg s pc o) := by
  have hresumes := resumes cfg s pc o
  generalize resume cfg s pc o = n at hresumes ⊢
  cases hresumes with
  | returns => exact .returns s _
  | openUnlogged p sid | openLogged w sid => exact moves_openStream sid fun k => ⟨rfl,rfl,rfl,rfl,rfl,rfl,rfl⟩
  | openLog p sid =>
    have hc : Calm s { s with mem := { s.mem with
        wal := some ⟨s.mem.usage.length,sid⟩, usage := s.mem.usage ++ [⟨0,false⟩] } } := ⟨rfl,rfl,rfl,rfl,rfl⟩
    exact .pre hc (moves_initWal (hc.ok hx) _ _ (by simp [Init.accepted]))
  | made | append => exact .carry hx (fun m hm => hm) rfl rfl rfl rfl rfl rfl
  | named w l ns =>
    cases l with
    | init k => exact moves_readNext_init hx fun m hm => hm
    | drain => exact moves_readNext_drain rfl (hx.draining rfl) (by simp) hx.unread hx.paths
  | read w l out n rest m =>
    cases l with
    | init k => exact moves_readNext_init hx fun m hm => hm
    | drain => exact moves_readNext_drain rfl (hx.draining rfl) hx.held hx.unread hx.paths
  | unnamed w l | unread w l => exact moves_listFailed fun hl => by rw [hl]; rfl
  | counted w k =>
    exact .pre (calm_setUsage s w _) (.carry ((calm_setUsage s w _).ok hx) (fun m hm => hm) rfl rfl rfl rfl rfl rfl)
  | drained => exact .endDrain rfl
  | drain | removed =>
    exact moves_drainEach rfl (hx.draining rfl) hx.held (by simpa [Task.held,Task.unread] using hx.paths)
  | shaken | sessionGone =>
    refine .pre ?_ (.returns _ _)
    exact ⟨rfl,rfl,rfl,rfl,rfl⟩
  | sent m => exact .resolve (hx.saved m rfl)
  | unsent m k gone =>
    have hc := calm_markStreamFailed cfg gone s
    exact .pre hc (moves_persistToWAL (hc.ok hx) rfl)
  | written => exact moves_written hx
  | renamed => exact moves_renamed hx
  | appended m => exact .resolve (hx.saved m rfl)
  | appendedOffline m =>
    have hc := calm_scheduleReconnect cfg s
    exact .pre hc (.resolve ((hc.ok hx).saved m rfl))
  | reconnected =>
    refine .pre ?_ moves_drainWAL
    exact ⟨rfl,rfl,rfl,rfl,rfl⟩
  | unreachable => exact .pre (calm_scheduleReconnect cfg s) (.returns _ _)
  | drainSent => exact moves_drainSent hx
  | drainLogless => exact .pre (calm_markStreamFailed cfg false s) (.endDrain rfl)
  | drainUnsent e rest k gone | stuck w e rest gone => exact .pre (calm_markStreamFailed cfg gone s) (.endDrain rfl)
  | unlinked w e rest => exact moves_unlinked (calm_setUsage s w _) hx
  | missing => exact moves_unlinked ⟨rfl,rfl,rfl,rfl,rfl⟩ hx
  | flushed => exact moves_endStream ⟨rfl,rfl,rfl,rfl,rfl,rfl,rfl⟩
  | stopped =>
    refine .pre ?_ (.plain ⟨rfl,rfl,rfl,rfl,rfl,rfl,rfl⟩)
    exact ⟨rfl,rfl,rfl,rfl,rfl⟩
  | restart => exact .plain ⟨rfl,rfl,rfl,rfl,rfl,rfl,rfl⟩

theorem drains_of_held {t : Task} {e : WALEntry} (h : e ∈ t.held) : t.pc.drains = true := by
  obtain ⟨pc,o⟩ := t
  unfold Task.held at h
  split at h <;> simp_all [Pc.drains]

theorem mem_of_lookup {d : Disk} {p : Path} {m : EventBatch} (h : d.lookup p = some m) : p ∈ d.keys :=
  AList.mem_keys.mp (AList.lookup_isSome.mp (by simp [h]))

/-- A file-system call or an RPC completes: only the disk may change. -/
theorem Inv.settled {s : World} {d : Disk} {x y : Task} {o : List Task} (h : Inv s (x :: o))
    (hx : x.pc.waits = none) (hpc : y.pc = x.pc) (hlive : ∀ m ∈ y.live, m ∈ x.live)
    (hy : y.Ok { s with disk := d }) (hsafe : ∀ b, OnDisk s.disk b → World.Safe { s with disk := d } b)
    (hfree : ∀ t ∈ o, ∀ m ∈ t.live, Free s.disk m.batchId → Free d m.batchId)
    (htmp : ∀ t ∈ o, ∀ m ∈ t.live, ∀ dir, d.lookup (dir,tmpName m.batchId) = s.disk.lookup (dir,tmpName m.batchId))
    (hheld : ∀ t ∈ o, ∀ e ∈ t.held, d.lookup e.filePath = s.disk.lookup e.filePath) :
    Inv { s with disk := d } (y :: o) := by
  have hall : ∀ b, s.Safe b → World.Safe { s with disk := d } b := fun b hb => hb.elim .inl (hsafe b)
  have hapart := List.pairwise_cons.mp h.apart
  refine ⟨fun t ht => ?_,List.pairwise_cons.mpr ⟨fun t ht => ?_,hapart.2⟩,h.nodup,fun k m hm => ?_,h.acks,
    h.acked,fun b hb => hall b (h.durable.resolved b hb),h.durable.incidents⟩
  · rcases List.mem_cons.mp ht with rfl | ht
    · exact hy
    · exact (h.ok t (by simp [ht])).frame ⟨le_rfl,hfree t ht,htmp t ht,fun _ hd => hd,hheld t ht,fun _ hb => hb,hall⟩
  · exact ⟨fun m hm => (hapart.1 t ht).live m (hlive m hm),fun hd => (hapart.1 t ht).drains (hpc ▸ hd)⟩
  · obtain ⟨t,ht,hto,htw⟩ := h.awaited k m hm
    rcases List.mem_cons.mp ht with rfl | ht
    · simp [hx] at htw
    · exact ⟨t,by simp [ht],hto,htw⟩

theorem Inv.outcome {s : World} {x y : Task} {o : List Task} (h : Inv s (x :: o)) (hx : x.pc.waits = none)
    (hpc : y.pc = x.pc) (hlive : ∀ m ∈ y.live, m ∈ x.live) (hy : y.Ok s) : Inv s (y :: o) :=
  h.settled hx hpc hlive hy (fun _ hb => .inr hb) (fun _ _ _ _ hf => hf) (fun _ _ _ _ _ => rfl) fun _ _ _ _ => rfl

theorem inv_writeFile {s : World} {w : WAL} {m : EventBatch} {o : List Task}
    (h : Inv s (⟨.writeFile w m,none⟩ :: o)) :
    Inv { s with disk := s.disk.insert (w.sessionDir,tmpName m.batchId) m } (⟨.writeFile w m,some .done⟩ :: o) := by
  have hx := h.ok _ (List.mem_cons_self ..)
  have hne : ∀ p : Path, (batchIdOf p.2).isSome → p ≠ (w.sessionDir,tmpName m.batchId) := by
    rintro p hp rfl
    simp at hp
  have hfree : ∀ i, Free s.disk i → Free (s.disk.insert (w.sessionDir,tmpName m.batchId) m) i := by
    intro i hi p hp
    rcases AList.mem_insert _ |>.mp (AList.mem_keys.mpr hp) with rfl | hp
    · simp
    · exact hi p (AList.mem_keys.mp hp)
  refine h.settled rfl rfl (fun a ha => ha) ⟨hx.next,fun a ha => hfree _ (hx.free a ha),?_,by simp [Pc.drains],
    by simp [Task.held],by simp [Task.unread],by simp [Task.held,Task.unread],by simp [Task.cleared],
    by simp [Task.saved]⟩ ?_ (fun _ _ _ _ => hfree _) ?_ ?_
  · intro a ha
    cases ha
    exact AList.lookup_insert _
  · rintro b ⟨p,c,hc,hp,rfl⟩
    exact .inr ⟨p,c,by rw [AList.lookup_insert_ne (hne p hp),hc],hp,rfl⟩
  · intro t ht a ha dir
    apply AList.lookup_insert_ne
    intro he
    have hid := (List.pairwise_cons.mp h.apart).1 t ht |>.live m rfl a ha
    exact hid (tmpName_injective (Prod.mk.inj he).2).symm
  · intro t ht e he
    have hh := (h.ok t (by simp [ht])).held e he
    exact AList.lookup_insert_ne (hne _ (by simp [hh.1]))

theorem inv_rename {s : World} {w : WAL} {m : EventBatch} {o : List Task}
    (h : Inv s (⟨.rename w m,none⟩ :: o)) :
    Inv { s with disk := (s.disk.erase (w.sessionDir,tmpName m.batchId)).insert (w.sessionDir,fileName m.batchId) m }
      (⟨.rename w m,some .done⟩ :: o) := by
  have hx := h.ok _ (List.mem_cons_self ..)
  have hfree : Free s.disk m.batchId := hx.free m rfl
  have hapart := (List.pairwise_cons.mp h.apart).1
  have hsame : ∀ p : Path, p ≠ (w.sessionDir,tmpName m.batchId) → p ≠ (w.sessionDir,fileName m.batchId) →
      ((s.disk.erase (w.sessionDir,tmpName m.batchId)).insert (w.sessionDir,fileName m.batchId) m).lookup p =
        s.disk.lookup p := by
    intro p ht hf
    rw [AList.lookup_insert_ne hf,AList.lookup_erase_ne ht]
  have hkept : ∀ (p : Path) c, s.disk.lookup p = some c → (batchIdOf p.2).isSome →
      ((s.disk.erase (w.sessionDir,tmpName m.batchId)).insert (w.sessionDir,fileName m.batchId) m).lookup p =
        s.disk.lookup p := by
    intro p c hc hp
    apply hsame
    · rintro rfl
      simp at hp
    · rintro rfl
      exact hfree _ (mem_of_lookup hc) (by simp)
  refine h.settled rfl rfl (by simp [Task.live]) ⟨by simp [Task.live],by simp [Task.live],by simp [Task.staged],
    by simp [Pc.drains],by simp [Task.held],by simp [Task.unread],by simp [Task.held,Task.unread],
    by simp [Task.cleared],?_⟩ ?_ ?_ ?_ ?_
  · intro a ha
    cases ha
    exact .inr ⟨(w.sessionDir,fileName m.batchId),m,AList.lookup_insert _,by simp,rfl⟩
  · rintro b ⟨p,c,hc,hp,rfl⟩
    exact .inr ⟨p,c,by rw [hkept p c hc hp,hc],hp,rfl⟩
  · intro t ht a ha hfa p hp
    rcases AList.mem_insert _ |>.mp (AList.mem_keys.mpr hp) with rfl | hp
    · have hid := (hapart t ht).live m rfl a ha
      simpa using hid
    · exact hfa p (AList.mem_keys.mp (AList.mem_erase.mp hp).2)
  · intro t ht a ha dir
    have hid := (hapart t ht).live m rfl a ha
    apply hsame
    · intro he
      exact hid (tmpName_injective (Prod.mk.inj he).2).symm
    · intro he
      have := congrArg batchIdOf (Prod.mk.inj he).2
      simp at this
  · intro t ht e he
    obtain ⟨hid,c,hc,-⟩ := (h.ok t (by simp [ht])).held e he
    exact hkept _ c hc (by simp [hid])

theorem inv_unlink {s : World} {w : WAL} {e : WALEntry} {rest : List WALEntry} {o : List Task}
    (h : Inv s (⟨.unlink w e rest,none⟩ :: o)) :
    Inv { s with disk := s.disk.erase e.filePath } (⟨.unlink w e rest,some .done⟩ :: o) := by
  have hx := h.ok _ (List.mem_cons_self ..)
  obtain ⟨hid,c,hc,hce⟩ := hx.held e (by simp [Task.held])
  have hstored : s.log.Stored c.events := hce ▸ h.acked _ (hx.cleared e rfl)
  have hpaths := hx.paths
  simp only [Task.held,Task.unread,List.map_cons,List.map_nil,List.append_nil,List.nodup_cons] at hpaths
  have hfree : ∀ i, Free s.disk i → Free (s.disk.erase e.filePath) i := fun i hi p hp =>
    hi p (AList.mem_keys.mp (AList.mem_erase.mp (AList.mem_keys.mpr hp)).2)
  refine h.settled rfl rfl (by simp [Task.live,Pc.accepted]) (ok_drain (hx.draining rfl) rfl rfl rfl ?_
    (by simp [Task.unread]) (by simpa [Task.held,Task.unread] using hpaths.2) (by simp [Task.cleared])) ?_
    (fun _ _ _ _ => hfree _) ?_ ?_
  · intro e' he'
    obtain ⟨hid',c',hc',hce'⟩ := hx.held e' (List.mem_cons_of_mem e he')
    have hne : e'.filePath ≠ e.filePath := fun heq => hpaths.1 (heq ▸ List.mem_map_of_mem he')
    exact ⟨hid',c',by rw [AList.lookup_erase_ne hne,hc'],hce'⟩
  · rintro b ⟨p,c',hc',hp,rfl⟩
    by_cases hpe : p = e.filePath
    · rw [hpe,hc] at hc'
      cases hc'
      exact .inl hstored
    · exact .inr ⟨p,c',by rw [AList.lookup_erase_ne hpe,hc'],hp,rfl⟩
  · intro t _ a _ dir
    apply AList.lookup_erase_ne
    intro he
    rw [← he] at hid
    simp at hid
  · intro t ht e' he'
    have := (List.pairwise_cons.mp h.apart).1 t ht |>.drains rfl
    simp [drains_of_held he'] at this

theorem giveUp_of_none {s : World} {p : Path} {why : EventBatch → Incident} (h : s.disk.lookup p = none) :
    s.giveUp p why = s := by simp [World.giveUp,h]

theorem giveUp_of_acked {s : World} {p : Path} {why : EventBatch → Incident} {m : EventBatch}
    (h : s.disk.lookup p = some m) (hm : m.events ∈ s.log.acked) : s.giveUp p why = s := by
  simp [World.giveUp,h,hm]

theorem inv_readdir {s : World} {w : WAL} {o : List Task} (h : Inv s (⟨.readdir w .drain,none⟩ :: o)) :
    Inv s (⟨.readdir w .drain,some (.names (Wal.readdir s.disk w.sessionDir))⟩ :: o) := by
  have hx := h.ok _ (List.mem_cons_self ..)
  have hpaths : ∀ ns : List (FileName × ℕ), (ns.map Prod.fst).Nodup → ((located w ns).map Prod.fst).Nodup := by
    intro ns hns
    have heq : (located w ns).map Prod.fst = (ns.map Prod.fst).map fun n => (w.sessionDir,n) := by
      simp [located]
    rw [heq]
    exact hns.map fun a b hab => (Prod.mk.inj hab).2
  refine h.outcome rfl rfl (by simp [Task.live,Pc.accepted,Listing.accepted]) (ok_drain (hx.draining rfl) rfl rfl rfl
    (by simp [Task.held]) ?_ ?_ (by simp [Task.cleared]))
  · intro n hn
    obtain ⟨a,ha,rfl⟩ := List.mem_map.mp hn
    exact (mem_selected.mp ha).2
  · simpa [Task.held,Task.unread] using hpaths _ (selected_nodup (readdir_nodup s.disk w.sessionDir))

theorem inv_readFile {s : World} {w : WAL} {out : List WALEntry} {n : FileName × ℕ} {rest : List (FileName × ℕ)}
    {m : EventBatch} {o : List Task} (h : Inv s (⟨.readFile w .drain out n rest,none⟩ :: o))
    (hm : s.disk.lookup (w.sessionDir,n.1) = some m) :
    Inv s (⟨.readFile w .drain out n rest,some (.content m)⟩ :: o) := by
  have hx := h.ok _ (List.mem_cons_self ..)
  refine h.outcome rfl rfl (by simp [Task.live,Pc.accepted,Listing.accepted]) (ok_drain (hx.draining rfl) rfl rfl rfl
    ?_ ?_ ?_ (by simp [Task.cleared]))
  · intro e he
    rcases List.mem_append.mp he with he | he
    · exact hx.held e he
    · rw [List.mem_singleton.mp he]
      exact ⟨hx.unread ((w.sessionDir,n.1),n.2) (List.mem_cons_self ..),m,hm,rfl⟩
  · intro a ha
    exact hx.unread a (List.mem_cons_of_mem _ ha)
  · simpa [Task.held,Task.unread,located,WALEntry.of] using hx.paths

theorem settle_inv {s s' : World} {r : Reply} {pc : Pc} {out : Outcome} {o : List Task}
    (h : Inv s (⟨pc,none⟩ :: o)) (hs : settle s r pc = some (s',out)) : Inv s' (⟨pc,some out⟩ :: o) := by
  have hx := h.ok _ (List.mem_cons_self ..)
  cases pc with
  | startSession p =>
    simp only [settle] at hs
    split at hs <;> cases hs <;> exact h.outcome rfl rfl (by simp [Task.live,Pc.accepted]) (Task.Plain.ok ⟨rfl,rfl,rfl,rfl,rfl,rfl,rfl⟩ s)
  | mkdir w k =>
    simp only [settle] at hs
    split at hs <;> cases hs <;> exact h.outcome rfl rfl (fun m hm => hm) (hx.carry (fun m hm => hm) rfl rfl rfl rfl rfl rfl)
  | readdir w l =>
    simp only [settle] at hs
    cases l with
    | init k =>
      split at hs <;> cases hs <;> exact h.outcome rfl rfl (fun m hm => hm) (hx.carry (fun m hm => hm) rfl rfl rfl rfl rfl rfl)
    | drain =>
      split at hs <;> cases hs
      · exact inv_readdir h
      · exact h.outcome rfl rfl (by simp [Task.live,Pc.accepted,Listing.accepted]) (ok_drain (hx.draining rfl) rfl rfl rfl
          (by simp [Task.held]) (by simp [Task.unread]) (by simp [Task.held,Task.unread]) (by simp [Task.cleared]))
  | readFile w l out' n rest =>
    simp only [settle] at hs
    cases l with
    | init k =>
      split at hs <;> cases hs <;> exact h.outcome rfl rfl (fun m hm => hm) (hx.carry (fun m hm => hm) rfl rfl rfl rfl rfl rfl)
    | drain =>
      split at hs
      · rename_i hm
        cases hs
        exact inv_readFile h hm
      · cases hs
        exact h.outcome rfl rfl (by simp [Task.live,Pc.accepted,Listing.accepted]) (ok_drain (hx.draining rfl) rfl rfl rfl
          hx.held hx.unread hx.paths (by simp [Task.cleared]))
  | writeFile w m =>
    simp only [settle] at hs
    split at hs <;> cases hs
    · exact inv_writeFile h
    · exact h.outcome rfl rfl (fun m hm => hm) (hx.carry (fun m hm => hm) rfl rfl rfl rfl rfl rfl)
  | rename w m =>
    simp only [settle] at hs
    split at hs
    · rename_i c hc
      have hcm : s.disk.lookup (w.sessionDir,tmpName m.batchId) = some m := hx.tmp (w,m) rfl
      rw [hcm] at hc
      cases hc
      have hnone : s.disk.lookup (w.sessionDir,fileName m.batchId) = none := by
        rw [AList.lookup_eq_none]
        intro hmem
        exact hx.free m rfl _ (AList.mem_keys.mp hmem) (by simp)
      rw [giveUp_of_none hnone] at hs
      cases hs
      exact inv_rename h
    · cases hs
      exact h.outcome rfl rfl (fun m hm => hm) (hx.carry (fun m hm => hm) rfl rfl rfl rfl rfl rfl)
  | unlink w e rest =>
    have hrest : ∀ q, Task.Ok s ⟨.unlink w e rest,some q⟩ := by
      intro q
      have hp := hx.paths
      simp only [Task.held,Task.unread,List.map_cons,List.map_nil,List.append_nil,List.nodup_cons] at hp
      exact ok_drain (hx.draining rfl) rfl rfl rfl (fun e' he' => hx.held e' (List.mem_cons_of_mem e he'))
        (by simp [Task.unread]) (by simpa [Task.held,Task.unread] using hp.2) (by simp [Task.cleared])
    simp only [settle] at hs
    split at hs
    · rename_i c hc
      obtain ⟨-,c',hc',hce⟩ := hx.held e (by simp [Task.held])
      rw [hc] at hc'
      cases hc'
      rw [giveUp_of_acked hc (hce ▸ hx.cleared e rfl)] at hs
      cases hs
      exact inv_unlink h
    · cases hs
      exact h.outcome rfl rfl (by simp [Task.live,Pc.accepted]) (hrest _)
    · cases hs
      exact h.outcome rfl rfl (by simp [Task.live,Pc.accepted]) (hrest _)
  | flush sid c =>
    cases hs
    exact h.outcome rfl rfl (by simp [Task.live,Pc.accepted]) (Task.Plain.ok ⟨rfl,rfl,rfl,rfl,rfl,rfl,rfl⟩ s)
  | stopSession sid c =>
    simp only [settle] at hs
    split at hs <;> cases hs <;> exact h.outcome rfl rfl (by simp [Task.live,Pc.accepted]) (Task.Plain.ok ⟨rfl,rfl,rfl,rfl,rfl,rfl,rfl⟩ s)
  | _ => simp [settle] at hs

theorem Inv.calm {s s' : World} {o : List Task} (h : Inv s o) (hc : Calm s s') : Inv s' o := by
  have hsafe : ∀ b, s'.Safe b ↔ s.Safe b := fun b => safe_of_eq hc.disk (by rw [hc.log])
  refine ⟨fun t ht => hc.ok (h.ok t ht),h.apart,fun k => ?_,fun k m hm => ?_,?_,?_,fun b hb => ?_,?_⟩
  · rw [hc.transit]
    exact h.nodup k
  · rw [hc.transit] at hm
    exact h.awaited k m hm
  · rw [hc.acks,hc.log]
    exact h.acks
  · rw [hc.log]
    exact h.acked
  · rw [hc.log] at hb
    exact (hsafe b).mpr (h.durable.resolved b hb)
  · rw [hc.log]
    exact h.durable.incidents

def idleTask : Task := ⟨.closed .stop,some .done⟩

theorem Inv.idle {s : World} {o : List Task} (h : Inv s o) : Inv s (idleTask :: o) := by
  have hplain : idleTask.Plain := ⟨rfl,rfl,rfl,rfl,rfl,rfl,rfl⟩
  refine ⟨fun t ht => ?_,List.pairwise_cons.mpr ⟨fun t _ => ⟨by simp [hplain.live],by simp [hplain.drains]⟩,h.apart⟩,
    h.nodup,fun k m hm => ?_,h.acks,h.acked,h.durable⟩
  · rcases List.mem_cons.mp ht with rfl | ht
    · exact hplain.ok s
    · exact h.ok t ht
  · obtain ⟨t,ht,hw⟩ := h.awaited k m hm
    exact ⟨t,by simp [ht],hw⟩

theorem Inv.spawn {t : State} {n : Next} (h : Inv t.world t.tasks) (hn : Moves t.world idleTask n) :
    Inv (t.spawn n).world (t.spawn n).tasks :=
  (h.idle.moves (by simp [idleTask]) hn).perm List.perm_append_comm

theorem Inv.commands {s : World} {o : List Task} (h : Inv s o) (c : List Cmd) :
    Inv { s with log := { s.log with commands := c } } o := by
  refine ⟨fun t ht => (h.ok t ht).frame ?_,h.apart,h.nodup,h.awaited,h.acks,h.acked,h.durable.resolved,
    h.durable.incidents⟩
  exact ⟨le_rfl,fun _ _ hf => hf,fun _ _ _ => rfl,fun _ hd => hd,fun _ _ => rfl,fun _ hb => hb,fun _ hb => hb⟩

theorem Inv.accept {s : World} {o : List Task} (h : Inv s o) (hf : Free s.disk s.mem.nextBatchId) (b : Batch) :
    Inv { s with mem := { s.mem with nextBatchId := s.mem.nextBatchId+1 } }
      (⟨.sendBatch ⟨s.mem.nextBatchId,b⟩ 0,some (.failed false)⟩ :: o) := by
  have hnew : Task.live ⟨.sendBatch ⟨s.mem.nextBatchId,b⟩ 0,some (.failed false)⟩ =
      some ⟨s.mem.nextBatchId,b⟩ := rfl
  refine ⟨fun t ht => ?_,List.pairwise_cons.mpr ⟨fun t ht => ⟨?_,by simp [Pc.drains]⟩,h.apart⟩,h.nodup,
    fun k m hm => ?_,h.acks,h.acked,h.durable.resolved,h.durable.incidents⟩
  · rcases List.mem_cons.mp ht with rfl | ht
    · exact ⟨by simp [hnew],by simpa [hnew] using hf,by simp [Task.staged],by simp [Pc.drains],by simp [Task.held],
        by simp [Task.unread],by simp [Task.held,Task.unread],by simp [Task.cleared],by simp [Task.saved]⟩
    · exact (h.ok t ht).frame ⟨Nat.le_succ _,fun _ _ hf => hf,fun _ _ _ => rfl,fun _ hd => hd,fun _ _ => rfl,
        fun _ hb => hb,fun _ hb => hb⟩
  · intro m hm m' hm'
    have hlt := (h.ok t ht).next m' hm'
    cases hm
    exact Nat.ne_of_gt hlt
  · obtain ⟨t,ht,hw⟩ := h.awaited k m hm
    exact ⟨t,by simp [ht],hw⟩

theorem inv_sendBatch {s : World} {o : List Task} (h : Inv s o) (b : Batch)
    (hf : s.mem.session.isSome = true → Free s.disk s.mem.nextBatchId) :
    Inv (sendBatch s b).1 ((sendBatch s b).2.toList ++ o) := by
  unfold sendBatch
  split
  · simpa [finish] using h
  · rename_i hs
    have hacc := h.accept (hf (by simpa [Option.isSome_iff_ne_none] using hs)) b
    have hx := hacc.ok _ (List.mem_cons_self ..)
    refine hacc.moves (by simp) ?_
    dsimp only
    split
    · refine moves_send rfl ?_ (fun a ha => ha) (by simp [Pc.drains])
      exact hx.carry (fun a ha => ha) rfl rfl rfl rfl rfl rfl
    · exact moves_persistToWAL hx rfl

theorem moves_closeSession {s : World} {x : Task} (inflight : Bool) (sid : String) (c : Closing) :
    Moves s x (s.closeSession inflight sid c) := by
  unfold World.closeSession
  split
  · exact .plain ⟨rfl,rfl,rfl,rfl,rfl,rfl,rfl⟩
  · exact moves_endStream ⟨rfl,rfl,rfl,rfl,rfl,rfl,rfl⟩

theorem call_inv {cfg : Config} {t : State} {c : Call} (h : Inv t.world t.tasks)
    (hf : Fresh t (.call c)) : Inv (t.call cfg c).world (t.call cfg c).tasks := by
  cases c with
  | start =>
    simp only [State.call]
    split
    · split
      · exact h
      · exact h.calm ⟨rfl,rfl,rfl,rfl,rfl⟩
    · split
      · exact h
      · exact h.spawn (.plain ⟨rfl,rfl,rfl,rfl,rfl,rfl,rfl⟩)
  | stop =>
    simp only [State.call]
    split
    · refine h.spawn (.pre ?_ (moves_closeSession _ _ _))
      exact ⟨rfl,rfl,rfl,rfl,rfl⟩
    · refine h.spawn (.pre ?_ (.returns _ _))
      exact ⟨rfl,rfl,rfl,rfl,rfl⟩
  | sendBatch b => exact (inv_sendBatch h b hf).perm List.perm_append_comm
  | track => exact h.calm ⟨rfl,rfl,rfl,rfl,rfl⟩
  | untrack => exact h.calm ⟨rfl,rfl,rfl,rfl,rfl⟩

theorem moves_handleSubscribeResponse {s : World} {x : Task} (inflight : Bool) (cmd : Cmd) :
    Moves s x (handleSubscribeResponse s inflight cmd) := by
  cases cmd with
  | start sid =>
    simp only [handleSubscribeResponse]
    split
    · exact .plain ⟨rfl,rfl,rfl,rfl,rfl,rfl,rfl⟩
    · split
      · exact .returns s x
      · exact moves_closeSession _ _ _
  | stop sid =>
    simp only [handleSubscribeResponse]
    split
    · exact .returns s x
    · split
      · exact moves_closeSession _ _ _
      · exact .returns s x
  | ping => exact .returns s x

theorem command_inv {t : State} {cmd : Cmd} (h : Inv t.world t.tasks) :
    Inv (t.command cmd).world (t.command cmd).tasks := by
  have h' := (h.commands (t.world.log.commands ++ [cmd])).idle
  exact (h'.moves (by simp [idleTask]) (moves_handleSubscribeResponse _ _)).perm List.perm_append_comm

theorem timer_inv {t : State} (h : Inv t.world t.tasks) : Inv t.tryReconnect.world t.tryReconnect.tasks := by
  simp only [State.tryReconnect]
  split
  · refine h.spawn (.pre ?_ (.returns _ _))
    exact ⟨rfl,rfl,rfl,rfl,rfl⟩
  · split
    · refine h.spawn (.pre ?_ (.returns _ _))
      exact ⟨rfl,rfl,rfl,rfl,rfl⟩
    · refine h.spawn (.pre ?_ (moves_openStream _ fun k => ⟨rfl,rfl,rfl,rfl,rfl,rfl,rfl⟩))
      exact ⟨rfl,rfl,rfl,rfl,rfl⟩

theorem crash_inv {t : State} (h : Inv t.world t.tasks) : Inv t.crash.world t.crash.tasks := by
  have htransit : ∀ k, t.crash.world.transit k = [] := by
    intro k
    simp only [World.transit,State.crash,List.getElem?_map]
    cases t.world.streams[k]? <;> simp [Stream.transit,Stream.kill]
  refine ⟨by simp [State.crash],by simp [State.crash],fun k => by simp [htransit],fun k => by simp [htransit],?_,
    h.acked,h.durable.resolved,h.durable.incidents⟩
  rintro m ⟨st,hst,hm⟩
  obtain ⟨st',hst',rfl⟩ := List.mem_map.mp hst
  exact h.acks m ⟨st',hst',hm⟩

theorem transit_set {s : World} {k j : ℕ} {st st' : Stream} (hst : s.streams[k]? = some st) (mem : Memory) (log : Log) :
    World.transit ⟨mem,s.disk,s.streams.set k st',log⟩ j = if j = k then st'.transit else s.transit j := by
  have hk : k < s.streams.length := (List.getElem?_eq_some_iff.mp hst).1
  by_cases h : j = k
  · subst h
    simp [World.transit,hk]
  · simp [World.transit,h,List.getElem?_set_ne (Ne.symm h)]

theorem transit_at {s : World} {k : ℕ} {st : Stream} (hst : s.streams[k]? = some st) :
    s.transit k = st.transit := by simp [World.transit,hst]

theorem acks_set {s : World} {k : ℕ} {st st' : Stream} (hst : s.streams[k]? = some st) (mem : Memory) (log : Log)
    {P : EventBatch → Prop} (hP : ∀ m ∈ s.acks, P m) (hnew : ∀ m, .batchAck m ∈ st'.down → .batchAck m ∈ st.down ∨ P m) :
    ∀ m ∈ World.acks ⟨mem,s.disk,s.streams.set k st',log⟩, P m := by
  rintro m ⟨a,ha,hm⟩
  rcases List.mem_or_eq_of_mem_set ha with ha | rfl
  · exact hP m ⟨a,ha,hm⟩
  · exact (hnew m hm).elim (fun h => hP m ⟨st,List.mem_of_getElem? hst,h⟩) id

theorem engine_inv {s s' : World} {o : List Task} {k : ℕ} (h : Inv s o) (hs : s.engine k = some s') : Inv s' o := by
  unfold World.engine at hs
  split at hs
  · rename_i st hst
    split at hs
    · cases hs
    · rename_i up hup
      cases hs
      have htr : ∀ j, World.transit ⟨s.mem,s.disk,
          s.streams.set k { st with up := up, down := st.down ++ [.ack] },s.log⟩ j = s.transit j := by
        intro j
        rw [transit_set hst]
        split
        · rename_i hj
          rw [hj,transit_at hst]
          simp [Stream.transit,hup,Response.message?,Request.message?]
        · rfl
      refine ⟨fun t ht => (h.ok t ht).frame ⟨le_rfl,fun _ _ hf => hf,fun _ _ _ => rfl,fun _ hd => hd,
        fun _ _ => rfl,fun _ hb => hb,fun _ hb => hb⟩,h.apart,fun j => ?_,fun j m hm => ?_,?_,h.acked,
        h.durable.resolved,h.durable.incidents⟩
      · rw [htr]
        exact h.nodup j
      · exact h.awaited j m (htr j ▸ hm)
      · exact acks_set hst _ _ h.acks fun m hm => by simpa using Or.inl hm
    · rename_i m up hup
      cases hs
      have hmono : ∀ b, s.log.Stored b → Log.Stored { s.log with stored := (st.sessionId,m) :: s.log.stored } b :=
        fun b ⟨x,hx,hb⟩ => ⟨x,List.mem_cons_of_mem _ hx,hb⟩
      have htr : ∀ j, World.transit ⟨s.mem,s.disk,
          s.streams.set k { st with up := up, down := st.down ++ [.batchAck m] },
          { s.log with stored := (st.sessionId,m) :: s.log.stored }⟩ j = s.transit j := by
        intro j
        rw [transit_set hst]
        split
        · rename_i hj
          rw [hj,transit_at hst]
          simp [Stream.transit,hup,Response.message?,Request.message?]
        · rfl
      refine ⟨fun t ht => (h.ok t ht).frame ⟨le_rfl,fun _ _ hf => hf,fun _ _ _ => rfl,fun _ hd => hd,
        fun _ _ => rfl,fun _ hb => hb,fun b hb => hb.imp (hmono b) id⟩,h.apart,fun j => ?_,fun j a ha => ?_,?_,
        fun b hb => hmono b (h.acked b hb),fun b hb => (h.durable.resolved b hb).imp (hmono b) id,
        h.durable.incidents⟩
      · rw [htr]
        exact h.nodup j
      · exact h.awaited j a (htr j ▸ ha)
      · refine acks_set hst _ _ (fun a ha => hmono _ (h.acks a ha)) fun a ha => ?_
        rcases List.mem_append.mp ha with ha | ha
        · exact .inl ha
        · right
          simp only [List.mem_singleton,Response.batchAck.injEq] at ha
          exact ⟨(st.sessionId,m),List.mem_cons_self ..,by rw [ha]⟩
  · cases hs

theorem plain_of_shakes {pc : Pc} {k : ℕ} (h : pc.shakes = some k) (o : Option Outcome) : Task.Plain ⟨pc,o⟩ := by
  cases pc <;> simp [Pc.shakes] at h
  all_goals exact ⟨rfl,rfl,rfl,rfl,rfl,rfl,rfl⟩

/-- A task keeps its batch and its entries when the ack it waits for is settled. -/
theorem live_settled {pc : Pc} {k : ℕ} (h : pc.shakes = some k ∨ ∃ m, pc.waits = some (k,m)) (o : Option Outcome) :
    Task.live ⟨pc,o⟩ = Task.live ⟨pc,none⟩ := by
  cases pc <;> simp [Pc.shakes,Pc.waits] at h
  all_goals rfl

theorem Task.Ok.failed {s : World} {pc : Pc} {k : ℕ} {m : EventBatch} (h : Task.Ok s ⟨pc,none⟩)
    (hw : pc.waits = some (k,m)) (gone : Bool) : Task.Ok s ⟨pc,some (.failed gone)⟩ := by
  cases pc <;> simp [Pc.waits] at hw
  case sendBatch => exact h.carry (fun m hm => hm) rfl rfl rfl rfl rfl rfl
  case drainSend => exact ok_drain (h.draining rfl) rfl rfl rfl h.held h.unread h.paths (by simp [Task.cleared])

theorem Task.Ok.heard {s : World} {pc : Pc} {k : ℕ} {m : EventBatch} (h : Task.Ok s ⟨pc,none⟩)
    (hw : pc.waits = some (k,m)) (hs : s.log.Stored m.events) (ha : m.events ∈ s.log.acked) :
    Task.Ok s ⟨pc,some .done⟩ := by
  cases pc <;> simp [Pc.waits] at hw
  case sendBatch b j =>
    obtain ⟨rfl,rfl⟩ := hw
    exact ⟨h.next,h.free,by simp [Task.staged],by simp [Pc.drains],by simp [Task.held],by simp [Task.unread],
      by simp [Task.held,Task.unread],by simp [Task.cleared],fun a ha => by cases ha; exact .inl hs⟩
  case drainSend e rest j =>
    obtain ⟨rfl,rfl⟩ := hw
    exact ok_drain (h.draining rfl) rfl rfl rfl h.held h.unread h.paths
      (by simpa [Task.cleared,WALEntry.message] using ha)

theorem Apart.settled {o : List Task} {f : Task → Task} (hpc : ∀ t ∈ o, (f t).pc = t.pc)
    (hlive : ∀ t ∈ o, (f t).live = t.live) (h : o.Pairwise Apart) : (o.map f).Pairwise Apart := by
  rw [List.pairwise_map]
  refine h.imp_of_mem fun {a b} ha hb hab => ⟨?_,?_⟩
  · rw [hlive a ha,hlive b hb]
    exact hab.live
  · rw [hpc a ha,hpc b hb]
    exact hab.drains

theorem hear_live (k : ℕ) (r : Response) (t : Task) : (t.hear k r).live = t.live := by
  rcases hear_cases k r t with h | ⟨ho,h,hw⟩
  · rw [h]
  · rw [h,live_settled (hw.imp id fun ⟨_,m',_,hw,_⟩ => ⟨m',hw⟩),← ho]

theorem lose_live (k : ℕ) (gone : Bool) (t : Task) : (t.lose k gone).live = t.live := by
  rcases lose_cases k gone t with h | ⟨ho,h,hw⟩
  · rw [h]
  · rw [h,live_settled hw,← ho]

theorem streamError_inv {s : World} {o : List Task} {k : ℕ} {st : Stream} (cfg : Config) (gone : Bool) (h : Inv s o)
    (hst : s.streams[k]? = some st) :
    Inv (World.markStreamFailed cfg gone { s with streams := s.streams.set k st.kill }) (o.map (.lose k gone)) := by
  refine Inv.calm ?_ (calm_markStreamFailed cfg gone _)
  have htr : ∀ j, World.transit { s with streams := s.streams.set k st.kill } j = if j = k then [] else s.transit j := by
    intro j
    rw [transit_set hst]
    simp [Stream.transit,Stream.kill]
  have hframe : ∀ t : Task, Frame s { s with streams := s.streams.set k st.kill } t := fun t =>
    ⟨le_rfl,fun _ _ hf => hf,fun _ _ _ => rfl,fun _ hd => hd,fun _ _ => rfl,fun _ hb => hb,fun _ hb => hb⟩
  refine ⟨fun t ht => ?_,Apart.settled (fun t _ => lose_pc k gone t) (fun t _ => lose_live k gone t) h.apart,
    fun j => ?_,fun j m hm => ?_,?_,h.acked,h.durable.resolved,h.durable.incidents⟩
  · obtain ⟨x,hx,rfl⟩ := List.mem_map.mp ht
    have hok := (h.ok x hx).frame (hframe x)
    rcases lose_cases k gone x with he | ⟨ho,he,hs | ⟨m,hw⟩⟩
    · rwa [he]
    · rw [he]
      exact (plain_of_shakes hs _).ok _
    · rw [he]
      obtain ⟨pc,o⟩ := x
      cases ho
      exact hok.failed hw gone
  · rw [htr]
    split
    · simp
    · exact h.nodup j
  · rw [htr] at hm
    split at hm
    · simp at hm
    · rename_i hj
      obtain ⟨x,hx,hxo,hxw⟩ := h.awaited j m hm
      refine ⟨x,List.mem_map.mpr ⟨x,hx,?_⟩,hxo,hxw⟩
      rcases lose_cases k gone x with he | ⟨-,-,hs | ⟨m',hw⟩⟩
      · exact he
      · have := (plain_of_shakes hs none).live
        obtain ⟨pc,o⟩ := x
        cases pc <;> simp [Pc.shakes,Pc.waits] at hs hxw
      · rw [hxw] at hw
        cases hw
        exact absurd rfl hj
  · exact acks_set hst _ _ h.acks fun m hm => .inl hm

theorem deliver_ack_inv {s : World} {o : List Task} {k : ℕ} {sid : String} {up : List Request}
    {down : List Response} {status : Status} {acked : Bool} (h : Inv s o)
    (hst : s.streams[k]? = some ⟨sid,up,.ack :: down,status,acked⟩) :
    Inv (World.hear { s with streams := s.streams.set k ⟨sid,up,down,status,acked⟩ } k o .ack)
      (o.map (.hear k .ack)) := by
  have hk : k < s.streams.length := (List.getElem?_eq_some_iff.mp hst).1
  have hstreams : World.hear { s with streams := s.streams.set k ⟨sid,up,down,status,acked⟩ } k o .ack =
      { s with streams := s.streams.set k ⟨sid,up,down,status,true⟩ } := by
    have hmod : (s.streams.set k ⟨sid,up,down,status,acked⟩).modify k (fun st => { st with acked := true }) =
        s.streams.set k ⟨sid,up,down,status,true⟩ := by
      rw [List.modify_eq_set_getElem?]
      simp [hk]
    simp [World.hear,hmod]
  rw [hstreams]
  have htr : ∀ j, World.transit { s with streams := s.streams.set k ⟨sid,up,down,status,true⟩ } j = s.transit j := by
    intro j
    rw [transit_set hst]
    split
    · rename_i hj
      rw [hj,transit_at hst]
      simp [Stream.transit,Response.message?]
    · rfl
  refine ⟨fun t ht => ?_,Apart.settled (fun t _ => hear_pc k _ t) (fun t _ => hear_live k _ t) h.apart,
    fun j => ?_,fun j m hm => ?_,?_,h.acked,h.durable.resolved,h.durable.incidents⟩
  · obtain ⟨x,hx,rfl⟩ := List.mem_map.mp ht
    rcases hear_cases k .ack x with he | ⟨ho,he,hs | ⟨_,_,hr,_⟩⟩
    · rw [he]
      exact (h.ok x hx).frame ⟨le_rfl,fun _ _ hf => hf,fun _ _ _ => rfl,fun _ hd => hd,fun _ _ => rfl,
        fun _ hb => hb,fun _ hb => hb⟩
    · rw [he]
      exact (plain_of_shakes hs _).ok _
    · cases hr
  · rw [htr]
    exact h.nodup j
  · obtain ⟨x,hx,hxo,hxw⟩ := h.awaited j m (htr j ▸ hm)
    refine ⟨x,List.mem_map.mpr ⟨x,hx,?_⟩,hxo,hxw⟩
    rcases hear_cases k .ack x with he | ⟨-,-,hs | ⟨_,_,hr,_⟩⟩
    · exact he
    · obtain ⟨pc,o⟩ := x
      cases pc <;> simp [Pc.shakes,Pc.waits] at hs hxw
    · cases hr
  · exact acks_set hst _ _ h.acks fun m hm => .inl (List.mem_cons_of_mem _ hm)

instance : Std.Symm Apart := ⟨fun _ _ h => h.symm⟩

/-- Every task that hears an ack waits for the batch it was sent for. -/
theorem waits_unique {s : World} {o : List Task} {k : ℕ} {m m' : EventBatch} {t : Task} (h : Inv s o)
    (hm : m ∈ s.transit k) (ht : t ∈ o) (hw : t.pc.waits = some (k,m')) (hid : m'.batchId = m.batchId) : m' = m := by
  obtain ⟨x,hx,-,hxw⟩ := h.awaited k m hm
  by_cases htx : t = x
  · subst htx
    rw [hw] at hxw
    exact (Prod.mk.inj (Option.some.inj hxw)).2
  · have hap : Apart t x := h.apart.forall ht hx htx
    exact absurd hid (waits_ne (h.ok t ht) (h.ok x hx) hap hw hxw)

theorem crossings_eq_nil {s : World} {o : List Task} {k : ℕ} {m : EventBatch} (h : Inv s o)
    (hm : m ∈ s.transit k) : crossings k m o = [] := by
  refine List.filterMap_eq_nil_iff.mpr fun t ht => ?_
  split
  · rename_i k' m' _ hw
    split
    · rename_i hc
      obtain ⟨rfl,hid,hne⟩ := hc
      exact absurd (congrArg EventBatch.events (waits_unique h hm ht hw hid)) hne
    · rfl
  · rfl

theorem deliver_batchAck_inv {s : World} {o : List Task} {k : ℕ} {sid : String} {up : List Request} {m : EventBatch}
    {down : List Response} {status : Status} {acked : Bool} (h : Inv s o) (hdead : status ≠ .dead)
    (hst : s.streams[k]? = some ⟨sid,up,.batchAck m :: down,status,acked⟩) :
    Inv (World.hear { s with streams := s.streams.set k ⟨sid,up,down,status,acked⟩ } k o (.batchAck m))
      (o.map (.hear k (.batchAck m))) := by
  have hold : s.transit k = m :: Stream.transit ⟨sid,up,down,status,acked⟩ := by
    rw [transit_at hst]
    simp [Stream.transit,hdead,Response.message?]
  have hm : m ∈ s.transit k := by simp [hold]
  have hstored : s.log.Stored m.events := h.acks m ⟨_,List.mem_of_getElem? hst,List.mem_cons_self ..⟩
  have hnodup := h.nodup k
  rw [hold,List.map_cons,List.nodup_cons] at hnodup
  simp only [World.hear,crossings_eq_nil h hm,List.nil_append]
  have htr : ∀ j, World.transit { s with
      streams := s.streams.set k ⟨sid,up,down,status,acked⟩
      log := { s.log with acked := m.events :: s.log.acked } } j =
      if j = k then Stream.transit ⟨sid,up,down,status,acked⟩ else s.transit j := fun j => transit_set hst _ _
  refine ⟨fun t ht => ?_,Apart.settled (fun t _ => hear_pc k _ t) (fun t _ => hear_live k _ t) h.apart,
    fun j => ?_,fun j a ha => ?_,?_,?_,h.durable.resolved,h.durable.incidents⟩
  · obtain ⟨x,hx,rfl⟩ := List.mem_map.mp ht
    have hok : x.Ok { s with
        streams := s.streams.set k ⟨sid,up,down,status,acked⟩
        log := { s.log with acked := m.events :: s.log.acked } } :=
      (h.ok x hx).frame ⟨le_rfl,fun _ _ hf => hf,fun _ _ _ => rfl,fun _ hd => hd,fun _ _ => rfl,
        fun _ hb => List.mem_cons_of_mem _ hb,fun _ hb => hb⟩
    rcases hear_cases k (.batchAck m) x with he | ⟨ho,he,hs | ⟨a,m',ha,hw,hid⟩⟩
    · rwa [he]
    · rw [he]
      exact (plain_of_shakes hs _).ok _
    · cases ha
      obtain rfl := waits_unique h hm hx hw hid
      rw [he]
      obtain ⟨pc,out⟩ := x
      cases ho
      exact hok.heard hw hstored (List.mem_cons_self ..)
  · rw [htr]
    split
    · exact hnodup.2
    · exact h.nodup j
  · rw [htr] at ha
    have hwait : ∃ x ∈ o, x.outcome = none ∧ x.pc.waits = some (j,a) := by
      split at ha
      · rename_i hj
        exact h.awaited j a (by rw [hj,hold]; exact List.mem_cons_of_mem _ ha)
      · exact h.awaited j a ha
    obtain ⟨x,hx,hxo,hxw⟩ := hwait
    refine ⟨x,List.mem_map.mpr ⟨x,hx,?_⟩,hxo,hxw⟩
    rcases hear_cases k (.batchAck m) x with he | ⟨-,-,hs | ⟨a',m',hr,hw,hid⟩⟩
    · exact he
    · obtain ⟨pc,out⟩ := x
      cases pc <;> simp [Pc.shakes,Pc.waits] at hs hxw
    · cases hr
      rw [hxw] at hw
      cases hw
      simp only [if_true] at ha
      exact absurd (hid ▸ List.mem_map_of_mem ha) hnodup.1
  · exact acks_set hst _ _ h.acks fun a ha => .inl (List.mem_cons_of_mem _ ha)
  · intro b hb
    rcases List.mem_cons.mp hb with rfl | hb
    · exact hstored
    · exact h.acked b hb

/-- One step of the client whose `sendBatch` takes a free id. -/
theorem step_inv {cfg : Config} {t t' : State} {a : Action} (h : Inv t.world t.tasks) (hf : Fresh t a)
    (hs : step cfg t a = some t') : Inv t'.world t'.tasks := by
  cases a with
  | call c =>
    cases hs
    exact call_inv h hf
  | command cmd =>
    simp only [step] at hs
    split at hs
    · cases hs
      exact command_inv h
    · cases hs
  | settle i r =>
    simp only [step] at hs
    split at hs
    · rename_i pc _ hi
      obtain ⟨n,hn,rfl⟩ := Option.map_eq_some_iff.mp hs
      have hlt : i < t.tasks.length := (List.getElem?_eq_some_iff.mp hi).1
      have hperm : t.tasks.Perm (⟨pc,none⟩ :: (t.tasks.take i ++ t.tasks.drop (i+1))) := by
        conv_lhs => rw [split_at hi]
        exact List.perm_middle
      have hset : (t.tasks.set i ⟨pc,some n.2⟩).Perm (⟨pc,some n.2⟩ :: (t.tasks.take i ++ t.tasks.drop (i+1))) := by
        rw [List.set_eq_take_append_cons_drop,if_pos hlt]
        exact List.perm_middle
      exact (settle_inv (h.perm hperm) hn).perm hset.symm
    · cases hs
  | resume i =>
    simp only [step] at hs
    split at hs
    · rename_i pc o hi
      cases hs
      have hperm : t.tasks.Perm (⟨pc,some o⟩ :: (t.tasks.take i ++ t.tasks.drop (i+1))) := by
        conv_lhs => rw [split_at hi]
        exact List.perm_middle
      have h' := h.perm hperm
      refine (h'.moves (by simp) (resume_moves cfg (h'.ok _ (List.mem_cons_self ..)))).perm ?_
      rw [← List.append_assoc]
      exact List.perm_append_comm.append_right _
    · cases hs
  | timer =>
    simp only [step] at hs
    split at hs
    · cases hs
      exact timer_inv h
    · cases hs
  | engine k =>
    obtain ⟨s,hn,rfl⟩ := Option.map_eq_some_iff.mp hs
    exact engine_inv h hn
  | deliver k =>
    simp only [step] at hs
    split at hs
    · rename_i sid up r down status acked _ hst
      split at hs
      · cases hs
      · rename_i hdead
        cases hs
        cases r with
        | ack => exact deliver_ack_inv h hst
        | batchAck m => exact deliver_batchAck_inv h hdead hst
    · cases hs
  | streamError k gone =>
    simp only [step] at hs
    split at hs
    · rename_i st _ hst
      split at hs
      · cases hs
      · cases hs
        exact streamError_inv cfg gone h hst
    · cases hs
  | crash =>
    cases hs
    exact crash_inv h

theorem init_inv : Inv init.world init.tasks := by
  refine ⟨by simp [init],by simp [init],fun k => by simp [init,World.transit],fun k => by simp [init,World.transit],?_,
    by simp [init],by simp [init],rfl⟩
  rintro m ⟨st,hst,-⟩
  simp [init] at hst

/-- In every run whose sends take ids that no file carries, every batch whose `sendBatch`
resolved is stored by the engine or in full in a completed file; no file of an unacked batch is
overwritten or removed and no ack is taken for another batch. -/
theorem fresh_sends_durable (cfg : Config) {t : State} {as : List Action}
    (hr : Run (step cfg) Fresh init as t) : Durable t.world :=
  (hr.invariant (fun t => Inv t.world t.tasks) (fun _ _ _ h hf hs => step_inv h hf hs) init_inv).durable

def SameSession (sid : String) (_ : State) : Action → Prop
  | .settle _ (.session s) => s = sid
  | _ => True

instance (sid : String) (t : State) : DecidablePred (SameSession sid t)
  | .settle _ (.session s) => inferInstanceAs (Decidable (s = sid))
  | .settle _ .ok | .settle _ (.fail _) => .isTrue trivial
  | .call _ | .command _ | .resume _ | .timer | .engine _ | .deliver _ | .streamError _ _
  | .crash => .isTrue trivial

/-- A batch goes to the log, the process restarts, and the next process, told to start the same session, does the
same. -/
def restartRun : List Action :=
  commandRun 0 0 ++ .streamError 0 false :: persistRun ⟨1,10⟩ ++ .crash :: commandRun 1 1 ++
    .streamError 1 false :: persistRun ⟨2,10⟩

theorem mem_entries_of_onDisk {d : Disk} {b : Batch} (h : OnDisk d b) : b ∈ d.entries.map fun e => e.2.events := by
  obtain ⟨p,m,hm,-,rfl⟩ := h
  exact List.mem_map.mpr ⟨⟨p,m⟩,AList.mem_lookup_iff.mp hm,rfl⟩

theorem restart_not_durable : ∃ t, Run (step remoteConfig) (SameSession "S") init restartRun t ∧
    ⟨1,10⟩ ∈ t.world.log.resolved ∧ ¬ t.world.Safe ⟨1,10⟩ ∧ ¬ Durable t.world := by
  have hlost : ∃ t ∈ exec (step remoteConfig) init restartRun, ⟨1,10⟩ ∈ t.world.log.resolved ∧
      (⟨1,10⟩ : Batch) ∉ t.world.log.stored.map (fun x => x.2.events) ∧
      (⟨1,10⟩ : Batch) ∉ t.world.disk.entries.map (fun e => e.2.events) := by decide +kernel
  obtain ⟨t,ht,hres,hsto,hdisk⟩ := hlost
  have hgone : ¬ t.world.Safe ⟨1,10⟩ := by
    rintro (⟨x,hx,he⟩ | hd)
    · exact hsto (List.mem_map.mpr ⟨x,hx,he⟩)
    · exact hdisk (mem_entries_of_onDisk hd)
  exact ⟨t,Run.of_exec (by decide +kernel) (Option.mem_def.mp ht),hres,hgone,fun hd => hgone (hd.resolved _ hres)⟩

/-- A batch is acked, the process restarts, and the next batch goes to the log. -/
def freshRun : List Action :=
  commandRun 0 0 ++ ([.call (.sendBatch ⟨1,10⟩),.engine 0,.deliver 0,.resume 0] : List Action) ++
    (.crash : Action) :: commandRun 0 1 ++ (.streamError 1 false : Action) :: persistRun ⟨2,10⟩

theorem fresh_sends_durable_freshRun : ∃ t, Run (step remoteConfig) Fresh init freshRun t ∧
    t.world.log.resolved = [⟨2,10⟩,⟨1,10⟩] ∧ Durable t.world := by
  have hexec : ∃ t ∈ exec (step remoteConfig) init freshRun, t.world.log.resolved = [⟨2,10⟩,⟨1,10⟩] := by
    decide +kernel
  obtain ⟨t,ht,hres⟩ := hexec
  have hr : Run (step remoteConfig) Fresh init freshRun t := Run.of_exec (by decide +kernel) (Option.mem_def.mp ht)
  exact ⟨t,hr,hres,fresh_sends_durable remoteConfig hr⟩

end Client
end Clearvoiance
