import Clearvoiance.Hex

/-! The metadata store's session surface, in its two implementations.
The Postgres table keeps one row per id and its statements are atomic; the no-op
store of a database-less engine accepts every write and remembers nothing.  A call
may also fail for reasons outside the table, before or after its statement committed. -/
namespace Clearvoiance
namespace SessionStore

inductive Status
  | active | stopped
  deriving DecidableEq

abbrev Labels := List (String × String)

/-- The counters are `bigint`, copied from those of the sessions. -/
structure SessionRow where
  id : String
  name : String
  labels : Labels
  status : Status
  startedAt : ℕ
  stoppedAt : Option ℕ
  eventsCaptured : ℤ
  bytesCaptured : ℤ
  lastHeartbeatAt : ℕ
  deriving DecidableEq

inductive StoreError
  | sessionNotFound | uniqueViolation | unavailable
  deriving DecidableEq

inductive Backend
  | postgres | noop
  deriving DecidableEq

/-- `id` is the primary key of the table. -/
structure Store where
  backend : Backend
  rows : List SessionRow
  keyed : (rows.map (·.id)).Nodup

def Store.empty (b : Backend) : Store := ⟨b,[],by simp⟩

/-- `SELECT … WHERE id = $1` on the table. -/
def Store.find (s : Store) (id : String) : Option SessionRow :=
  s.rows.find? fun r => r.id == id

def Store.mapRows (s : Store) (f : SessionRow → SessionRow) (hf : ∀ r, (f r).id = r.id) : Store :=
  ⟨s.backend,s.rows.map f,by simpa [Function.comp_def,hf] using s.keyed⟩

/-- `UPDATE … WHERE id = $1`. -/
def Store.update (s : Store) (id : String) (f : SessionRow → SessionRow)
    (hf : ∀ r, (f r).id = r.id) : Store :=
  s.mapRows (fun r => if r.id == id then f r else r) (by intro r; split <;> simp [hf])

def Store.get (s : Store) (id : String) : Except StoreError SessionRow :=
  match s.backend with
  | .noop => .error .sessionNotFound
  | .postgres => match s.find id with
    | none => .error .sessionNotFound
    | some r => .ok r

theorem find_none {s : Store} {id : String} : s.find id = none ↔ id ∉ s.rows.map (·.id) := by
  simp [Store.find]

def Store.create (s : Store) (row : SessionRow) : Except StoreError Store :=
  match s.backend with
  | .noop => .ok s
  | .postgres => match h : s.find row.id with
    | some _ => .error .uniqueViolation
    | none => .ok ⟨s.backend,s.rows ++ [row],by
        simpa using List.nodup_append.mpr ⟨s.keyed,by simp,by simpa using find_none.mp h⟩⟩

def SessionRow.stop (stoppedAt : ℕ) (events bytes : ℤ) (r : SessionRow) : SessionRow :=
  { r with status := .stopped, stoppedAt := some stoppedAt,
           eventsCaptured := events, bytesCaptured := bytes }

def Store.markStopped (s : Store) (id : String) (stoppedAt : ℕ) (events bytes : ℤ) :
    Except StoreError Store :=
  match s.backend with
  | .noop => .ok s
  | .postgres => match s.find id with
    | none => .error .sessionNotFound
    | some _ => .ok (s.update id (.stop stoppedAt events bytes) fun _ => rfl)

def Store.heartbeat (s : Store) (id : String) (now : ℕ) : Except StoreError Store :=
  match s.backend with
  | .noop => .ok s
  | .postgres => match s.find id with
    | some r => if r.status = .active then
        .ok (s.update id (fun r => { r with lastHeartbeatAt := now }) fun _ => rfl)
      else .error .sessionNotFound
    | none => .error .sessionNotFound

def Store.delete (s : Store) (id : String) : Except StoreError Store :=
  match s.backend with
  | .noop => .ok s
  | .postgres => match s.find id with
    | none => .error .sessionNotFound
    | some _ => .ok ⟨s.backend,s.rows.filter fun r => !(r.id == id),
        s.keyed.sublist (List.filter_sublist.map _)⟩

/-- The sweeper's `WHERE` clause. -/
def SessionRow.idleSince (idle now : ℕ) (r : SessionRow) : Bool :=
  r.status = .active && r.lastHeartbeatAt + idle < now

/-- Ids of the rows the sweeper closes at time `now`. -/
def Store.idleIds (s : Store) (idle now : ℕ) : List String :=
  match s.backend with
  | .noop => []
  | .postgres => (s.rows.filter (SessionRow.idleSince idle now)).map (·.id)

def Store.sweepIdle (s : Store) (idle now : ℕ) : Store × List String :=
  match s.backend with
  | .noop => (s,[])
  | .postgres =>
    (s.mapRows (fun r => if r.idleSince idle now then
        { r with status := .stopped, stoppedAt := some now } else r) (by intro r; split <;> rfl),
      s.idleIds idle now)

/-- A failing call: `some true` when its statement committed before the error. -/
abbrev Fault := Option Bool

/-- Run a statement that can write under a possible fault. -/
def Store.write (fault : Fault) (s : Store) (r : Except StoreError Store) : Except StoreError Store × Store :=
  match fault,r with
  | none,.ok s' => (.ok s',s')
  | none,.error e => (.error e,s)
  | some true,.ok s' => (.error .unavailable,s')
  | some _,_ => (.error .unavailable,s)

theorem find_id {s : Store} {id : String} {r : SessionRow} (h : s.find id = some r) : r.id = id := by
  simpa using List.find?_some h

theorem find_of_mem {s : Store} {r : SessionRow} (h : r ∈ s.rows) : s.find r.id = some r := by
  cases hf : s.find r.id with
  | none => exact absurd (List.mem_map_of_mem h) (find_none.mp hf)
  | some r' =>
    have hmem : r' ∈ s.rows := List.mem_of_find?_eq_some hf
    rw [List.inj_on_of_nodup_map s.keyed hmem h (find_id hf)]

theorem find_mapRows (s : Store) (f : SessionRow → SessionRow) (hf : ∀ r, (f r).id = r.id)
    (id : String) : (s.mapRows f hf).find id = (s.find id).map f := by
  simp only [Store.find,Store.mapRows,List.find?_map]
  congr 2
  funext r
  simp [hf]

theorem find_update (s : Store) (id id' : String) (f : SessionRow → SessionRow)
    (hf : ∀ r, (f r).id = r.id) :
    (s.update id f hf).find id' = if id' = id then (s.find id').map f else s.find id' := by
  rw [Store.update,find_mapRows]
  cases hfind : s.find id' with
  | none => simp
  | some r =>
    have hr := find_id hfind
    by_cases hi : id' = id <;> simp [hi,hr]

theorem find_create {s s' : Store} {row : SessionRow} (h : s.create row = .ok s') (id : String) :
    s'.backend = s.backend ∧ (s.find id ≠ none → s'.find id = s.find id) ∧
      (s.find id = none → s'.find id = if s.backend = .postgres ∧ row.id = id then some row else none) := by
  obtain ⟨b,rows,hk⟩ := s
  cases b with
  | noop => cases h; simp
  | postgres =>
    simp only [Store.create] at h
    split at h
    · cases h
    · cases h
      simp only [Store.find,List.find?_append,List.find?_singleton]
      cases hi : List.find? (fun r => r.id == id) rows with
      | some r => simp
      | none => simp

theorem find_markStopped {s s' : Store} {id : String} {at' : ℕ} {ev by' : ℤ}
    (h : s.markStopped id at' ev by' = .ok s') (id' : String) :
    s'.backend = s.backend ∧
      s'.find id' = if s.backend = .postgres ∧ id' = id then
        (s.find id').map (.stop at' ev by') else s.find id' := by
  obtain ⟨b,rows,hk⟩ := s
  cases b with
  | noop => cases h; simp
  | postgres =>
    simp only [Store.markStopped] at h
    split at h
    · cases h
    · cases h
      exact ⟨rfl,by simpa using find_update _ id id' (.stop at' ev by') (fun _ => rfl)⟩

theorem find_heartbeat {s s' : Store} {id : String} {now : ℕ} (h : s.heartbeat id now = .ok s')
    (id' : String) :
    s'.backend = s.backend ∧ (s'.find id').map (·.status) = (s.find id').map (·.status) := by
  obtain ⟨b,rows,hk⟩ := s
  cases b with
  | noop => cases h; simp
  | postgres =>
    simp only [Store.heartbeat] at h
    split at h
    · split at h
      · cases h
        rw [find_update]
        refine ⟨rfl,?_⟩
        by_cases hi : id' = id <;> simp [hi,Function.comp_def]
      · cases h
    · cases h

theorem find_delete {s s' : Store} {id : String} (h : s.delete id = .ok s') (i : String) :
    s'.backend = s.backend ∧ (i ≠ id → s'.find i = s.find i) ∧
      (s'.find i = none ∨ s'.find i = s.find i) ∧ (s.backend = .postgres → s'.find id = none) := by
  obtain ⟨b,rows,hk⟩ := s
  cases b with
  | noop => cases h; simp
  | postgres =>
    simp only [Store.delete] at h
    split at h
    · cases h
    · cases h
      have hid : List.find? (fun r => r.id == id) (List.filter (fun r => !(r.id == id)) rows) = none := by
        rw [List.find?_eq_none]
        simp
      have hne : i ≠ id → List.find? (fun r => r.id == i) (List.filter (fun r => !(r.id == id)) rows) =
          List.find? (fun r => r.id == i) rows := by
        intro hi
        rw [List.find?_filter]
        congr 1
        funext r
        by_cases hr : r.id = i <;> simp [hr,hi]
      refine ⟨rfl,hne,?_,fun _ => hid⟩
      by_cases hi : i = id
      · exact .inl (hi ▸ hid)
      · exact .inr (hne hi)

theorem find_sweepIdle (s : Store) (idle now : ℕ) (id : String) :
    (s.sweepIdle idle now).1.backend = s.backend ∧
      (s.sweepIdle idle now).1.find id = (s.find id).map (fun r =>
        if s.backend = .postgres ∧ r.idleSince idle now then
          { r with status := .stopped, stoppedAt := some now } else r) := by
  obtain ⟨b,rows,hk⟩ := s
  cases b with
  | noop => simp [Store.sweepIdle]
  | postgres => exact ⟨rfl,by simpa [Store.sweepIdle] using find_mapRows _ _ _ id⟩

theorem sweepIdle_ids (s : Store) (idle now : ℕ) : (s.sweepIdle idle now).2 = s.idleIds idle now := by
  obtain ⟨b,rows,hk⟩ := s
  cases b <;> rfl

/-- Every id the sweeper reports has a row, which it closed. -/
theorem find_swept {s : Store} {idle now : ℕ} {id : String} (h : id ∈ (s.sweepIdle idle now).2) :
    s.backend = .postgres ∧ ∃ r, (s.sweepIdle idle now).1.find id = some r ∧ r.status = .stopped := by
  obtain ⟨b,rows,hk⟩ := s
  cases b with
  | noop => simp [Store.sweepIdle] at h
  | postgres =>
    obtain ⟨r,hr,rfl⟩ := List.mem_map.mp h
    obtain ⟨hr,hidle⟩ := List.mem_filter.mp hr
    refine ⟨rfl,{ r with status := .stopped, stoppedAt := some now },?_,rfl⟩
    rw [(find_sweepIdle _ idle now r.id).2,find_of_mem hr]
    simp [hidle]

end SessionStore
end Clearvoiance
