import Clearvoiance.ObserverPolls

/-! The ClickHouse sink of the database observer.  `Emit` appends to a buffer and flushes it when it is full;
`Flush` takes the whole buffer and then writes it.  A batch whose write fails is in no place afterwards,
although most of its observations were accepted before. -/
namespace Clearvoiance
namespace ObservationSink

open ObserverPolls (Observation ObservationType)
open EventStore (DbRow)
open Transition

/-- An observation with the number of its call of `Emit`. -/
abbrev Tagged := ℕ × Observation

def batchCap : ℕ := 64

/-- A flush that failed: what it had taken, and the buffer it left behind. -/
structure Failure where
  taken : List Tagged
  buffer : List Tagged

/-- The sink with its table; `next` counts the calls of `Emit`. -/
structure Sink where
  batch : List Tagged
  next : ℕ
  inserted : List (ℕ × DbRow)
  failures : List Failure

inductive Call
  | emit (obs : Observation)
  | flush
  | close

/-- Who called `Flush`. -/
inductive Caller
  | emit (tag : ℕ)
  | flush
  | close

inductive Reply
  | emitted (tag : ℕ) (err : Option String)
  | flushed (err : Option String)
  | closed (err : Option String)
  deriving DecidableEq

inductive Pc
  | append (obs : Observation)
  | flush (caller : Caller)
  | prepare (caller : Caller) (pending : List Tagged)
  | write (caller : Caller) (pending todo : List Tagged) (rows : List (ℕ × DbRow))

/-- The error of the call to ClickHouse that the step makes, the identifier of a row, and the error of
closing the connection. -/
structure Env where
  err : Option String
  uuid : String
  closeErr : Option String

def entry : Call → Pc
  | .emit obs => .append obs
  | .flush => .flush .flush
  | .close => .flush .close

/-- `Close` ignores the error of its flush. -/
def Caller.reply (e : Env) (err : Option String) : Caller → Reply
  | .emit tag => .emitted tag err
  | .flush => .flushed err
  | .close => .closed e.closeErr

def typeText : ObservationType → String
  | .slowQuery => "slow_query"
  | .lockWait => "lock_wait"

def row (uuid : String) (o : Observation) : DbRow :=
  ⟨uuid,String.ofList o.replayID,String.ofList o.eventID,typeText o.type,o.observedAt,o.durationNs,
    String.ofList o.queryText,String.ofList o.queryFingerprint,String.ofList o.waitEventType,String.ofList o.waitEvent⟩

def Sink.push (s : Sink) (obs : Observation) : Sink := { s with batch := s.batch ++ [(s.next,obs)], next := s.next+1 }

def Sink.fail (s : Sink) (pending : List Tagged) : Sink := { s with failures := s.failures ++ [⟨pending,s.batch⟩] }

abbrev Next := Sink × (Pc ⊕ Reply)

/-- The two critical sections of `Emit` and `Flush`, then the calls to ClickHouse one by one. -/
def advance (e : Env) (s : Sink) : Pc → Next
  | .append obs =>
    let full := batchCap ≤ (s.push obs).batch.length
    if full then (s.push obs,.inl (.flush (.emit s.next))) else (s.push obs,.inr (.emitted s.next none))
  | .flush caller =>
    if s.batch = [] then (s,.inr (caller.reply e none))
    else ({ s with batch := [] },.inl (.prepare caller s.batch))
  | .prepare caller pending =>
    match e.err with
    | some m => (s.fail pending,.inr (caller.reply e (some ("prepare batch: " ++ m))))
    | none => (s,.inl (.write caller pending pending []))
  | .write caller pending (o :: todo) rows =>
    match e.err with
    | some m => (s.fail pending,.inr (caller.reply e (some ("append: " ++ m))))
    | none => (s,.inl (.write caller pending todo (rows ++ [(o.1,row e.uuid o.2)])))
  | .write caller pending [] rows =>
    match e.err with
    | some m => (s.fail pending,.inr (caller.reply e (some ("send: " ++ m))))
    | none => ({ s with inserted := s.inserted ++ rows },.inr (caller.reply e none))

abbrev State := Pool Sink Pc Reply

abbrev Action := Act Call Env

def step : State → Action → Option State := Pool.step entry advance

def init : State := ⟨⟨[],0,[],[]⟩,[],[]⟩

def Reply.accepted : Reply → Option ℕ
  | .emitted tag none => some tag
  | _ => none

/-- The observations whose `Emit` returned without an error. -/
def accepted (s : State) : List ℕ := s.replies.filterMap Reply.accepted

def Pc.pending : Pc → List Tagged
  | .prepare _ pending => pending
  | .write _ pending _ _ => pending
  | _ => []

def inFlight (s : State) : List Tagged := s.threads.flatMap Pc.pending

/-- The observations that are in memory or in the table, by their numbers. -/
def places (s : State) : List ℕ :=
  s.shared.batch.map Prod.fst ++ (inFlight s).map Prod.fst ++ s.shared.inserted.map Prod.fst

/-- What was accepted is buffered, in the batch of a running flush or inserted, and once; what a failed
flush took is in the buffer again. -/
structure Kept (s : State) : Prop where
  conserved : ∀ tag ∈ accepted s, (places s).count tag = 1
  restored : ∀ f ∈ s.shared.failures, ∀ x ∈ f.taken, x ∈ f.buffer

def Pc.writes : Pc → Bool
  | .prepare .. => true
  | .write .. => true
  | _ => false

def Succeeds (s : State) : Action → Prop
  | .invoke _ => True
  | .advance i e => ∀ p ∈ s.threads[i]?, p.writes = true → e.err = none

instance (s : State) (a : Action) : Decidable (Succeeds s a) := by
  induction a using Act.casesOn <;> unfold Succeeds <;> infer_instance

inductive Moved (e : Env) (s : Sink) : Pc → Sink → Pc ⊕ Reply → Prop
  | filled (obs : Observation) : Moved e s (.append obs) (s.push obs) (.inl (.flush (.emit s.next)))
  | buffered (obs : Observation) : Moved e s (.append obs) (s.push obs) (.inr (.emitted s.next none))
  | idle (caller : Caller) : Moved e s (.flush caller) s (.inr (caller.reply e none))
  | detached (caller : Caller) : s.batch ≠ [] →
      Moved e s (.flush caller) { s with batch := [] } (.inl (.prepare caller s.batch))
  | prepared (caller : Caller) (pending : List Tagged) : e.err = none →
      Moved e s (.prepare caller pending) s (.inl (.write caller pending pending []))
  | appended (caller : Caller) (pending : List Tagged) (o : Tagged) (todo : List Tagged) (rows : List (ℕ × DbRow)) :
      e.err = none → Moved e s (.write caller pending (o :: todo) rows) s
        (.inl (.write caller pending todo (rows ++ [(o.1,row e.uuid o.2)])))
  | sent (caller : Caller) (pending : List Tagged) (rows : List (ℕ × DbRow)) : e.err = none →
      Moved e s (.write caller pending [] rows) { s with inserted := s.inserted ++ rows } (.inr (caller.reply e none))
  | failed (p : Pc) (caller : Caller) (message : String) : p.writes = true → e.err ≠ none →
      Moved e s p (s.fail p.pending) (.inr (caller.reply e (some message)))

theorem moved {e : Env} {s s' : Sink} {p : Pc} {o : Pc ⊕ Reply} (hadv : advance e s p = (s',o)) : Moved e s p s' o := by
  cases p with
  | append obs =>
    simp only [advance] at hadv
    split_ifs at hadv
    · cases hadv
      exact .filled obs
    · cases hadv
      exact .buffered obs
  | flush caller =>
    simp only [advance] at hadv
    split_ifs at hadv with hnil
    · cases hadv
      exact .idle caller
    · cases hadv
      exact .detached caller hnil
  | prepare caller pending =>
    cases he : e.err with
    | some m =>
      simp only [advance,he] at hadv
      cases hadv
      exact .failed (.prepare caller pending) caller _ rfl (by simp [he])
    | none =>
      simp only [advance,he] at hadv
      cases hadv
      exact .prepared caller pending he
  | write caller pending todo rows =>
    cases todo with
    | nil =>
      cases he : e.err with
      | some m =>
        simp only [advance,he] at hadv
        cases hadv
        exact .failed (.write caller pending [] rows) caller _ rfl (by simp [he])
      | none =>
        simp only [advance,he] at hadv
        cases hadv
        exact .sent caller pending rows he
    | cons o todo =>
      cases he : e.err with
      | some m =>
        simp only [advance,he] at hadv
        cases hadv
        exact .failed (.write caller pending (o :: todo) rows) caller _ rfl (by simp [he])
      | none =>
        simp only [advance,he] at hadv
        cases hadv
        exact .appended caller pending o todo rows he

def tags (l : List Tagged) : List ℕ := l.map Prod.fst

/-- How often a number is in the buffer, in the table and in the batches of failed flushes. -/
def Sink.count (s : Sink) (n : ℕ) : ℕ :=
  (tags s.batch).count n+(s.inserted.map Prod.fst).count n+(s.failures.flatMap fun f => tags f.taken).count n

def Caller.Valid (next : ℕ) : Caller → Prop
  | .emit tag => tag < next
  | _ => True

/-- A flush has something to write, and the rows it has appended are those of the front of its batch. -/
def Pc.Valid (next : ℕ) : Pc → Prop
  | .append _ => True
  | .flush caller => caller.Valid next
  | .prepare caller pending => caller.Valid next ∧ pending ≠ []
  | .write caller pending todo rows => caller.Valid next ∧ pending ≠ [] ∧ rows.map Prod.fst ++ tags todo = tags pending

def held : Pc ⊕ Reply → List Tagged
  | .inl p => p.pending
  | .inr _ => []

theorem Caller.Valid.mono {m n : ℕ} {c : Caller} (h : c.Valid m) (hmn : m ≤ n) : c.Valid n := by
  cases c with
  | emit tag => exact lt_of_lt_of_le (show tag < m from h) hmn
  | flush => trivial
  | close => trivial

theorem Pc.Valid.mono {m n : ℕ} {p : Pc} (h : p.Valid m) (hmn : m ≤ n) : p.Valid n := by
  cases p with
  | append obs => trivial
  | flush c => exact Caller.Valid.mono h hmn
  | prepare c pending => exact ⟨h.1.mono hmn,h.2⟩
  | write c pending todo rows => exact ⟨h.1.mono hmn,h.2⟩

/-- Whoever calls `Flush` with a valid number replies with it or not at all. -/
theorem accepted_reply {e : Env} {err : Option String} {c : Caller} {n tag : ℕ} (hc : c.Valid n)
    (h : (c.reply e err).accepted = some tag) : tag < n := by
  cases c with
  | emit t =>
    cases err with
    | none =>
      obtain rfl : t = tag := by simpa [Caller.reply,Reply.accepted] using h
      exact hc
    | some m => simp [Caller.reply,Reply.accepted] at h
  | flush => simp [Caller.reply,Reply.accepted] at h
  | close => simp [Caller.reply,Reply.accepted] at h

namespace Moved

variable {e : Env} {s s' : Sink} {p p' : Pc} {o : Pc ⊕ Reply} {v : Reply}

theorem next_le (hm : Moved e s p s' o) : s.next ≤ s'.next := by
  cases hm with
  | filled obs => exact Nat.le_succ _
  | buffered obs => exact Nat.le_succ _
  | _ => exact le_rfl

theorem push_count (s : Sink) (obs : Observation) (n : ℕ) :
    (s.push obs).count n+(if n < s.next then 1 else 0) = s.count n+(if n < s.next+1 then 1 else 0) := by
  have hnew : (tags (s.batch ++ [(s.next,obs)])).count n = (tags s.batch).count n+[s.next].count n := by
    rw [tags,List.map_append,List.count_append]
    rfl
  have hone : [s.next].count n+(if n < s.next then 1 else 0) = if n < s.next+1 then 1 else 0 := by
    rcases lt_trichotomy n s.next with h | rfl | h
    · rw [List.count_eq_zero.mpr (by simp; omega),if_pos h,if_pos (by omega)]
    · simp
    · rw [List.count_eq_zero.mpr (by simp; omega),if_neg (by omega),if_neg (by omega)]
  simp only [Sink.count,Sink.push,hnew]
  omega

/-- No step loses a number or makes a second copy of it, if the batches of failed flushes are counted. -/
theorem balance (hm : Moved e s p s' o) (hp : p.Valid s.next) (n : ℕ) :
    s'.count n+(tags (held o)).count n+(if n < s.next then 1 else 0) =
      s.count n+(tags p.pending).count n+(if n < s'.next then 1 else 0) := by
  cases hm with
  | filled obs =>
    exact push_count s obs n
  | buffered obs =>
    exact push_count s obs n
  | idle caller => rfl
  | detached caller hne =>
    simp only [held,Pc.pending,Sink.count,tags,List.map_nil,List.count_nil]
    omega
  | prepared caller pending he => rfl
  | appended caller pending o todo rows he => rfl
  | sent caller pending rows he =>
    have hrows : rows.map Prod.fst = tags pending := by
      have := hp.2.2
      rwa [show tags [] = [] from rfl,List.append_nil] at this
    simp only [held,Pc.pending,Sink.count,List.map_append,List.count_append,hrows,show tags [] = [] from rfl,List.count_nil]
    omega
  | failed p caller message hw he =>
    rw [show (s.fail p.pending).next = s.next from rfl]
    simp only [held,Sink.count,Sink.fail,List.flatMap_append,List.flatMap_cons,List.flatMap_nil,List.append_nil,
      List.count_append,show tags [] = [] from rfl,List.count_nil]
    omega

theorem valid (hm : Moved e s p s' (.inl p')) (hp : p.Valid s.next) : p'.Valid s'.next := by
  cases hm with
  | filled obs => exact Nat.lt_succ_self _
  | detached caller hne => exact ⟨hp,hne⟩
  | prepared caller pending he => exact ⟨hp.1,hp.2,rfl⟩
  | appended caller pending o todo rows he =>
    refine ⟨hp.1,hp.2.1,?_⟩
    rw [← hp.2.2,List.map_append,List.append_assoc]
    rfl

theorem accepted_lt (hm : Moved e s p s' (.inr v)) (hp : p.Valid s.next) {tag : ℕ} (hv : v.accepted = some tag) :
    tag < s'.next := by
  cases hm with
  | buffered obs =>
    obtain rfl : s.next = tag := by simpa [Reply.accepted] using hv
    exact Nat.lt_succ_self _
  | idle caller => exact accepted_reply hp hv
  | sent caller pending rows he => exact accepted_reply hp.1 hv
  | failed p caller message hw he =>
    refine absurd hv ?_
    cases caller <;> simp [Caller.reply,Reply.accepted]

/-- Only a failed call to ClickHouse adds a failure, of the batch it was made for. -/
theorem failures (hm : Moved e s p s' o) :
    (s'.failures = s.failures ∧ (p.writes = true → e.err = none)) ∨
      (s'.failures = s.failures ++ [⟨p.pending,s.batch⟩] ∧ p.writes = true ∧ e.err ≠ none) := by
  cases hm with
  | filled obs => exact .inl ⟨rfl,nofun⟩
  | buffered obs => exact .inl ⟨rfl,nofun⟩
  | idle caller => exact .inl ⟨rfl,nofun⟩
  | detached caller hne => exact .inl ⟨rfl,nofun⟩
  | prepared caller pending he => exact .inl ⟨rfl,fun _ => he⟩
  | appended caller pending o todo rows he => exact .inl ⟨rfl,fun _ => he⟩
  | sent caller pending rows he => exact .inl ⟨rfl,fun _ => he⟩
  | failed p caller message hw he => exact .inr ⟨rfl,hw,he⟩

end Moved

/-- Every number that has been given out is in one place, if the batches of failed flushes are counted. -/
structure Accounted (s : State) : Prop where
  counts : ∀ n, s.shared.count n+(tags (inFlight s)).count n = if n < s.shared.next then 1 else 0
  valid : ∀ p ∈ s.threads, p.Valid s.shared.next
  replied : ∀ tag ∈ accepted s, tag < s.shared.next
  failed : ∀ f ∈ s.shared.failures, ∃ x ∈ f.taken, x ∉ f.buffer

section Step

variable {s t : State} {a : Action}

theorem Pc.pending_ne_nil {p : Pc} {n : ℕ} (hp : p.Valid n) (hw : p.writes = true) : p.pending ≠ [] := by
  cases p with
  | append obs => cases hw
  | flush c => cases hw
  | prepare c pending => exact hp.2
  | write c pending todo rows => exact hp.2.1

theorem tags_inFlight (l r : List Pc) (p : Pc) (n : ℕ) :
    (tags ((l ++ p :: r).flatMap Pc.pending)).count n =
      (tags p.pending).count n+(tags ((l ++ r).flatMap Pc.pending)).count n := by
  simp only [tags,List.flatMap_append,List.flatMap_cons,List.map_append,List.count_append]
  omega

theorem not_mem_batch (hs : Accounted s) {p : Pc} (hp : p ∈ s.threads) {x : Tagged} (hx : x ∈ p.pending) :
    x ∉ s.shared.batch := by
  intro hbatch
  have hcounts := hs.counts x.1
  have hpos : 0 < (tags s.shared.batch).count x.1 := List.count_pos_iff.mpr (List.mem_map_of_mem hbatch)
  have hflight : 0 < (tags (inFlight s)).count x.1 := by
    apply List.count_pos_iff.mpr
    exact List.mem_map_of_mem (List.mem_flatMap.mpr ⟨p,hp,hx⟩)
  unfold Sink.count at hcounts
  split_ifs at hcounts <;> omega

theorem failed_step (hs : Accounted s) {e : Env} {p : Pc} {s' : Sink} {o : Pc ⊕ Reply} (hm : Moved e s.shared p s' o)
    (hp : p ∈ s.threads) : ∀ f ∈ s'.failures, ∃ x ∈ f.taken, x ∉ f.buffer := by
  rcases hm.failures with ⟨hf,-⟩ | ⟨hf,hw,-⟩
  · rw [hf]
    exact hs.failed
  · intro f hmem
    rw [hf,List.mem_append,List.mem_singleton] at hmem
    rcases hmem with hmem | rfl
    · exact hs.failed f hmem
    · obtain ⟨x,hx⟩ := List.exists_mem_of_ne_nil _ (Pc.pending_ne_nil (hs.valid p hp) hw)
      exact ⟨x,hx,not_mem_batch hs hp hx⟩

theorem accounted_step (hs : Accounted s) (hst : step s a = some t) : Accounted t := by
  rcases Pool.step_cases hst with ⟨c,rfl,rfl⟩ | ⟨i,e,l,r,p,s',p',rfl,hl,-,hadv,rfl⟩ | ⟨i,e,l,r,p,s',v,rfl,hl,-,hadv,rfl⟩
  · have hentry : (entry c).pending = [] ∧ (entry c).Valid s.shared.next := by cases c <;> exact ⟨rfl,trivial⟩
    refine ⟨fun n => ?_,fun p hp => ?_,hs.replied,hs.failed⟩
    · have hcounts := hs.counts n
      simpa [inFlight,hentry.1] using hcounts
    · rcases List.mem_append.mp hp with hp | hp
      · exact hs.valid p hp
      · rw [List.mem_singleton.mp hp]
        exact hentry.2
  · have hm := moved hadv
    have hp : p ∈ s.threads := by simp [hl]
    refine ⟨fun n => ?_,fun q hq => ?_,fun tag htag => ?_,failed_step hs hm hp⟩
    · have hcounts := hs.counts n
      have hbal := hm.balance (hs.valid p hp) n
      rw [inFlight,hl,tags_inFlight] at hcounts
      simp only [inFlight,tags_inFlight,held] at hbal ⊢
      omega
    · rcases List.mem_cons.mp (List.perm_middle.subset hq) with rfl | hq
      · exact hm.valid (hs.valid p hp)
      · exact (hs.valid q (by rw [hl]; exact List.perm_middle.symm.subset (List.mem_cons_of_mem _ hq))).mono hm.next_le
    · exact lt_of_lt_of_le (hs.replied tag htag) hm.next_le
  · have hm := moved hadv
    have hp : p ∈ s.threads := by simp [hl]
    refine ⟨fun n => ?_,fun q hq => ?_,fun tag htag => ?_,failed_step hs hm hp⟩
    · have hcounts := hs.counts n
      have hbal := hm.balance (hs.valid p hp) n
      rw [inFlight,hl,tags_inFlight] at hcounts
      simp only [inFlight,held,show tags [] = [] from rfl,List.count_nil] at hbal ⊢
      omega
    · exact (hs.valid q (by rw [hl]; exact List.perm_middle.symm.subset (List.mem_cons_of_mem _ hq))).mono hm.next_le
    · obtain ⟨v',hv',hacc⟩ := List.mem_filterMap.mp htag
      rcases List.mem_cons.mp hv' with rfl | hv'
      · exact hm.accepted_lt (hs.valid p hp) hacc
      · exact lt_of_lt_of_le (hs.replied tag (List.mem_filterMap.mpr ⟨v',hv',hacc⟩)) hm.next_le

/-- What was accepted is kept as long as no flush has failed. -/
theorem kept_iff (hs : Accounted s) : Kept s ↔ s.shared.failures = [] := by
  constructor
  · intro hk
    by_contra hne
    obtain ⟨f,hf⟩ := List.exists_mem_of_ne_nil _ hne
    obtain ⟨x,hx,hnot⟩ := hs.failed f hf
    exact hnot (hk.restored f hf x hx)
  · intro hnil
    refine ⟨fun tag htag => ?_,fun f hf => ?_⟩
    · have hcounts := hs.counts tag
      rw [if_pos (hs.replied tag htag),Sink.count,hnil,List.flatMap_nil,List.count_nil] at hcounts
      unfold tags at hcounts
      rw [places,List.count_append,List.count_append]
      omega
    · rw [hnil] at hf
      cases hf

theorem failures_step (hs : s.shared.failures = []) (hst : step s a = some t) :
    t.shared.failures = [] ↔ Succeeds s a := by
  rcases Pool.step_cases hst with ⟨c,rfl,rfl⟩ | ⟨i,e,l,r,p,s',p',rfl,-,hp,hadv,rfl⟩ | ⟨i,e,l,r,p,s',v,rfl,-,hp,hadv,rfl⟩
  · exact iff_of_true hs trivial
  all_goals
    simp only [Succeeds,hp,Option.mem_some_iff,forall_eq']
    rcases (moved hadv).failures with ⟨hf,he⟩ | ⟨hf,hw,he⟩
    · rw [hf]
      exact iff_of_true hs he
    · rw [hf]
      exact iff_of_false (by simp) fun h => he (h hw)

end Step

/-- The sink keeps what it has accepted, in every state of a run, exactly when every call to ClickHouse
succeeds. -/
theorem kept_run_iff {as : List Action} {t : State} (he : exec step init as = some t) :
    (∀ pre post u, as = pre ++ post → exec step init pre = some u → Kept u) ↔ Along step Succeeds init as := by
  have haccounted : ∀ pre u, exec step init pre = some u → Accounted u := by
    intro pre u hu
    refine (Run.of_exec_true hu).invariant Accounted (fun _ _ _ hs _ hst => accounted_step hs hst) ⟨?_,?_,?_,?_⟩
    · intro n
      rfl
    · intro p hp
      cases hp
    · intro tag htag
      cases htag
    · intro f hf
      cases hf
  rw [← forall_reached_iff (fun s => s.shared.failures = []) (fun s a t hs hst => failures_step hs hst) he rfl]
  exact forall₃_congr fun pre post u => forall₂_congr fun _ hu => kept_iff (haccounted pre u hu)

def slowUpdate : Observation :=
  ⟨[],"ev_1".toList,.slowQuery,200000000,200000000,"UPDATE orders SET paid = true".toList,"3f2a".toList,[],[]⟩

def working : Env := ⟨none,"0b9f",none⟩

def refusing : Env := ⟨some "connection reset","0b9f",none⟩

/-- One observation is emitted and flushed; the server is down when the batch is prepared. -/
def flushWhileDown : List Action :=
  [.invoke (.emit slowUpdate),.advance 0 working,.invoke .flush,.advance 0 working,.advance 0 refusing]

/-- The accepted observation is in no place any more. -/
theorem flush_while_down_loses : ∃ s ∈ exec step init flushWhileDown, ¬ Kept s ∧ accepted s = [0] ∧ places s = [] ∧
    s.replies = [.flushed (some "prepare batch: connection reset"),.emitted 0 none] := by
  have hend : ∃ s ∈ exec step init flushWhileDown, accepted s = [0] ∧ places s = [] ∧
      s.replies = [.flushed (some "prepare batch: connection reset"),.emitted 0 none] := by decide +kernel
  obtain ⟨s,hs,hacc,hplaces,hreplies⟩ := hend
  refine ⟨s,hs,fun h => ?_,hacc,hplaces,hreplies⟩
  have hcount := h.conserved 0 (by rw [hacc]; simp)
  rw [hplaces] at hcount
  cases hcount

def flushWhileUp : List Action :=
  [.invoke (.emit slowUpdate),.advance 0 working,.invoke .flush,.advance 0 working,.advance 0 working,.advance 0 working,
    .invoke (.emit slowUpdate),.advance 1 working,.advance 0 working]

theorem kept_run_iff_flushWhileUp : ∃ s ∈ exec step init flushWhileUp, Kept s ∧ accepted s = [1,0] ∧ places s = [1,0] := by
  have hend : ∃ s ∈ exec step init flushWhileUp, accepted s = [1,0] ∧ places s = [1,0] := by decide +kernel
  obtain ⟨s,hs,hacc,hplaces⟩ := hend
  have he := Option.mem_def.mp hs
  exact ⟨s,hs,(kept_run_iff he).mpr (by decide +kernel) flushWhileUp [] s (by simp) he,hacc,hplaces⟩

end ObservationSink
end Clearvoiance
