import Clearvoiance.ControlPlane
import Clearvoiance.Slices

/-! The registry of control streams on its backing arrays.  A removal filters the list of its client in place, while
pushes walk over copies that were taken before.  The log records what happened, newest first; no call reads it. -/
namespace Clearvoiance
namespace StreamRegistry

open Transition Slices
open ControlPlane (Cmd ControlStream)

/-- A pointer to a stream, which is given by its position among all that were opened. -/
abbrev Ref := Option ℕ

inductive Event
  | added (k : ℕ) (name : String)
  | removed (k : ℕ)
  | snapshot (p : ℕ) (name : String) (cmd : Cmd)
  | enqueued (p k : ℕ) (cmd : Cmd)
  | resumed (k : ℕ) (cmd : Cmd)
  | returned (p reached : ℕ)
  | counted (name : String) (n : ℕ)
  deriving DecidableEq

structure ControlServer where
  heap : Heap Ref
  streams : String → Option Slice
  opened : List ControlStream
  log : List Event
  pushes : ℕ

def ControlServer.new : ControlServer := ⟨[],fun _ => none,[],[],0⟩

namespace ControlServer

def record (s : ControlServer) (e : Event) : ControlServer := { s with log := e :: s.log }

def addStream (extra : ℕ) (s : ControlServer) (name : String) : ControlServer :=
  let k := s.opened.length
  let r := append extra s.heap (lookup s.streams name) (some k)
  { s with
    heap := r.1
    streams := Function.update s.streams name (some r.2)
    opened := s.opened ++ [⟨name,[],[],true⟩]
    log := .added k name :: s.log }

/-- `none` stands for a panic. -/
def removeStream (s : ControlServer) (name : String) (k : ℕ) : Option ControlServer :=
  match filterInPlace (fun x => x ≠ some k) s.heap (lookup s.streams name) with
  | none => none
  | some r => some { s with
      heap := r.1
      streams := Function.update s.streams name (if r.2.len = 0 then none else some r.2)
      opened := s.opened.modify k fun cs => { cs with live := false }
      log := .removed k :: s.log }

/-- The non-blocking send to a stream, which is logged when it takes place; `none` stands for a panic. -/
def send (s : ControlServer) (k : ℕ) (cmd : Cmd) (e : Event) : Option (ControlServer × ℕ) :=
  match s.opened[k]? with
  | none => none
  | some cs =>
    if cs.full then some (s,0)
    else some ({ s with opened := s.opened.modify k (.push cmd), log := e :: s.log },1)

def snapshot (extra : ℕ) (s : ControlServer) (name : String) (cmd : Cmd) : ControlServer × Slice :=
  let r := clone extra s.heap (lookup s.streams name)
  ({ s with heap := r.1, log := .snapshot s.pushes name cmd :: s.log, pushes := s.pushes+1 },r.2)

def deliver (s : ControlServer) (k : ℕ) : ControlServer := { s with opened := s.opened.modify k .deliver }

def onlineCount (s : ControlServer) (name : String) : ℕ := (lookup s.streams name).len

end ControlServer

/-- `extra` is the room that `append` leaves in a new array; `resumed` is what the monitor's row asks for. -/
structure Env where
  extra : ℕ := 0
  resumed : Option Cmd := none
  event : ControlPlane.Event := .deliver

inductive Call
  | subscribe (name : String)
  | pushAll (name : String) (cmd : Cmd)
  | onlineCount (name : String)

inductive Response
  | invalidArgument (message : String)
  | closed
  | reached (n : ℕ)
  | count (n : ℕ)
  | panic
  deriving DecidableEq

inductive Pc
  | subscribe (name : String)
  | addStream (name : String)
  | resume (name : String) (k : ℕ)
  | serve (name : String) (k : ℕ)
  | pushAll (name : String) (cmd : Cmd)
  | push (p : ℕ) (name : String) (cmd : Cmd) (streams : Slice) (i reached : ℕ)
  | onlineCount (name : String)

def entry : Call → Pc
  | .subscribe name => .subscribe name
  | .pushAll name cmd => .pushAll name cmd
  | .onlineCount name => .onlineCount name

/-- One atomic step of a call: a critical section, a send to one stream, or one turn of the loop of `Subscribe`. -/
def advance (e : Env) (s : ControlServer) : Pc → ControlServer × (Pc ⊕ Response)
  | .subscribe name =>
    if name = "" then (s,.inr (.invalidArgument "client_name is required")) else (s,.inl (.addStream name))
  | .addStream name => (s.addStream e.extra name,.inl (.resume name s.opened.length))
  | .resume name k =>
    match e.resumed with
    | none => (s,.inl (.serve name k))
    | some cmd =>
      match s.send k cmd (.resumed k cmd) with
      | none => (s,.inr .panic)
      | some (s',_) => (s',.inl (.serve name k))
  | .serve name k =>
    match e.event with
    | .deliver => (s.deliver k,.inl (.serve name k))
    | .tick => (s,.inl (.serve name k))
    | .sendError | .disconnect =>
      match s.removeStream name k with
      | none => (s,.inr .panic)
      | some s' => (s',.inr .closed)
  | .pushAll name cmd =>
    let r := s.snapshot e.extra name cmd
    (r.1,.inl (.push s.pushes name cmd r.2 0 0))
  | .push p name cmd streams i reached =>
    if i < streams.len then
      match read s.heap streams i with
      | some (some k) =>
        match s.send k cmd (.enqueued p k cmd) with
        | none => (s,.inr .panic)
        | some (s',n) => (s',.inl (.push p name cmd streams (i+1) (reached+n)))
      | some none | none => (s,.inr .panic)
    else (s.record (.returned p reached),.inr (.reached reached))
  | .onlineCount name => (s.record (.counted name (s.onlineCount name)),.inr (.count (s.onlineCount name)))

abbrev State := Pool ControlServer Pc Response

abbrev Label := Act Call Env

def step : State → Label → Option State := Pool.step entry advance

def start : State := ⟨.new,[],[]⟩

section Events

def Event.adds (name : String) : Event → Option ℕ
  | .added k n => if n = name then some k else none
  | .removed _ | .snapshot _ _ _ | .enqueued _ _ _ | .resumed _ _ | .returned _ _ | .counted _ _ => none

/-- The command that an event puts into the channel of a stream. -/
def Event.sends (k : ℕ) : Event → Option Cmd
  | .enqueued _ k' cmd | .resumed k' cmd => if k' = k then some cmd else none
  | .added _ _ | .removed _ | .snapshot _ _ _ | .returned _ _ | .counted _ _ => none

def Event.push : Event → Option ℕ
  | .enqueued p _ _ => some p
  | .added _ _ | .removed _ | .snapshot _ _ _ | .resumed _ _ | .returned _ _ | .counted _ _ => none

/-- The streams of a client that were added and not yet removed. -/
def live (name : String) (log : List Event) : List ℕ :=
  (log.reverse.filterMap (Event.adds name)).filter fun k => Event.removed k ∉ log

def sentTo (k : ℕ) (log : List Event) : List Cmd := log.reverse.filterMap (Event.sends k)

def enqueuedBy (p : ℕ) (log : List Event) : ℕ := log.countP fun e => e.push = some p

def Event.Holds (log : List Event) : Event → Prop
  | .added k _ => ∀ name, .added k name ∉ log
  | .snapshot p _ _ => ∀ name cmd, .snapshot p name cmd ∉ log
  | .enqueued p k cmd => (∀ cmd', .enqueued p k cmd' ∉ log) ∧
      ∃ name pre, .snapshot p name cmd :: pre <:+ log ∧ k ∈ live name pre
  | .returned p reached => reached = enqueuedBy p log
  | .counted name n => n = (live name log).length
  | .removed _ | .resumed _ _ => True

def Faithful : List Event → Prop
  | [] => True
  | e :: log => e.Holds log ∧ Faithful log

def Event.Quiet : Event → Prop
  | .added _ _ | .removed _ => False
  | .snapshot _ _ _ | .enqueued _ _ _ | .resumed _ _ | .returned _ _ | .counted _ _ => True

variable {name : String} {log : List Event} {k : ℕ}

theorem mem_added_of_live (h : k ∈ live name log) : .added k name ∈ log := by
  obtain ⟨e,he,hadds⟩ := List.mem_filterMap.mp (List.mem_of_mem_filter h)
  cases e with
  | added k' n =>
    simp only [Event.adds,Option.ite_none_right_eq_some,Option.some.injEq] at hadds
    obtain ⟨rfl,rfl⟩ := hadds
    exact List.mem_reverse.mp he
  | _ => cases hadds

theorem live_quiet {e : Event} (he : e.Quiet) : live name (e :: log) = live name log := by
  have hadds : e.adds name = none := by cases e <;> first | rfl | exact he.elim
  have hne : ∀ k, Event.removed k ≠ e := by
    rintro k rfl
    exact he
  simp [live,List.filterMap_append,hadds,hne]

theorem live_added (hfresh : .removed k ∉ log) (name n : String) :
    live name (.added k n :: log) = if n = name then live name log ++ [k] else live name log := by
  split_ifs with hn
  · simp [live,List.filterMap_append,Event.adds,hn,hfresh]
  · simp [live,List.filterMap_append,Event.adds,hn]

theorem live_removed : live name (.removed k :: log) = (live name log).filter (· ≠ k) := by
  simp only [live,List.reverse_cons,List.filterMap_append,List.filter_filter]
  simp [Event.adds,List.mem_cons]

theorem sentTo_cons (k : ℕ) (e : Event) (log : List Event) :
    sentTo k (e :: log) = sentTo k log ++ (e.sends k).toList := by
  cases he : e.sends k <;> simp [sentTo,List.filterMap_append,he]

theorem enqueuedBy_cons (p : ℕ) (e : Event) (log : List Event) :
    enqueuedBy p (e :: log) = enqueuedBy p log+if e.push = some p then 1 else 0 := by
  simp [enqueuedBy,List.countP_cons]

end Events

section Invariant

def Named (opened : List ControlStream) (name : String) (k : ℕ) : Prop :=
  ∃ cs, opened[k]? = some cs ∧ cs.clientName = name

/-- The table holds the streams that the log says, and so do the channels. -/
structure Kept (s : ControlServer) : Prop where
  holds : Holds s.heap s.streams fun name => (live name s.log).map some
  nodup : ∀ name, (live name s.log).Nodup
  named : ∀ name k, .added k name ∈ s.log → Named s.opened name k
  fresh : ∀ k, .removed k ∈ s.log → k < s.opened.length
  sent : ∀ k, (s.opened[k]?.map fun cs => cs.delivered ++ cs.commands).getD [] = sentTo k s.log
  snapshots : ∀ p name cmd, .snapshot p name cmd ∈ s.log → p < s.pushes
  pushed : ∀ p k cmd, .enqueued p k cmd ∈ s.log → p < s.pushes
  faithful : Faithful s.log

/-- A push on its way: `pre` is what was logged before its snapshot. -/
structure Pushing (s : ControlServer) (pre : List Event) (p : ℕ) (name : String) (cmd : Cmd) (streams : Slice)
    (i reached : ℕ) : Prop where
  id : p < s.pushes
  snapshot : .snapshot p name cmd :: pre <:+ s.log
  valid : Valid s.heap streams
  elements : elements s.heap streams = (live name pre).map some
  apart : ∀ n, Apart streams (lookup s.streams n)
  nodup : (live name pre).Nodup
  named : ∀ k ∈ live name pre, Named s.opened name k
  passed : ∀ k c, .enqueued p k c ∈ s.log → k ∈ (live name pre).take i
  reached : reached = enqueuedBy p s.log

def Pc.Follows (s : ControlServer) : Pc → Prop
  | .subscribe _ | .addStream _ | .pushAll _ _ | .onlineCount _ => True
  | .resume name k | .serve name k => Named s.opened name k
  | .push p name cmd streams i reached => ∃ pre, Pushing s pre p name cmd streams i reached

def Pc.id : Pc → Option ℕ
  | .push p _ _ _ _ _ => some p
  | .subscribe _ | .addStream _ | .resume _ _ | .serve _ _ | .pushAll _ _ | .onlineCount _ => none

def Pc.Differ (p q : Pc) : Prop := ∀ n, p.id = some n → q.id ≠ some n

/-- What a step of one call, the push `mine` if it is one, leaves to the other pushes. -/
structure Moved (mine : Option ℕ) (s s' : ControlServer) : Prop where
  log : ∃ es, s'.log = es ++ s.log ∧ ∀ e ∈ es, ∀ p, e.push = some p → mine = some p
  slices : Unreached s.heap s.streams s'.heap s'.streams
  named : ∀ name k, Named s.opened name k → Named s'.opened name k
  pushes : s.pushes ≤ s'.pushes

variable {s s' : ControlServer} {mine : Option ℕ}

theorem unreached_refl (h : Heap Ref) (table : String → Option Slice) : Unreached h table h table :=
  fun _ hv ha => ⟨hv,rfl,ha⟩

theorem Moved.refl (s : ControlServer) : Moved mine s s := 
  ⟨⟨[],rfl,by simp⟩,unreached_refl _ _,fun _ _ h => h,le_rfl⟩

theorem Pushing.moved {pre : List Event} {p : ℕ} {name : String} {cmd : Cmd} {streams : Slice} {i reached : ℕ}
    (h : Pushing s pre p name cmd streams i reached) (hm : Moved mine s s') (hmine : mine ≠ some p) :
    Pushing s' pre p name cmd streams i reached := by
  obtain ⟨es,hlog,hes⟩ := hm.log
  obtain ⟨hvalid,helements,hapart⟩ := hm.slices streams h.valid h.apart
  have hnone : ∀ e ∈ es, e.push ≠ some p := fun e he hp => hmine (hes e he p hp)
  refine ⟨h.id.trans_le hm.pushes,?_,hvalid,helements.trans h.elements,hapart,h.nodup,
    fun k hk => hm.named name k (h.named k hk),fun k c hk => ?_,?_⟩
  · exact hlog ▸ h.snapshot.trans (List.suffix_append _ _)
  · rw [hlog] at hk
    rcases List.mem_append.mp hk with hk | hk
    · exact absurd rfl (hnone _ hk)
    · exact h.passed k c hk
  · have hzero : enqueuedBy p es = 0 := List.countP_eq_zero.mpr fun e he => by simpa using hnone e he
    rw [hlog,enqueuedBy,List.countP_append]
    rw [enqueuedBy] at hzero
    rw [hzero,Nat.zero_add]
    exact h.reached

theorem Pc.Follows.moved {q : Pc} (h : q.Follows s) (hm : Moved mine s s') (hq : ∀ n, mine = some n → q.id ≠ some n) :
    q.Follows s' := by
  cases q with
  | resume name k => exact hm.named name k h
  | serve name k => exact hm.named name k h
  | push p name cmd streams i reached =>
    obtain ⟨pre,h⟩ := h
    exact ⟨pre,h.moved hm fun hmine => hq p hmine rfl⟩
  | _ => trivial

theorem Kept.new : Kept .new := by
  refine ⟨holds_nil _,fun _ => .nil,?_,?_,?_,?_,?_,trivial⟩
  all_goals
    intros
    simp_all [ControlServer.new,sentTo]

theorem Named.lt {name : String} {k : ℕ} (h : Named s.opened name k) : k < s.opened.length := by
  obtain ⟨cs,hcs,-⟩ := h
  exact (List.getElem?_eq_some_iff.mp hcs).1

theorem Named.unique {name name' : String} {k : ℕ} (h : Named s.opened name k) (h' : Named s.opened name' k) :
    name = name' := by
  obtain ⟨cs,hcs,rfl⟩ := h
  obtain ⟨cs',hcs',rfl⟩ := h'
  rw [Option.some.inj (hcs.symm.trans hcs')]

theorem Kept.live_named (h : Kept s) {name : String} {k : ℕ} (hk : k ∈ live name s.log) : Named s.opened name k :=
  h.named name k (mem_added_of_live hk)

theorem Kept.onlineCount (h : Kept s) (name : String) : s.onlineCount name = (live name s.log).length := by
  have hlen := (h.holds.valid name).length_elements
  rw [h.holds.elements,List.length_map] at hlen
  exact hlen.symm

theorem Kept.record (h : Kept s) {e : Event} (he : e.Quiet) (hholds : e.Holds s.log) (hsends : ∀ k, e.sends k = none)
    {pushes : ℕ} (hle : s.pushes ≤ pushes) (hsnapshot : ∀ p name cmd, e = .snapshot p name cmd → p < pushes)
    {heap : Heap Ref} (hheap : Holds heap s.streams fun name => (live name s.log).map some) :
    Kept { s with heap := heap, log := e :: s.log, pushes := pushes } where
  holds := by
    simp only [live_quiet he]
    exact hheap
  nodup name := by
    rw [live_quiet he]
    exact h.nodup name
  named name k hk := by
    rcases List.mem_cons.mp hk with rfl | hk
    · exact he.elim
    · exact h.named name k hk
  fresh k hk := by
    rcases List.mem_cons.mp hk with rfl | hk
    · exact he.elim
    · exact h.fresh k hk
  sent k := by
    rw [sentTo_cons,hsends,Option.toList_none,List.append_nil]
    exact h.sent k
  snapshots p name cmd hp := by
    rcases List.mem_cons.mp hp with hp | hp
    · exact hsnapshot p name cmd hp.symm
    · exact (h.snapshots p name cmd hp).trans_le hle
  pushed p k cmd hp := by
    rcases List.mem_cons.mp hp with rfl | hp
    · have hnone := hsends k
      rw [Event.sends,if_pos rfl] at hnone
      cases hnone
    · exact (h.pushed p k cmd hp).trans_le hle
  faithful := ⟨hholds,h.faithful⟩

theorem named_addStream (extra : ℕ) (n : String) {name : String} {k : ℕ} (h : Named s.opened name k) :
    Named (s.addStream extra n).opened name k := by
  obtain ⟨cs,hcs,hname⟩ := h
  refine ⟨cs,?_,hname⟩
  rw [ControlServer.addStream,List.getElem?_append_left (List.getElem?_eq_some_iff.mp hcs).1]
  exact hcs

theorem Kept.addStream (h : Kept s) (extra : ℕ) (name : String) :
    Kept (s.addStream extra name) ∧ Moved none s (s.addStream extra name) ∧
      Named (s.addStream extra name).opened name s.opened.length := by
  obtain ⟨hholds,hunreached⟩ := h.holds.append extra name (some s.opened.length)
  have hlive := fun n => live_added (fun hk => (h.fresh _ hk).false) n name
  have hlists : (fun n => (live n (.added s.opened.length name :: s.log)).map some) =
      Function.update (fun n => (live n s.log).map some) name
        ((live name s.log).map some ++ [some s.opened.length]) := by
    funext n
    by_cases hn : n = name
    · rw [hn,Function.update_self,hlive,if_pos rfl,List.map_append,List.map_singleton]
    · rw [Function.update_of_ne hn,hlive,if_neg (Ne.symm hn)]
  rw [← hlists] at hholds
  have hnew : Named (s.addStream extra name).opened name s.opened.length := ⟨_,List.getElem?_concat_length,rfl⟩
  refine ⟨⟨hholds,fun n => ?_,fun n k hk => ?_,fun k hk => ?_,fun k => ?_,fun p n cmd hp => ?_,fun p k cmd hp => ?_,
    fun n hn => (h.named n _ hn).lt.false,h.faithful⟩,
    ⟨⟨[.added s.opened.length name],rfl,by simp [Event.push]⟩,hunreached,fun _ _ => named_addStream extra name,
      le_rfl⟩,hnew⟩
  · rw [show (s.addStream extra name).log = .added s.opened.length name :: s.log from rfl,hlive]
    split_ifs
    · refine List.Nodup.append (h.nodup n) (List.nodup_singleton _) (List.disjoint_singleton.mpr fun hk => ?_)
      exact (h.live_named hk).lt.false
    · exact h.nodup n
  · rcases List.mem_cons.mp hk with hk | hk
    · obtain ⟨rfl,rfl⟩ := Event.added.inj hk
      exact hnew
    · exact named_addStream extra name (h.named n k hk)
  · rcases List.mem_cons.mp hk with hk | hk
    · cases hk
    · exact (h.fresh k hk).trans_le (by simp [ControlServer.addStream])
  · rw [show (s.addStream extra name).log = .added s.opened.length name :: s.log from rfl,sentTo_cons]
    have hk := h.sent k
    rcases lt_trichotomy k s.opened.length with hlt | rfl | hgt
    · simpa [ControlServer.addStream,List.getElem?_append_left hlt,Event.sends] using hk
    · simpa [ControlServer.addStream,Event.sends] using hk
    · rw [List.getElem?_eq_none hgt.le] at hk
      have hnone : (s.opened ++ [⟨name,[],[],true⟩])[k]? = none := List.getElem?_eq_none (by simpa using hgt)
      simpa [ControlServer.addStream,hnone,Event.sends] using hk
  · exact h.snapshots p n cmd ((List.mem_cons.mp hp).resolve_left (by simp))
  · exact h.pushed p k cmd ((List.mem_cons.mp hp).resolve_left (by simp))

/-- A change of one stream that leaves its name and what was sent to it. -/
theorem getElem?_modify_sent (opened : List ControlStream) (k : ℕ) {f : ControlStream → ControlStream}
    (hf : ∀ cs, (f cs).delivered ++ (f cs).commands = cs.delivered ++ cs.commands) (j : ℕ) :
    ((opened.modify k f)[j]?.map fun cs => cs.delivered ++ cs.commands).getD [] =
      (opened[j]?.map fun cs => cs.delivered ++ cs.commands).getD [] := by
  rw [List.getElem?_modify]
  split_ifs with hk <;> cases opened[j]? <;> simp [hf]

theorem named_modify {opened : List ControlStream} (k : ℕ) {f : ControlStream → ControlStream} {j : ℕ} {name : String}
    (h : Named opened name j) (hf : ∀ cs, (f cs).clientName = cs.clientName := by exact fun _ => rfl) :
    Named (opened.modify k f) name j := by
  obtain ⟨cs,hcs,hname⟩ := h
  rw [Named,List.getElem?_modify,hcs]
  split_ifs
  · exact ⟨_,rfl,(hf cs).trans hname⟩
  · exact ⟨_,rfl,hname⟩

theorem Kept.removeStream (h : Kept s) {name : String} {k : ℕ} (hk : Named s.opened name k) :
    ∃ s', s.removeStream name k = some s' ∧ Kept s' ∧ Moved none s s' := by
  obtain ⟨h',sl,hfilter,hholds,hunreached⟩ := h.holds.filter name fun x => x ≠ some k
  have hlists : (fun n => (live n (.removed k :: s.log)).map some) =
      Function.update (fun n => (live n s.log).map some) name
        (((live name s.log).map some).filter fun x => x ≠ some k) := by
    funext n
    rw [live_removed]
    by_cases hn : n = name
    · rw [hn,Function.update_self,List.filter_map]
      simp [Function.comp_def]
    · rw [Function.update_of_ne hn]
      congr 1
      refine List.filter_eq_self.mpr fun j hj => ?_
      have hne : j ≠ k := by
        rintro rfl
        exact hn ((h.live_named hj).unique hk)
      simpa using hne
  rw [← hlists] at hholds
  have hremoved : s.removeStream name k = some { s with
      heap := h'
      streams := Function.update s.streams name (if sl.len = 0 then none else some sl)
      opened := s.opened.modify k fun cs => { cs with live := false }
      log := .removed k :: s.log } := by rw [ControlServer.removeStream,hfilter]
  refine ⟨_,hremoved,⟨hholds,fun n => ?_,fun n j hj => ?_,fun j hj => ?_,fun j => ?_,
    fun p n cmd hp => ?_,fun p j cmd hp => ?_,⟨trivial,h.faithful⟩⟩,
    ⟨⟨[.removed k],rfl,by simp [Event.push]⟩,hunreached,
      fun _ _ h => named_modify k h,le_rfl⟩⟩
  · rw [live_removed]
    exact (h.nodup n).filter _
  · exact named_modify k (h.named n j ((List.mem_cons.mp hj).resolve_left (by simp)))
  · rw [List.length_modify]
    rcases List.mem_cons.mp hj with hj | hj
    · cases hj
      exact hk.lt
    · exact h.fresh j hj
  · rw [sentTo_cons,Event.sends,Option.toList_none,List.append_nil,← h.sent]
    exact getElem?_modify_sent s.opened k (f := fun cs => { cs with live := false }) (fun _ => rfl) j
  · exact h.snapshots p n cmd ((List.mem_cons.mp hp).resolve_left (by simp))
  · exact h.pushed p j cmd ((List.mem_cons.mp hp).resolve_left (by simp))

theorem delivered_deliver (cs : ControlStream) :
    cs.deliver.delivered ++ cs.deliver.commands = cs.delivered ++ cs.commands := by
  cases hcommands : cs.commands <;> simp [ControlStream.deliver,hcommands]

theorem Kept.deliver (h : Kept s) (k : ℕ) : Kept (s.deliver k) ∧ Moved none s (s.deliver k) := by
  refine ⟨⟨h.holds,h.nodup,fun n j hj => named_modify k (h.named n j hj),fun j hj => ?_,fun j => ?_,
    h.snapshots,h.pushed,h.faithful⟩,
    ⟨⟨[],rfl,by simp⟩,unreached_refl _ _,fun _ _ hj => named_modify k hj,le_rfl⟩⟩
  · rw [ControlServer.deliver,List.length_modify]
    exact h.fresh j hj
  · rw [ControlServer.deliver,getElem?_modify_sent _ _ delivered_deliver]
    exact h.sent j

/-- A send to a stream that is there is no panic; it counts what it logs. -/
theorem Kept.send (h : Kept s) {k : ℕ} (hk : k < s.opened.length) (cmd : Cmd) {e : Event} (he : e.Quiet)
    (hholds : e.Holds s.log) (hsends : ∀ j, e.sends j = if k = j then some cmd else none)
    (hpush : ∀ p, e.push = some p → p < s.pushes) :
    ∃ s' n, s.send k cmd e = some (s',n) ∧ Kept s' ∧ Moved e.push s s' ∧
      (s'.log = s.log ∧ n = 0 ∨ s'.log = e :: s.log ∧ n = 1) ∧ s'.pushes = s.pushes ∧ s'.heap = s.heap ∧
        s'.streams = s.streams := by
  have hcs := List.getElem?_eq_getElem hk
  have hname : ∀ cs : ControlStream, (cs.push cmd).clientName = cs.clientName := fun cs => by
    rw [ControlStream.push]
    split_ifs <;> rfl
  by_cases hfull : (s.opened[k]).full = true
  · exact ⟨s,0,by rw [ControlServer.send,hcs]; simp only [if_pos hfull],h,.refl s,.inl ⟨rfl,rfl⟩,rfl,rfl,rfl⟩
  · refine ⟨{ s with opened := s.opened.modify k (.push cmd), log := e :: s.log },1,?_,?_,?_,.inr ⟨rfl,rfl⟩,rfl,rfl,
      rfl⟩
    · rw [ControlServer.send,hcs]
      simp only [if_neg hfull]
    · refine ⟨?_,fun n => ?_,fun n j hj => ?_,fun j hj => ?_,fun j => ?_,fun p n c hp => ?_,fun p j c hp => ?_,
        ⟨hholds,h.faithful⟩⟩
      · simp only [live_quiet he]
        exact h.holds
      · rw [live_quiet he]
        exact h.nodup n
      · refine named_modify k (h.named n j ((List.mem_cons.mp hj).resolve_left fun heq => ?_)) hname
        rw [← heq] at he
        exact he
      · rw [List.length_modify]
        exact h.fresh j ((List.mem_cons.mp hj).resolve_left fun heq => by rw [← heq] at he; exact he)
      · rw [sentTo_cons,hsends,List.getElem?_modify,← h.sent j]
        split_ifs with hj
        · rw [← hj,hcs]
          simp [ControlStream.push,hfull]
        · simp
      · exact h.snapshots p n c ((List.mem_cons.mp hp).resolve_left fun heq => by
          have hnone := hsends k
          rw [← heq,if_pos rfl] at hnone
          cases hnone)
      · rcases List.mem_cons.mp hp with rfl | hp
        · exact hpush p rfl
        · exact h.pushed p j c hp
    · exact ⟨⟨[e],rfl,fun e' he' p hp => by rw [← List.mem_singleton.mp he']; exact hp⟩,unreached_refl _ _,
        fun _ _ hj => named_modify k hj hname,le_rfl⟩

theorem Kept.snapshot (h : Kept s) (extra : ℕ) (name : String) (cmd : Cmd) :
    Kept (s.snapshot extra name cmd).1 ∧ Moved none s (s.snapshot extra name cmd).1 ∧
      Pushing (s.snapshot extra name cmd).1 s.log s.pushes name cmd (s.snapshot extra name cmd).2 0 0 := by
  obtain ⟨hholds,hunreached,hvalid,helements,hapart⟩ := h.holds.clone extra name
  have hkept : Kept (s.snapshot extra name cmd).1 := h.record (e := .snapshot s.pushes name cmd) trivial
    (fun n c hp => (h.snapshots _ n c hp).false) (fun _ => rfl) (Nat.le_succ _)
    (fun p n c hp => by cases hp; exact Nat.lt_succ_self _) hholds
  refine ⟨hkept,⟨⟨[.snapshot s.pushes name cmd],rfl,by simp [Event.push]⟩,hunreached,fun _ _ hk => hk,Nat.le_succ _⟩,
    ⟨Nat.lt_succ_self _,List.suffix_rfl,hvalid,helements,hapart,h.nodup name,fun k hk => h.live_named hk,
      fun k c hk => ?_,?_⟩⟩
  · exact absurd (h.pushed _ k c ((List.mem_cons.mp hk).resolve_left (by simp))) (lt_irrefl _)
  · have hzero : enqueuedBy s.pushes s.log = 0 := by
      refine List.countP_eq_zero.mpr fun e he => ?_
      cases e <;> simp only [Event.push,decide_false,reduceCtorEq,Bool.false_eq_true,not_false_iff]
      rename_i p k c
      have := h.pushed p k c he
      simp only [Option.some.injEq,decide_eq_true_eq]
      omega
    simp [ControlServer.snapshot,enqueuedBy_cons,Event.push,hzero]

/-- One turn of a push: it reaches the next stream of its copy. -/
theorem Pushing.next {pre : List Event} {p : ℕ} {name : String} {cmd : Cmd} {streams : Slice} {i reached : ℕ}
    (hp : Pushing s pre p name cmd streams i reached) (h : Kept s) (hi : i < streams.len) :
    ∃ k s' n, read s.heap streams i = some (some k) ∧ s.send k cmd (.enqueued p k cmd) = some (s',n) ∧ Kept s' ∧
      Moved (some p) s s' ∧ Pushing s' pre p name cmd streams (i+1) (reached+n) := by
  have hlen : i < (live name pre).length := by
    have hlength := hp.valid.length_elements
    rw [hp.elements,List.length_map] at hlength
    omega
  have hk : (live name pre)[i] ∈ live name pre := List.getElem_mem hlen
  have hread : read s.heap streams i = some (some (live name pre)[i]) := by
    rw [read_eq,hp.elements,List.getElem?_map,List.getElem?_eq_getElem hlen,Option.map_some]
  have hnew : ∀ c, .enqueued p (live name pre)[i] c ∉ s.log := by
    intro c hc
    obtain ⟨j,hj,heq⟩ := List.mem_take_iff_getElem.mp (hp.passed _ c hc)
    have : j = i := hp.nodup.getElem_inj_iff.mp heq
    omega
  obtain ⟨s',n,hsend,hkept,hmoved,hlog,hpushes,hheap,hstreams⟩ := h.send (hp.named _ hk).lt cmd
    (e := .enqueued p (live name pre)[i] cmd) trivial ⟨hnew,name,pre,hp.snapshot,hk⟩ (fun _ => rfl)
    (fun q hq => by cases hq; exact hp.id)
  refine ⟨_,s',n,hread,hsend,hkept,hmoved,?_⟩
  have htake : (live name pre).take (i+1) = (live name pre).take i ++ [(live name pre)[i]] :=
    List.take_succ_eq_append_getElem hlen
  have hsnapshot : .snapshot p name cmd :: pre <:+ s'.log := by
    obtain ⟨es,hes,-⟩ := hmoved.log
    exact hes ▸ hp.snapshot.trans (List.suffix_append _ _)
  refine ⟨hpushes ▸ hp.id,hsnapshot,hheap ▸ hp.valid,hheap ▸ hp.elements,hstreams ▸ hp.apart,hp.nodup,
    fun k hk => hmoved.named name k (hp.named k hk),fun k c hk => ?_,?_⟩
  · rw [htake]
    rcases hlog with ⟨hlog,-⟩ | ⟨hlog,-⟩
    · exact List.mem_append_left _ (hp.passed k c (hlog ▸ hk))
    · rw [hlog] at hk
      rcases List.mem_cons.mp hk with hk | hk
      · obtain ⟨-,rfl,-⟩ := Event.enqueued.inj hk
        exact List.mem_append_right _ List.mem_cons_self
      · exact List.mem_append_left _ (hp.passed k c hk)
  · rcases hlog with ⟨hlog,rfl⟩ | ⟨hlog,rfl⟩
    · rw [hlog]
      exact hp.reached
    · rw [hlog,enqueuedBy_cons,← hp.reached]
      simp [Event.push]

/-- What a step of a call does: it is no panic and keeps what the log says. -/
theorem advance_spec (h : Kept s) {q : Pc} (hq : q.Follows s) (e : Env) :
    ∃ s', Kept s' ∧ Moved q.id s s' ∧
      ((∃ q', advance e s q = (s',.inl q') ∧ q'.Follows s' ∧ (q'.id = q.id ∨ q'.id = some s.pushes)) ∨
        ∃ r, advance e s q = (s',.inr r) ∧ r ≠ .panic) := by
  cases q with
  | subscribe name =>
    by_cases hname : name = ""
    · exact ⟨s,h,.refl s,.inr ⟨_,by rw [advance,if_pos hname],by simp⟩⟩
    · exact ⟨s,h,.refl s,.inl ⟨.addStream name,by rw [advance,if_neg hname],trivial,.inl rfl⟩⟩
  | addStream name =>
    obtain ⟨hkept,hmoved,hnamed⟩ := h.addStream e.extra name
    exact ⟨_,hkept,hmoved,.inl ⟨.resume name s.opened.length,rfl,hnamed,.inl rfl⟩⟩
  | resume name k =>
    cases hcmd : e.resumed with
    | none => exact ⟨s,h,.refl s,.inl ⟨.serve name k,by simp only [advance,hcmd],hq,.inl rfl⟩⟩
    | some cmd =>
      obtain ⟨s',n,hsend,hkept,hmoved,-⟩ := h.send hq.lt cmd (e := .resumed k cmd) trivial trivial (fun _ => rfl)
        (fun p hp => by cases hp)
      exact ⟨s',hkept,hmoved,.inl ⟨.serve name k,by simp only [advance,hcmd,hsend],hmoved.named name k hq,.inl rfl⟩⟩
  | serve name k =>
    have hremove : ∀ s', s.removeStream name k = some s' → e.event = .sendError ∨ e.event = .disconnect →
        advance e s (.serve name k) = (s',.inr .closed) := by
      intro s' hs' hevent
      rcases hevent with hevent | hevent <;> simp only [advance,hevent,hs']
    obtain ⟨s',hs',hkept,hmoved⟩ := h.removeStream hq
    cases hevent : e.event with
    | deliver =>
      obtain ⟨hkept',hmoved'⟩ := h.deliver k
      exact ⟨_,hkept',hmoved',.inl ⟨.serve name k,by simp only [advance,hevent],hmoved'.named name k hq,.inl rfl⟩⟩
    | tick => exact ⟨s,h,.refl s,.inl ⟨.serve name k,by simp only [advance,hevent],hq,.inl rfl⟩⟩
    | sendError => exact ⟨s',hkept,hmoved,.inr ⟨.closed,hremove s' hs' (.inl hevent),by simp⟩⟩
    | disconnect => exact ⟨s',hkept,hmoved,.inr ⟨.closed,hremove s' hs' (.inr hevent),by simp⟩⟩
  | pushAll name cmd =>
    obtain ⟨hkept,hmoved,hpushing⟩ := h.snapshot e.extra name cmd
    exact ⟨_,hkept,hmoved,.inl ⟨.push s.pushes name cmd _ 0 0,rfl,⟨_,hpushing⟩,.inr rfl⟩⟩
  | push p name cmd streams i reached =>
    obtain ⟨pre,hp⟩ := hq
    by_cases hi : i < streams.len
    · obtain ⟨k,s',n,hread,hsend,hkept,hmoved,hpushing⟩ := hp.next h hi
      exact ⟨s',hkept,hmoved,.inl ⟨.push p name cmd streams (i+1) (reached+n),
        by simp only [advance,if_pos hi,hread,hsend],⟨pre,hpushing⟩,.inl rfl⟩⟩
    · have hkept := h.record (e := .returned p reached) trivial hp.reached (fun _ => rfl) le_rfl
        (fun q n c hq => by cases hq) h.holds
      exact ⟨_,hkept,⟨⟨[.returned p reached],rfl,by simp [Event.push]⟩,unreached_refl _ _,fun _ _ hk => hk,le_rfl⟩,
        .inr ⟨.reached reached,by simp only [advance,if_neg hi]; rfl,by simp⟩⟩
  | onlineCount name =>
    have hkept := h.record (e := .counted name (s.onlineCount name)) trivial (h.onlineCount name) (fun _ => rfl)
      le_rfl (fun q n c hq => by cases hq) h.holds
    exact ⟨_,hkept,⟨⟨[.counted name (s.onlineCount name)],rfl,by simp [Event.push]⟩,unreached_refl _ _,
      fun _ _ hk => hk,le_rfl⟩,.inr ⟨.count (s.onlineCount name),rfl,by simp⟩⟩

end Invariant

section Refinement

/-- The control plane's registry of lists, of which the slices of the table are the memory. -/
def Refines (s : ControlServer) (g : ControlPlane.Engine) : Prop :=
  s.opened = g.streams ∧ Holds s.heap s.streams fun name => (g.registry name).map some

variable {s : ControlServer} {g : ControlPlane.Engine}

theorem Refines.addStream (h : Refines s g) (extra : ℕ) (name : String) :
    Refines (s.addStream extra name) (g.addStream name) := by
  obtain ⟨hopened,hholds⟩ := h
  refine ⟨by simp only [ControlServer.addStream,ControlPlane.Engine.addStream,hopened],?_⟩
  have hlists : (fun n => ((g.addStream name).registry n).map some) =
      Function.update (fun n => (g.registry n).map some) name
        ((g.registry name).map some ++ [some s.opened.length]) := by
    funext n
    by_cases hn : n = name
    · simp [ControlPlane.Engine.addStream,hn,hopened]
    · simp [ControlPlane.Engine.addStream,hn]
  rw [hlists]
  exact (hholds.append extra name (some s.opened.length)).1

theorem Refines.removeStream (h : Refines s g) (name : String) (k : ℕ) :
    ∃ s', s.removeStream name k = some s' ∧ Refines s' (g.removeStream name k) := by
  obtain ⟨hopened,hholds⟩ := h
  obtain ⟨h',sl,hfilter,hholds',-⟩ := hholds.filter name fun x => x ≠ some k
  refine ⟨_,by rw [ControlServer.removeStream,hfilter],by rw [ControlPlane.Engine.removeStream,hopened],?_⟩
  convert hholds' using 1
  funext n
  by_cases hn : n = name
  · simp [ControlPlane.Engine.removeStream,hn,List.filter_map,Function.comp_def]
  · simp [ControlPlane.Engine.removeStream,hn]

theorem Refines.send (h : Refines s g) {k : ℕ} (hk : k < s.opened.length) (cmd : Cmd) (e : Event) :
    ∃ s', s.send k cmd e = some (s',g.reached k) ∧ Refines s' (g.push k cmd) := by
  obtain ⟨hopened,hholds⟩ := h
  have hcs := List.getElem?_eq_getElem hk
  rw [ControlServer.send,ControlPlane.Engine.reached,← hopened,hcs]
  simp only
  split_ifs with hfull
  · refine ⟨s,rfl,?_,hholds⟩
    rw [ControlPlane.Engine.push,← hopened]
    refine (List.ext_getElem? fun j => ?_).symm
    rw [List.getElem?_modify]
    split_ifs with hj
    · rw [← hj,hcs]
      simp [ControlStream.push,hfull]
    · simp
  · exact ⟨_,rfl,by rw [ControlPlane.Engine.push,← hopened],hholds⟩

theorem Refines.sent (h : Refines s g) {k : ℕ} {cmd : Cmd} {e : Event} {s' : ControlServer} {n : ℕ}
    (hsend : s.send k cmd e = some (s',n)) : Refines s' (g.push k cmd) := by
  by_cases hk : k < s.opened.length
  · obtain ⟨s'',hs'',hrefines⟩ := h.send hk cmd e
    obtain ⟨rfl,-⟩ := Prod.mk.inj (Option.some.inj (hsend.symm.trans hs''))
    exact hrefines
  · rw [ControlServer.send,List.getElem?_eq_none (not_lt.mp hk)] at hsend
    cases hsend

theorem Refines.snapshot (h : Refines s g) (extra : ℕ) (name : String) (cmd : Cmd) :
    Refines (s.snapshot extra name cmd).1 g := ⟨h.1,(h.2.clone extra name).1⟩

theorem Refines.deliver (h : Refines s g) (k : ℕ) :
    Refines (s.deliver k) { g with streams := g.streams.modify k .deliver } :=
  ⟨by rw [ControlServer.deliver,h.1],h.2⟩

/-- What one step of the control plane does to its streams and their lists. -/
inductive Registers : ControlPlane.Engine → ControlPlane.Engine → Prop
  | nothing (g : ControlPlane.Engine) : Registers g g
  | addStream (g : ControlPlane.Engine) (name : String) : Registers g (g.addStream name)
  | removeStream (g : ControlPlane.Engine) (name : String) (k : ℕ) : Registers g (g.removeStream name k)
  | push (g : ControlPlane.Engine) (k : ℕ) (cmd : Cmd) : Registers g (g.push k cmd)
  | deliver (g : ControlPlane.Engine) (k : ℕ) : Registers g { g with streams := g.streams.modify k .deliver }

theorem refines_advance (h : Refines s g) {e : Env} {q : Pc} {s' : ControlServer} {o : Pc ⊕ Response}
    (hadv : advance e s q = (s',o)) : ∃ g', Registers g g' ∧ Refines s' g' := by
  cases q with
  | subscribe name =>
    simp only [advance] at hadv
    split at hadv <;> cases hadv <;> exact ⟨g,.nothing g,h⟩
  | addStream name =>
    cases hadv
    exact ⟨_,.addStream g name,h.addStream e.extra name⟩
  | resume name k =>
    simp only [advance] at hadv
    split at hadv
    · cases hadv
      exact ⟨g,.nothing g,h⟩
    · split at hadv <;> cases hadv
      · exact ⟨g,.nothing g,h⟩
      · exact ⟨_,.push g k _,h.sent (by assumption)⟩
  | serve name k =>
    obtain ⟨r,hr,hrefines⟩ := h.removeStream name k
    simp only [advance,hr] at hadv
    split at hadv <;> cases hadv
    · exact ⟨_,.deliver g k,h.deliver k⟩
    · exact ⟨g,.nothing g,h⟩
    · exact ⟨_,.removeStream g name k,hrefines⟩
    · exact ⟨_,.removeStream g name k,hrefines⟩
  | pushAll name cmd =>
    cases hadv
    exact ⟨g,.nothing g,h.snapshot e.extra name cmd⟩
  | push p name cmd streams i reached =>
    simp only [advance] at hadv
    split at hadv
    · split at hadv
      · split at hadv <;> cases hadv
        · exact ⟨g,.nothing g,h⟩
        · exact ⟨_,.push g _ cmd,h.sent (by assumption)⟩
      · cases hadv
        exact ⟨g,.nothing g,h⟩
      · cases hadv
        exact ⟨g,.nothing g,h⟩
    · cases hadv
      exact ⟨g,.nothing g,h⟩
  | onlineCount name =>
    cases hadv
    exact ⟨g,.nothing g,h⟩

/-- Every run on the backing arrays is a run of the control plane's registry of lists. -/
theorem run_refines (b : SessionStore.Backend) {labels : List Label} {t : State}
    (hrun : exec step start labels = some t) :
    ∃ g, Relation.ReflTransGen Registers (ControlPlane.Engine.new b) g ∧ Refines t.shared g := by
  have hnew : Refines start.shared (ControlPlane.Engine.new b) := ⟨rfl,holds_nil _⟩
  refine (Run.of_exec_true hrun).invariant
    (fun t => ∃ g, Relation.ReflTransGen Registers (ControlPlane.Engine.new b) g ∧ Refines t.shared g)
    (fun s a t hs _ hst => ?_) ⟨_,.refl,hnew⟩
  obtain ⟨g,hg,hrefines⟩ := hs
  rcases Pool.step_cases hst with ⟨c,rfl,rfl⟩ | ⟨i,e,l,r,p,s',p',rfl,-,-,hadv,rfl⟩ | ⟨i,e,l,r,p,s',v,rfl,-,-,hadv,rfl⟩
  · exact ⟨g,hg,hrefines⟩
  all_goals
    obtain ⟨g',hstep,hnext⟩ := refines_advance hrefines hadv
    exact ⟨g',hg.tail hstep,hnext⟩

end Refinement

section Runs

theorem Faithful.holds {post pre : List Event} {e : Event} (h : Faithful (post ++ e :: pre)) : e.Holds pre := by
  induction post with
  | nil => exact h.1
  | cons x post ih => exact ih h.2

theorem Pc.Follows.id_lt {s : ControlServer} {q : Pc} (h : q.Follows s) {n : ℕ} (hn : q.id = some n) :
    n < s.pushes := by
  cases q with
  | push p name cmd streams i reached =>
    obtain ⟨pre,hp⟩ := h
    cases hn
    exact hp.id
  | _ => cases hn

/-- However the calls interleave, the registry is kept and no call panics. -/
theorem run_kept {as : List Label} {t : State} (hr : Run step (fun _ _ => True) start as t) :
    Kept t.shared ∧ .panic ∉ t.replies := by
  have hstart : Pool.Holds (fun s rs _ => Kept s ∧ .panic ∉ rs) (fun q s _ => q.Follows s) Pc.Differ start :=
    ⟨⟨.new,List.not_mem_nil⟩,fun q hq => absurd hq List.not_mem_nil,.nil⟩
  refine (Pool.run_holds (fun p q hpq n hq hp => hpq n hp hq) ?_ ?_ ?_ hr hstart).shared
  · intro s c _ hs
    refine ⟨hs.shared,?_,fun q _ n hn => ?_⟩
    · cases c <;> trivial
    · cases c <;> cases hn
  · intro s i e p o s' p' _ _ _ hadv hG hp ho hpair
    obtain ⟨s'',hkept,hmoved,⟨q',hstep,hfollows,hid⟩ | ⟨r,hstep,-⟩⟩ := advance_spec hG.1 hp e
    · obtain ⟨rfl,hq⟩ := Prod.mk.inj (hadv.symm.trans hstep)
      cases hq
      refine ⟨⟨hkept,hG.2⟩,hfollows,fun q hq => (ho q hq).moved hmoved (hpair q hq),fun q hq n hn hqn => ?_⟩
      rcases hid with hid | hid
      · exact hpair q hq n (hid ▸ hn) hqn
      · rw [hid] at hn
        cases hn
        exact ((ho q hq).id_lt hqn).false
    · cases hadv.symm.trans hstep
  · intro s i e p o s' v _ _ _ hadv hG hp ho hpair
    obtain ⟨s'',hkept,hmoved,⟨q',hstep,-⟩ | ⟨r,hstep,hpanic⟩⟩ := advance_spec hG.1 hp e
    · cases hadv.symm.trans hstep
    · obtain ⟨rfl,hv⟩ := Prod.mk.inj (hadv.symm.trans hstep)
      cases hv
      refine ⟨⟨hkept,fun hmem => ?_⟩,fun q hq => (ho q hq).moved hmoved (hpair q hq)⟩
      rcases List.mem_cons.mp hmem with hmem | hmem
      · exact hpanic hmem.symm
      · exact hG.2 hmem

end Runs

/-- In every run the list of a client holds the streams added and not yet removed, each once, and only clients with
such streams have an entry; a push puts its command at most once into the channel of a stream, which was live under
the client's name at its snapshot; the counts are those of the live streams; the channels hold what was put there. -/
theorem registry_exact {labels : List Label} {t : State} (hrun : exec step start labels = some t) :
    (∀ name, elements t.shared.heap (lookup t.shared.streams name) = (live name t.shared.log).map some ∧
      (live name t.shared.log).Nodup ∧ (t.shared.streams name = none ↔ live name t.shared.log = []) ∧
      ∀ k ∈ live name t.shared.log, Named t.shared.opened name k) ∧
    (∀ post p k cmd pre, t.shared.log = post ++ Event.enqueued p k cmd :: pre →
      (∀ cmd', .enqueued p k cmd' ∉ pre) ∧
        ∃ name pre', Event.snapshot p name cmd :: pre' <:+ pre ∧ k ∈ live name pre' ∧ Named t.shared.opened name k) ∧
    (∀ post p name cmd pre, t.shared.log = post ++ Event.snapshot p name cmd :: pre →
      ∀ name' cmd', .snapshot p name' cmd' ∉ pre) ∧
    (∀ post name n pre, t.shared.log = post ++ Event.counted name n :: pre → n = (live name pre).length) ∧
    (∀ k, (t.shared.opened[k]?.map fun cs => cs.delivered ++ cs.commands).getD [] = sentTo k t.shared.log) ∧
    .panic ∉ t.replies := by
  obtain ⟨h,hpanic⟩ := run_kept (.of_exec_true hrun)
  have hholds : ∀ {post pre : List Event} {e : Event}, t.shared.log = post ++ e :: pre → e.Holds pre := fun heq => (heq ▸ h.faithful).holds
  refine ⟨fun name => ⟨h.holds.elements name,h.nodup name,?_,fun k => h.live_named⟩,fun post p k cmd pre heq => ?_,
    fun _ _ _ _ _ => hholds,fun _ _ _ _ => hholds,h.sent,hpanic⟩
  · rw [h.holds.entry name,List.map_eq_nil_iff]
  · obtain ⟨honce,name,pre',hsnapshot,hk⟩ := hholds heq
    refine ⟨honce,name,pre',hsnapshot,hk,h.named name k ?_⟩
    rw [heq]
    exact List.mem_append_right _ (List.mem_cons_of_mem _ (hsnapshot.subset
      (List.mem_cons_of_mem _ (mem_added_of_live hk))))

/-- Two replicas of a client; the first one leaves, and a third one comes, while a push walks over its copy. -/
def replicas : List Label :=
  [.invoke (.subscribe "api"),.advance 0 {},.advance 0 {},.advance 0 {},.invoke (.subscribe "api"),.advance 1 {},
    .advance 1 {},.advance 1 {},.invoke (.pushAll "api" (.stop "ses_1" 0)),.advance 2 { extra := 3 },.advance 2 {},
    .advance 0 { event := .disconnect },.invoke (.subscribe "api"),.advance 2 {},.advance 2 {},.advance 1 {},
    .advance 1 {},.invoke (.onlineCount "api"),.advance 2 {}]

theorem registry_exact_replicas : ∃ t, exec step start replicas = some t ∧
    elements t.shared.heap (lookup t.shared.streams "api") = [some 1,some 2] ∧ .panic ∉ t.replies := by
  have hend : ∃ t ∈ exec step start replicas, live "api" t.shared.log = [1,2] := by decide +kernel
  obtain ⟨t,ht,hlive⟩ := hend
  obtain ⟨hlists,-,-,-,-,hpanic⟩ := registry_exact ht
  refine ⟨t,ht,?_,hpanic⟩
  rw [(hlists "api").1,hlive]
  rfl

end StreamRegistry
end Clearvoiance
