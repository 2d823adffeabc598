import Clearvoiance.OutboundCapture

/-! The tap on a request body.  Listening makes a paused body flow, and what flows reaches only those who listen by
then, so whoever comes later may miss the beginning of the body. -/
namespace Clearvoiance
namespace RequestTap

open OutboundCapture (CappedBuffer)
open Signature (Bytes)

inductive Item
  | chunk (bytes : Bytes)
  | ended
  deriving DecidableEq

/-- A chunk or the end of the body arrives, the stream emits what comes next, someone further down begins to listen
for data and for the end, or the response finishes. -/
inductive Label
  | arrive (item : Item)
  | turn
  | attach
  | respond
  deriving DecidableEq

/-- What has arrived and was not emitted yet, and what each listener further down has received. -/
structure Readable where
  pending : List Item
  flowing : Bool
  logs : List (List Item)

namespace Readable

def emits (r : Readable) : Option Item := if r.flowing then r.pending.head? else none

def step (r : Readable) : Label → Readable
  | .arrive item => { r with pending := r.pending ++ [item] }
  | .turn =>
    match r.emits with
    | some item => { r with pending := r.pending.tail, logs := r.logs.map (· ++ [item]) }
    | none => r
  | .attach => { r with flowing := true, logs := r.logs ++ [[]] }
  | .respond => r

def run (r : Readable) (labels : List Label) : Readable := labels.foldl step r

@[simp] theorem run_nil (r : Readable) : r.run [] = r := rfl
@[simp] theorem run_cons (r : Readable) (l : Label) (labels : List Label) :
    r.run (l :: labels) = (r.step l).run labels := rfl
@[simp] theorem run_append (r : Readable) (labels more : List Label) :
    r.run (labels ++ more) = (r.run labels).run more := List.foldl_append

end Readable

/-- `onReqData`, until the end of the body takes it off. -/
structure Tap where
  reqBuf : CappedBuffer
  listening : Bool

def Tap.receive (tap : Tap) : Item → Tap
  | .chunk bytes => if tap.listening then { tap with reqBuf := tap.reqBuf.push bytes } else tap
  | .ended => { tap with listening := false }

/-- The request behind the middleware, which takes what it has when the response finishes. -/
structure Tapped where
  readable : Readable
  tap : Tap
  captured : Option Bytes

def Tapped.step (s : Tapped) (l : Label) : Tapped where
  readable := s.readable.step l
  tap :=
    match l,s.readable.emits with
    | .turn,some item => s.tap.receive item
    | _,_ => s.tap
  captured :=
    match l with
    | .respond => s.captured <|> some s.tap.reqBuf.toBuffer
    | _ => s.captured

def plain (labels : List Label) : Readable := Readable.run ⟨[],false,[]⟩ labels

/-- The same request after `req.on("data", onReqData)`. -/
def tapped (cap : ℕ) (labels : List Label) : Tapped :=
  labels.foldl Tapped.step ⟨⟨[],true,[]⟩,⟨.empty cap,true⟩,none⟩

def arrivals (labels : List Label) : List Item :=
  labels.filterMap fun | .arrive item => some item | _ => none

def Item.bytes : Item → Bytes
  | .chunk bytes => bytes
  | .ended => []

def bodyOf (items : List Item) : Bytes := (items.takeWhile (· ≠ .ended)).flatMap Item.bytes

/-- However long the stream goes on, those further down receive what they would without the tap. -/
def Transparent (cap : ℕ) (labels : List Label) : Prop :=
  ∀ n, (tapped cap (labels ++ List.replicate n Label.turn)).readable.logs =
    (plain (labels ++ List.replicate n Label.turn)).logs

def CapturedBegins (cap : ℕ) (labels : List Label) : Prop :=
  ∀ bytes, (tapped cap labels).captured = some bytes → bytes = (bodyOf (arrivals labels)).take cap

/-- What a stream that flows all the time has emitted and what waits. -/
structure Flow where
  emitted : List Item
  waiting : List Item

def Flow.step (f : Flow) : Label → Flow
  | .arrive item => { f with waiting := f.waiting ++ [item] }
  | .turn => ⟨f.emitted ++ f.waiting.head?.toList,f.waiting.tail⟩
  | .attach | .respond => f

def flow (labels : List Label) : Flow := labels.foldl Flow.step ⟨[],[]⟩

/-- When something has arrived before a turn, and someone listens later, then someone listens already. -/
def NothingMissed (labels : List Label) : Prop :=
  ∀ a b : List Label, labels = a ++ Label.turn :: b → (∃ item, .arrive item ∈ a) → .attach ∈ b → .attach ∈ a

/-- By the time of the response the stream has emitted as much of the body as the buffer holds, or all of it. -/
def BodySeen (cap : ℕ) (labels : List Label) : Prop :=
  ∀ a b : List Label, labels = a ++ Label.respond :: b → .respond ∉ a →
    cap ≤ (bodyOf (flow a).emitted).length ∨ bodyOf (flow a).emitted = bodyOf (arrivals labels)

@[simp] theorem arrivals_nil : arrivals [] = [] := rfl
@[simp] theorem arrivals_append (labels more : List Label) :
    arrivals (labels ++ more) = arrivals labels ++ arrivals more := List.filterMap_append
@[simp] theorem arrivals_arrive (item : Item) : arrivals [.arrive item] = [item] := rfl
@[simp] theorem arrivals_turn : arrivals [.turn] = [] := rfl
@[simp] theorem arrivals_attach : arrivals [.attach] = [] := rfl
@[simp] theorem arrivals_respond : arrivals [.respond] = [] := rfl

theorem arrivals_eq_nil_iff (labels : List Label) : arrivals labels = [] ↔ ∀ item, .arrive item ∉ labels := by
  constructor
  · intro h item hmem
    have := List.filterMap_eq_nil_iff.mp h _ hmem
    cases this
  · intro h
    apply List.filterMap_eq_nil_iff.mpr
    intro l hl
    cases l with
    | arrive item => exact absurd hl (h item)
    | turn | attach | respond => rfl

@[simp] theorem flow_nil : flow [] = ⟨[],[]⟩ := rfl
@[simp] theorem flow_append (labels more : List Label) : flow (labels ++ more) = more.foldl Flow.step (flow labels) :=
  List.foldl_append

/-- Nothing is lost and nothing changes its place in a stream that flows. -/
theorem flow_conserves (labels : List Label) : (flow labels).emitted ++ (flow labels).waiting = arrivals labels := by
  induction labels using List.reverseRecOn with
  | nil => rfl
  | append_singleton labels l ih =>
    rw [flow_append,arrivals_append,← ih]
    cases l with
    | arrive item => simp [Flow.step]
    | turn => cases hw : (flow labels).waiting <;> simp [Flow.step,hw]
    | attach | respond => simp [Flow.step]

theorem emitted_foldl_prefix (f : Flow) (labels : List Label) : f.emitted <+: (labels.foldl Flow.step f).emitted := by
  induction labels generalizing f with
  | nil => exact List.prefix_rfl
  | cons l labels ih =>
    refine List.IsPrefix.trans ?_ (ih (f.step l))
    cases l with
    | turn => exact List.prefix_append _ _
    | arrive item | attach | respond => exact List.prefix_rfl

/-- Nothing has been emitted as long as no turn comes after an arrival. -/
theorem emitted_eq_nil_iff (labels : List Label) :
    (flow labels).emitted = [] ↔ ∀ a b : List Label, labels = a ++ Label.turn :: b → ∀ item, .arrive item ∉ a := by
  constructor
  · rintro h a b rfl item hmem
    have hsplit : flow (a ++ .turn :: b) = b.foldl Flow.step ((flow a).step .turn) := by simp
    have hnone : (flow a).emitted ++ (flow a).waiting.head?.toList = [] := by
      have hle := emitted_foldl_prefix ((flow a).step .turn) b
      rw [← hsplit,h] at hle
      exact List.prefix_nil.mp hle
    obtain ⟨hemitted,hhead⟩ := List.append_eq_nil_iff.mp hnone
    have hwaiting : (flow a).waiting = [] := by
      cases hw : (flow a).waiting with
      | nil => rfl
      | cons x w => simp [hw] at hhead
    have harrivals := flow_conserves a
    rw [hemitted,hwaiting] at harrivals
    exact (arrivals_eq_nil_iff a).mp harrivals.symm item hmem
  · intro h
    induction labels using List.reverseRecOn with
    | nil => rfl
    | append_singleton labels l ih =>
      have hearlier := ih fun a b hab => h a (b ++ [l]) (by simp [hab])
      rw [flow_append]
      cases l with
      | turn =>
        have harrivals := (arrivals_eq_nil_iff labels).mpr (h labels [] rfl)
        rw [← flow_conserves,List.append_eq_nil_iff] at harrivals
        simp [Flow.step,hearlier,harrivals.2]
      | arrive item | attach | respond => exact hearlier

namespace Readable

theorem step_flowing (r : Readable) (l : Label) (h : r.flowing = true) : (r.step l).flowing = true := by
  cases l with
  | turn =>
    unfold step
    cases r.emits <;> exact h
  | attach => rfl
  | arrive item | respond => exact h

theorem emits_flowing {r : Readable} (h : r.flowing = true) : r.emits = r.pending.head? := if_pos h

theorem pending_turn {r : Readable} (h : r.flowing = true) : (r.step .turn).pending = r.pending.tail := by
  unfold step
  rw [emits_flowing h]
  cases hp : r.pending with
  | nil => simp [hp]
  | cons x p => simp

theorem run_flowing {r : Readable} (h : r.flowing = true) (labels : List Label) : (r.run labels).flowing = true := by
  induction labels generalizing r with
  | nil => exact h
  | cons l labels ih => exact ih (step_flowing r l h)

theorem pending_run_turns {r : Readable} (h : r.flowing = true) (n : ℕ) :
    (r.run (List.replicate n .turn)).pending = r.pending.drop n := by
  induction n generalizing r with
  | zero => rfl
  | succ n ih => rw [List.replicate_succ,run_cons,ih (step_flowing r .turn h),pending_turn h,List.drop_tail]

/-- What the first listener has received and what still waits for it. -/
def owed (r : Readable) : ℕ := (r.logs.head?.getD []).length+r.pending.length

theorem owed_step {r : Readable} (h : r.flowing = true) (hlogs : r.logs ≠ []) (l : Label) :
    (r.step l).owed = r.owed+(arrivals [l]).length ∧ (r.step l).logs ≠ [] := by
  obtain ⟨log,logs,hcons⟩ := List.exists_cons_of_ne_nil hlogs
  cases l with
  | arrive item => exact ⟨by simp [step,owed]; omega,hlogs⟩
  | turn =>
    unfold step
    rw [emits_flowing h]
    cases hp : r.pending with
    | nil => exact ⟨by simp [owed],hlogs⟩
    | cons x p =>
      refine ⟨?_,by simp [hcons]⟩
      simp [owed,hcons,hp]
      omega
  | attach => exact ⟨by simp [step,owed,hcons],by simp [step]⟩
  | respond => exact ⟨rfl,hlogs⟩

theorem owed_run {r : Readable} (h : r.flowing = true) (hlogs : r.logs ≠ []) (labels : List Label) :
    (r.run labels).owed = r.owed+(arrivals labels).length := by
  induction labels generalizing r with
  | nil => rfl
  | cons l labels ih =>
    obtain ⟨howed,hlogs'⟩ := owed_step h hlogs l
    have hlength : (arrivals (l :: labels)).length = (arrivals [l]).length+(arrivals labels).length := by
      rw [← List.length_append,← arrivals_append,List.singleton_append]
    rw [run_cons,ih (step_flowing r l h) hlogs',howed,hlength]
    omega

/-- Streams that flow and show the same once nothing waits have owed the same. -/
theorem owed_eq_of_logs {r r' : Readable} (h : r.flowing = true) (h' : r'.flowing = true) {n : ℕ}
    (hlogs : (r.run (List.replicate n .turn)).logs = (r'.run (List.replicate n .turn)).logs)
    (hr : r.logs ≠ []) (hr' : r'.logs ≠ []) (hn : r.pending.length ≤ n) (hn' : r'.pending.length ≤ n) :
    r.owed = r'.owed := by
  have harrivals : arrivals (List.replicate n .turn) = [] := by simp [arrivals_eq_nil_iff,List.mem_replicate]
  have howed := owed_run h hr (List.replicate n .turn)
  have howed' := owed_run h' hr' (List.replicate n .turn)
  simp only [harrivals,List.length_nil,Nat.add_zero] at howed howed'
  rw [← howed,← howed']
  unfold owed
  rw [hlogs,pending_run_turns h,pending_run_turns h',List.drop_eq_nil_of_le hn,List.drop_eq_nil_of_le hn']

theorem logs_run_ne_nil {r : Readable} (h : r.flowing = true) (hlogs : r.logs ≠ []) (labels : List Label) :
    (r.run labels).logs ≠ [] := by
  induction labels generalizing r with
  | nil => exact hlogs
  | cons l labels ih => exact ih (step_flowing r l h) (owed_step h hlogs l).2

/-- Before anyone listens further down, a stream at rest keeps everything. -/
theorem run_resting {labels : List Label} (h : .attach ∉ labels) :
    run ⟨[],false,[]⟩ labels = ⟨arrivals labels,false,[]⟩ := by
  induction labels using List.reverseRecOn with
  | nil => rfl
  | append_singleton labels l ih =>
    rw [List.mem_append,not_or] at h
    rw [run_append,ih h.1]
    cases l with
    | attach => simp at h
    | arrive item => simp [step]
    | turn => simp [step,emits]
    | respond => simp [step]

/-- Before anyone listens further down, a stream that flows keeps what it has not emitted. -/
theorem run_listening {labels : List Label} (h : .attach ∉ labels) :
    run ⟨[],true,[]⟩ labels = ⟨(flow labels).waiting,true,[]⟩ := by
  induction labels using List.reverseRecOn with
  | nil => rfl
  | append_singleton labels l ih =>
    rw [List.mem_append,not_or] at h
    rw [run_append,ih h.1,flow_append]
    cases l with
    | attach => simp at h
    | arrive item => simp [step,Flow.step]
    | turn => cases hw : (flow labels).waiting <;> simp [step,emits,Flow.step,hw]
    | respond => simp [step,Flow.step]

/-- What a stream that flows holds back does not depend on who listens further down. -/
theorem pending_listening (labels : List Label) :
    (run ⟨[],true,[]⟩ labels).pending = (flow labels).waiting := by
  induction labels using List.reverseRecOn with
  | nil => rfl
  | append_singleton labels l ih =>
    rw [run_append,flow_append]
    cases l with
    | arrive item => simp [step,Flow.step,ih]
    | turn =>
      have hturn := pending_turn (run_flowing (r := ⟨[],true,[]⟩) rfl labels)
      simpa [Flow.step,ih] using hturn
    | attach | respond => simpa [step,Flow.step] using ih

end Readable

theorem readable_tapped (cap : ℕ) (labels : List Label) :
    (tapped cap labels).readable = Readable.run ⟨[],true,[]⟩ labels := by
  have hstep : ∀ (t : Tapped) (l : Label), Readable.step t.readable l = (t.step l).readable := fun _ _ => rfl
  exact (List.foldl_hom Tapped.readable hstep).symm

/-- In a stream that flows the item which comes next is the first that waits. -/
theorem tap_eq (cap : ℕ) (labels : List Label) :
    (tapped cap labels).tap = (flow labels).emitted.foldl Tap.receive ⟨.empty cap,true⟩ := by
  induction labels using List.reverseRecOn with
  | nil => rfl
  | append_singleton labels l ih =>
    have hstep : (tapped cap (labels ++ [l])).tap = ((tapped cap labels).step l).tap := by simp [tapped]
    have hemits : (tapped cap labels).readable.emits = (flow labels).waiting.head? := by
      rw [readable_tapped,Readable.emits_flowing (Readable.run_flowing rfl labels),Readable.pending_listening]
    rw [hstep,flow_append]
    cases l with
    | turn =>
      simp only [Tapped.step,hemits,Flow.step,List.foldl_cons,List.foldl_nil,List.foldl_append,← ih]
      cases (flow labels).waiting.head? <;> rfl
    | arrive item | attach | respond => exact ih

theorem receive_not_listening (items : List Item) (buf : CappedBuffer) :
    (items.foldl Tap.receive ⟨buf,false⟩).reqBuf = buf := by
  induction items with
  | nil => rfl
  | cons item items ih => cases item <;> exact ih

theorem receive_listening (items : List Item) (buf : CappedBuffer) :
    (items.foldl Tap.receive ⟨buf,true⟩).reqBuf =
      ((items.takeWhile (· ≠ .ended)).map Item.bytes).foldl CappedBuffer.push buf := by
  induction items generalizing buf with
  | nil => rfl
  | cons item items ih =>
    cases item with
    | chunk bytes => exact ih (buf.push bytes)
    | ended => exact receive_not_listening items buf

/-- The buffer holds the beginning of what the stream has emitted. -/
theorem toBuffer_tapped (cap : ℕ) (labels : List Label) :
    (tapped cap labels).tap.reqBuf.toBuffer = (bodyOf (flow labels).emitted).take cap := by
  rw [tap_eq,receive_listening,CappedBuffer.toBuffer_foldl,bodyOf,List.flatMap_def]

theorem captured_kept {s : Tapped} {bytes : Bytes} (h : s.captured = some bytes) (labels : List Label) :
    (labels.foldl Tapped.step s).captured = some bytes := by
  induction labels generalizing s with
  | nil => exact h
  | cons l labels ih =>
    refine ih ?_
    cases l with
    | respond => simp [Tapped.step,h]
    | arrive item | turn | attach => exact h

theorem captured_before (cap : ℕ) {labels : List Label} (h : .respond ∉ labels) :
    (tapped cap labels).captured = none := by
  induction labels using List.reverseRecOn with
  | nil => rfl
  | append_singleton labels l ih =>
    rw [List.mem_append,not_or] at h
    have hstep : (tapped cap (labels ++ [l])).captured = ((tapped cap labels).step l).captured := by simp [tapped]
    rw [hstep]
    cases l with
    | respond => simp at h
    | arrive item | turn | attach => exact ih h.1

/-- What is taken is what the stream has emitted when the response finishes for the first time. -/
theorem captured_respond (cap : ℕ) {a : List Label} (b : List Label) (h : .respond ∉ a) :
    (tapped cap (a ++ .respond :: b)).captured = some ((bodyOf (flow a).emitted).take cap) := by
  have hsplit : tapped cap (a ++ .respond :: b) = b.foldl Tapped.step ((tapped cap a).step .respond) := by simp [tapped]
  rw [hsplit]
  apply captured_kept
  simp [Tapped.step,captured_before cap h,toBuffer_tapped]

theorem bodyOf_prefix {items more : List Item} : bodyOf items <+: bodyOf (items ++ more) := by
  unfold bodyOf
  induction items with
  | nil => exact List.nil_prefix
  | cons item items ih =>
    cases item with
    | ended => exact List.nil_prefix
    | chunk bytes => simpa using ih

theorem bodyOf_emitted_begins (a b : List Label) : bodyOf (flow a).emitted <+: bodyOf (arrivals (a ++ b)) := by
  rw [arrivals_append,← flow_conserves a,List.append_assoc]
  exact bodyOf_prefix

theorem take_prefix_eq_iff {xs ys : Bytes} (h : xs <+: ys) (cap : ℕ) :
    xs.take cap = ys.take cap ↔ cap ≤ xs.length ∨ xs = ys := by
  obtain ⟨zs,rfl⟩ := h
  constructor
  · intro htake
    by_contra hne
    rw [not_or,not_le] at hne
    have hlength := congrArg List.length htake
    simp only [List.length_take,List.length_append] at hlength
    exact hne.2 (by rw [List.eq_nil_of_length_eq_zero (l := zs) (by omega),List.append_nil])
  · rintro (hcap | heq)
    · rw [List.take_append_of_le_length hcap]
    · rw [← heq]

theorem capturedBegins_iff (cap : ℕ) (labels : List Label) : CapturedBegins cap labels ↔ BodySeen cap labels := by
  constructor
  · rintro h a b rfl hfirst
    exact (take_prefix_eq_iff (bodyOf_emitted_begins a _) cap).mp (h _ (captured_respond cap b hfirst))
  · intro h bytes hbytes
    by_cases hmem : .respond ∈ labels
    · obtain ⟨a,b,rfl,hfirst⟩ := List.eq_append_cons_of_mem hmem
      rw [captured_respond cap b hfirst,Option.some.injEq] at hbytes
      rw [← hbytes]
      exact (take_prefix_eq_iff (bodyOf_emitted_begins a _) cap).mpr (h a b rfl hfirst)
    · rw [captured_before cap hmem] at hbytes
      cases hbytes

/-- Where someone listens further down, nothing is missed when nothing was emitted before. -/
theorem nothingMissed_iff {a : List Label} (b : List Label) (h : .attach ∉ a) :
    NothingMissed (a ++ .attach :: b) ↔ (flow a).emitted = [] := by
  rw [emitted_eq_nil_iff]
  constructor
  · rintro hmissed c d rfl item hmem
    refine h (List.mem_append_left _ (hmissed c (d ++ .attach :: b) (by simp) ⟨item,hmem⟩ (by simp)))
  · rintro hnone c d hcd ⟨item,hmem⟩ -
    rcases List.append_eq_append_iff.mp hcd with ⟨e,hc,htail⟩ | ⟨e,ha,hd⟩
    · cases e with
      | nil => simp at htail
      | cons x e =>
        rw [List.cons_append,List.cons.injEq] at htail
        rw [hc,← htail.1]
        simp
    · cases e with
      | nil => simp at hd
      | cons x e =>
        rw [List.cons_append,List.cons.injEq] at hd
        exact absurd hmem (hnone c e (by rw [ha,← hd.1]) item)

theorem transparent_iff_nothingMissed (cap : ℕ) (labels : List Label) : Transparent cap labels ↔ NothingMissed labels := by
  unfold Transparent plain
  simp only [readable_tapped]
  by_cases hmem : .attach ∈ labels
  · obtain ⟨a,b,rfl,hfirst⟩ := List.eq_append_cons_of_mem hmem
    rw [nothingMissed_iff b hfirst]
    simp only [List.append_assoc,List.cons_append,Readable.run_append,Readable.run_cons,
      Readable.run_listening hfirst,Readable.run_resting hfirst,Readable.step,List.nil_append]
    have hconserves := flow_conserves a
    constructor
    · intro h
      let late : Readable := Readable.run ⟨(flow a).waiting,true,[[]]⟩ b
      let early : Readable := Readable.run ⟨arrivals a,true,[[]]⟩ b
      have hsame := Readable.owed_eq_of_logs (Readable.run_flowing rfl b) (Readable.run_flowing rfl b)
        (h (late.pending.length+early.pending.length)) (Readable.logs_run_ne_nil rfl (by simp) b)
        (Readable.logs_run_ne_nil rfl (by simp) b) (Nat.le_add_right _ _) (Nat.le_add_left _ _)
      rw [Readable.owed_run rfl (by simp),Readable.owed_run rfl (by simp)] at hsame
      have hlength := congrArg List.length hconserves
      rw [List.length_append] at hlength
      simp only [Readable.owed,List.head?_cons,Option.getD_some,List.length_nil] at hsame
      exact List.eq_nil_of_length_eq_zero (by omega)
    · intro h n
      rw [h,List.nil_append] at hconserves
      rw [hconserves]
  · refine iff_of_true (fun n => ?_) ?_
    · have hturns : Label.attach ∉ labels ++ List.replicate n Label.turn := by
        simp [hmem]
      rw [Readable.run_listening hturns,Readable.run_resting hturns]
    · rintro c d rfl - hd
      exact absurd (by simp [hd]) hmem

end RequestTap
end Clearvoiance
