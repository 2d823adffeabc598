import Clearvoiance.HeaderRedaction
import Clearvoiance.HttpBody
import Clearvoiance.Transition

/-! The Fastify adapter.  Four hooks and a listener for the chunks of the request body work on one map from requests
to what was captured of them; when a request is answered a task finalizes both bodies and sends the event.  The
hooks, chunks and tasks of many requests interleave.  A request object comes up in `onRequest` once, and `onError`
does not throw. -/
namespace Clearvoiance
namespace FastifyCapture

open HeaderRedaction (RawHeaders RedactionConfig RedactionResult redactHeaders)
open HttpBody (FinalizeOptions FinalizeResult bufferOf finalizeBody)
open MockPack (BlobRef)
open OutboundCapture (CappedBuffer SharedBuffer)
open RegExps (RegExp)
open Transition

abbrev Bytes := Hex.Bytes

/-- `uploads` says whether the client has `uploadBlob`. -/
structure Options (ι : Type) where
  maxBodyInlineBytes : ℕ := 64*1024
  maxBodyBlobBytes : ℕ := 10*1024*1024
  uploads : Bool
  redactHeaders : RedactionConfig ι
  regs : ι → RegExp

/-- What `onRequest` draws and reads. -/
structure Arrival where
  skipped : Bool
  eventId : String
  startHr : ℤ
  startWallNs : ℤ
  contentType : Option String

structure RequestState where
  eventId : String
  startHr : ℤ
  startWallNs : ℤ
  reqBuf : CappedBuffer
  resBuf : CappedBuffer
  reqContentType : Option String

/-- A `Buffer` may be written to again until its body is finalized. -/
inductive Chunk
  | buffer (b : SharedBuffer)
  | text (s : String)

/-- The bytes that are found when the body is finalized: a `Buffer` is kept by reference. -/
def toBuffer : Chunk → Bytes
  | .buffer b => b.recorded
  | .text s => Hex.utf8 s

def Chunk.sent : Chunk → Bytes
  | .buffer b => b.sent
  | .text s => Hex.utf8 s

/-- The payload of `onSend`; a stream is passed over. -/
inductive Payload
  | none
  | whole (c : Chunk)
  | stream

def Payload.observed : Payload → List Chunk
  | .whole c => [c]
  | _ => []

/-- What the task reads of the request and the reply in the end, with the user that the extractor gives or the error
that it throws, and the error of `sendBatch`. -/
structure View where
  method : String
  url : String
  headers : RawHeaders
  statusCode : ℤ
  replyHeaders : RawHeaders
  ip : Option String
  routeUrl : Option String
  routerPath : Option String
  userId : Except String (Option String)
  nowHr : ℤ
  sendErr : Option String

structure Event where
  id : String
  timestampNs : ℤ
  redactionsApplied : List JsonStrings.JsString
  method : String
  path : String
  headers : RedactionResult
  requestBody : Option HttpBody.Body
  status : ℤ
  responseHeaders : RedactionResult
  responseBody : Option HttpBody.Body
  durationNs : ℤ
  sourceIp : String
  userId : String
  routeTemplate : String

/-- The task of an answered request, between its awaits. -/
inductive Task
  | request (s : RequestState)
  | response (s : RequestState) (reqBody : FinalizeResult)
  | building (s : RequestState) (reqBody resBody : FinalizeResult)

/-- `lastIndex` belongs to the expressions of the matchers, which all requests share.  `onError` is called for a task
that threw and for an upload that failed, after which the task goes on. -/
structure State (ι : Type) where
  seen : List ℕ
  state : AList fun _ : ℕ => RequestState
  listeners : List ℕ
  tasks : AList fun _ : ℕ => Task
  lastIndex : ι → ℕ
  sent : List (ℕ × Event)
  errors : List (ℕ × String)
  uploadErrors : List (ℕ × String)

def init {ι : Type} (lastIndex : ι → ℕ) : State ι := ⟨[],∅,[],∅,lastIndex,[],[],[]⟩

/-- `finalize` is the next body of a task, with the content type of the reply and the answer of an upload. -/
inductive Label
  | onRequest (r : ℕ) (a : Arrival)
  | preParsing (r : ℕ) (observable : Bool)
  | data (r : ℕ) (chunk : Chunk)
  | onSend (r : ℕ) (payload : Payload)
  | onResponse (r : ℕ)
  | finalize (r : ℕ) (contentType : Option String) (answer : Except String BlobRef)
  | send (r : ℕ) (v : View)

def Label.owner : Label → ℕ
  | .onRequest r _ | .preParsing r _ | .data r _ | .onSend r _ | .onResponse r | .finalize r _ _ | .send r _ => r

section

variable {ι : Type} (o : Options ι)

def Options.bufferCap : ℕ := if o.uploads then o.maxBodyBlobBytes else o.maxBodyInlineBytes

def Options.finalizing (contentType : Option String) (answer : Except String BlobRef) : FinalizeOptions :=
  ⟨o.maxBodyInlineBytes,contentType,if o.uploads then some fun _ _ => answer else none⟩

def Options.buffer (chunks : List Chunk) : CappedBuffer := bufferOf o.bufferCap (chunks.map toBuffer)

/-- What is captured of a request, given the chunks of the two bodies. -/
def capture (a : Arrival) (heard payloads : List Chunk) : RequestState :=
  ⟨a.eventId,a.startHr,a.startWallNs,o.buffer heard,o.buffer payloads,a.contentType⟩

def RequestState.requestFinal (s : RequestState) (answer : Except String BlobRef) : FinalizeResult :=
  finalizeBody s.reqBuf (o.finalizing s.reqContentType answer)

def RequestState.responseFinal (s : RequestState) (contentType : Option String) (answer : Except String BlobRef) :
    FinalizeResult := finalizeBody s.resBuf (o.finalizing contentType answer)

/-- The task after its next body, and the error that is reported. -/
def Task.finalize (contentType : Option String) (answer : Except String BlobRef) : Task → Task × Option String
  | .request s => (.response s (s.requestFinal o answer),(s.requestFinal o answer).blobUploadError)
  | .response s reqBody =>
    (.building s reqBody (s.responseFinal o contentType answer),(s.responseFinal o contentType answer).blobUploadError)
  | t => (t,none)

def RequestState.hear (n : ℕ) (chunk : Chunk) (s : RequestState) : RequestState :=
  { s with reqBuf := (List.replicate n (toBuffer chunk)).foldl CappedBuffer.push s.reqBuf }

def RequestState.answer (chunks : List Chunk) (s : RequestState) : RequestState :=
  { s with resBuf := (chunks.map toBuffer).foldl CappedBuffer.push s.resBuf }

/-- An object of the map is changed in place. -/
def State.modify (s : State ι) (r : ℕ) (f : RequestState → RequestState) : State ι :=
  match s.state.lookup r with
  | none => s
  | some q => { s with state := s.state.insert r (f q) }

def buildEvent (s : RequestState) (reqBody resBody : FinalizeResult) (reqHdr resHdr : RedactionResult)
    (userId : Option String) (v : View) : Event where
  id := s.eventId
  timestampNs := s.startWallNs
  redactionsApplied := reqHdr.applied ++ resHdr.applied ++
    (reqBody.redactions ++ resBody.redactions).map InvokeEndpoint.js
  method := v.method
  path := v.url
  headers := reqHdr
  requestBody := reqBody.body
  status := v.statusCode
  responseHeaders := resHdr
  responseBody := resBody.body
  durationNs := v.nowHr-s.startHr
  sourceIp := v.ip.getD ""
  userId := userId.getD ""
  routeTemplate := (v.routeUrl.or v.routerPath).getD ""

variable [DecidableEq ι]

def State.finish (s : State ι) (r : ℕ) (q : RequestState) (reqBody resBody : FinalizeResult) (v : View) : State ι :=
  let reqHdr := redactHeaders o.regs o.redactHeaders s.lastIndex v.headers
  let resHdr := redactHeaders o.regs o.redactHeaders reqHdr.1 v.replyHeaders
  let s := { s with lastIndex := resHdr.1, tasks := s.tasks.erase r }
  match v.userId with
  | .error text => { s with errors := (r,text) :: s.errors }
  | .ok userId =>
    match v.sendErr with
    | some text => { s with errors := (r,text) :: s.errors }
    | none => { s with sent := (r,buildEvent q reqBody resBody reqHdr.2 resHdr.2 userId v) :: s.sent }

def step (s : State ι) : Label → Option (State ι)
  | .onRequest r a =>
    if r ∈ s.seen then none
    else if a.skipped then some { s with seen := r :: s.seen }
    else some { s with seen := r :: s.seen, state := s.state.insert r (capture o a [] []) }
  | .preParsing r observable =>
    if (s.state.lookup r).isSome ∧ observable then some { s with listeners := r :: s.listeners } else some s
  | .data r chunk => some (s.modify r (·.hear (s.listeners.count r) chunk))
  | .onSend r payload => some (s.modify r (·.answer payload.observed))
  | .onResponse r =>
    match s.state.lookup r with
    | none => some s
    | some q => some { s with state := s.state.erase r, tasks := s.tasks.insert r (.request q) }
  | .finalize r contentType answer =>
    match s.tasks.lookup r with
    | none => none
    | some (.building ..) => none
    | some t =>
      let (t,err) := t.finalize o contentType answer
      some { s with tasks := s.tasks.insert r t, uploadErrors := err.toList.map (r,·) ++ s.uploadErrors }
  | .send r v =>
    match s.tasks.lookup r with
    | some (.building q reqBody resBody) => some (s.finish o r q reqBody resBody v)
    | _ => none

/-- What concerns one request: its place in the map, its listeners, its task and what has come of it. -/
structure Cell where
  seen : Bool
  state : Option RequestState
  listeners : ℕ
  task : Option Task
  outcomes : ℕ
  uploadErrors : List String

def State.cell (s : State ι) (r : ℕ) : Cell :=
  ⟨decide (r ∈ s.seen),s.state.lookup r,s.listeners.count r,s.tasks.lookup r,
    (s.sent.map Prod.fst).count r+(s.errors.map Prod.fst).count r,
    (s.uploadErrors.filter fun x => x.1 = r).map Prod.snd⟩

def Cell.next {ι : Type} (o : Options ι) (c : Cell) : Label → Cell
  | .onRequest _ a =>
    if c.seen then c
    else { c with seen := true, state := if a.skipped then c.state else some (capture o a [] []) }
  | .preParsing _ observable => if c.state.isSome ∧ observable then { c with listeners := c.listeners+1 } else c
  | .data _ chunk => { c with state := c.state.map (·.hear c.listeners chunk) }
  | .onSend _ payload => { c with state := c.state.map (·.answer payload.observed) }
  | .onResponse _ =>
    match c.state with
    | none => c
    | some q => { c with state := none, task := some (.request q) }
  | .finalize _ contentType answer =>
    match c.task with
    | none => c
    | some t =>
      let (t,err) := t.finalize o contentType answer
      { c with task := some t, uploadErrors := err.toList ++ c.uploadErrors }
  | .send _ _ =>
    match c.task with
    | some (.building ..) => { c with task := none, outcomes := c.outcomes+1 }
    | _ => c

end

section Cells

variable {ι : Type} {o : Options ι} {s t : State ι} {r k : ℕ}

theorem cell_modify (s : State ι) (r k : ℕ) (f : RequestState → RequestState) :
    (s.modify r f).cell k = if r = k then { s.cell k with state := (s.cell k).state.map f } else s.cell k := by
  unfold State.modify
  split
  · rename_i hnone
    split_ifs with hk
    · subst hk
      simp [State.cell,hnone]
    · rfl
  · rename_i q hq
    split_ifs with hk
    · subst hk
      simp [State.cell,hq]
    · simp [State.cell,AList.lookup_insert_ne (Ne.symm hk)]

theorem sent_modify (s : State ι) (r : ℕ) (f : RequestState → RequestState) : (s.modify r f).sent = s.sent := by
  unfold State.modify
  split <;> rfl

theorem reported (err : Option String) (r k : ℕ) :
    ((err.toList.map (r,·)).filter fun x => x.1 = k).map Prod.snd = if r = k then err.toList else [] := by
  cases err <;> by_cases hk : r = k <;> simp [hk]

variable [DecidableEq ι]

theorem cell_finish (s : State ι) (r k : ℕ) (q : RequestState) (reqBody resBody : FinalizeResult) (v : View) :
    (s.finish o r q reqBody resBody v).cell k =
      if r = k then { s.cell k with task := none, outcomes := (s.cell k).outcomes+1 } else s.cell k := by
  unfold State.finish
  split_ifs with hk
  · subst hk
    cases v.userId with
    | error text => simp [State.cell,Nat.add_assoc]
    | ok userId => cases v.sendErr <;> simp [State.cell,Nat.add_assoc,Nat.add_comm,Nat.add_left_comm]
  · have herase := AList.lookup_erase_ne (s := s.tasks) (Ne.symm hk)
    cases v.userId with
    | error text => simp [State.cell,herase,hk]
    | ok userId => cases v.sendErr <;> simp [State.cell,herase,hk]

/-- A step changes the cell of its own request, by what the cell holds. -/
theorem cell_step {a : Label} (h : step o s a = some t) (k : ℕ) :
    t.cell k = if a.owner = k then (s.cell k).next o a else s.cell k := by
  cases a with
  | onRequest r a =>
    simp only [step] at h
    by_cases hk : r = k
    · subst hk
      split_ifs at h with hseen hskip
      · cases h
        simp [Label.owner,Cell.next,State.cell,hseen,hskip]
      · cases h
        simp [Label.owner,Cell.next,State.cell,hseen,hskip]
    · split_ifs at h with hseen hskip
      · cases h
        simp [Label.owner,State.cell,hk,Ne.symm hk]
      · cases h
        simp [Label.owner,State.cell,hk,Ne.symm hk,AList.lookup_insert_ne (Ne.symm hk)]
  | preParsing r observable =>
    simp only [step] at h
    split_ifs at h with hheard
    · cases h
      by_cases hk : r = k
      · subst hk
        simp [Label.owner,Cell.next,State.cell,hheard]
      · simp [Label.owner,State.cell,hk]
    · cases h
      by_cases hk : r = k
      · subst hk
        simp only [Label.owner,if_true,Cell.next]
        exact (if_neg hheard).symm
      · simp [Label.owner,hk]
  | data r chunk =>
    cases h
    rw [cell_modify]
    by_cases hk : r = k
    · subst hk
      simp [Label.owner,Cell.next,State.cell]
    · simp [Label.owner,hk]
  | onSend r payload =>
    cases h
    exact cell_modify s r k _
  | onResponse r =>
    simp only [step] at h
    split at h
    · rename_i hnone
      cases h
      by_cases hk : r = k
      · subst hk
        simp [Label.owner,Cell.next,State.cell,hnone]
      · simp [Label.owner,hk]
    · rename_i q hq
      cases h
      by_cases hk : r = k
      · subst hk
        simp [Label.owner,Cell.next,State.cell,hq]
      · simp [Label.owner,State.cell,hk,AList.lookup_insert_ne (Ne.symm hk),AList.lookup_erase_ne (Ne.symm hk)]
  | finalize r contentType answer =>
    simp only [step] at h
    split at h
    · cases h
    · cases h
    · rename_i task _ htask
      cases h
      by_cases hk : r = k
      · subst hk
        simp [Label.owner,Cell.next,State.cell,htask,reported]
      · simp [Label.owner,State.cell,hk,AList.lookup_insert_ne (Ne.symm hk),reported]
  | send r v =>
    simp only [step] at h
    split at h
    · rename_i q reqBody resBody htask
      cases h
      rw [cell_finish]
      by_cases hk : r = k
      · subst hk
        simp [Label.owner,Cell.next,State.cell,htask]
      · simp [Label.owner,hk]
    · cases h

end Cells

/-- What happens to a request, as its own labels tell it: the chunks of its body that a listener heard before the
response was over, once for each listener, the payloads, and for its two bodies the content type of the reply and
the answer of an upload. -/
structure Trace where
  arrival : Option Arrival := none
  listeners : ℕ := 0
  heard : List Chunk := []
  payloads : List Chunk := []
  responded : Bool := false
  answers : List (Option String × Except String BlobRef) := []

/-- Between its arrival, unless it is skipped, and the end of its response. -/
def Trace.recording (t : Trace) : Bool := t.arrival.any (fun a => !a.skipped) && !t.responded

def Trace.next (t : Trace) : Label → Trace
  | .onRequest _ a => if t.arrival.isSome then t else { t with arrival := some a }
  | .preParsing _ observable =>
    if t.recording ∧ observable then { t with listeners := t.listeners+1 } else t
  | .data _ chunk =>
    if t.recording then { t with heard := t.heard ++ List.replicate t.listeners chunk } else t
  | .onSend _ payload => if t.recording then { t with payloads := t.payloads ++ payload.observed } else t
  | .onResponse _ => if t.recording then { t with responded := true } else t
  | .finalize _ contentType answer =>
    if t.responded ∧ t.answers.length < 2 then { t with answers := t.answers ++ [(contentType,answer)] } else t
  | .send _ _ => t

def trace (as : List Label) (r : ℕ) : Trace := (as.filter (·.owner = r)).foldl Trace.next {}

section Traces

variable {ι : Type} (o : Options ι) (t : Trace)

def Trace.captured : Option RequestState := t.arrival.map fun a => capture o a t.heard t.payloads

def Trace.requestFinal : Option FinalizeResult := do
  let a ← t.arrival
  let x ← t.answers[0]?
  pure (finalizeBody (o.buffer t.heard) (o.finalizing a.contentType x.2))

def Trace.responseFinal : Option FinalizeResult :=
  (t.answers[1]?).map fun x => finalizeBody (o.buffer t.payloads) (o.finalizing x.1 x.2)

/-- The uploads of the request that fail, the last one first. -/
def Trace.uploadErrors : List String :=
  ((t.responseFinal o).bind (·.blobUploadError)).toList ++ ((t.requestFinal o).bind (·.blobUploadError)).toList

def Trace.task : Option Task :=
  (t.captured o).map fun q =>
    match t.requestFinal o,t.responseFinal o with
    | none,_ => .request q
    | some reqBody,none => .response q reqBody
    | some reqBody,some resBody => .building q reqBody resBody

end Traces

section Traces

variable {ι : Type} {o : Options ι} {t : Trace} {c : Cell} {a : Arrival}

structure Fits (o : Options ι) (t : Trace) (c : Cell) : Prop where
  quiet : t.arrival = none → t.heard = [] ∧ t.payloads = [] ∧ t.responded = false
  unanswered : t.responded = false → t.answers = []
  seen : c.seen = t.arrival.isSome
  listeners : c.listeners = t.listeners
  state : c.state = if t.recording then t.captured o else none
  task : ∀ k, c.task = some k → t.task o = some k
  outcomes : c.outcomes+(if c.task.isSome then 1 else 0) = if t.responded then 1 else 0
  finished : c.outcomes ≠ 0 → 2 ≤ t.answers.length
  uploadErrors : c.uploadErrors = t.uploadErrors o

theorem hear_capture (heard payloads : List Chunk) (n : ℕ) (chunk : Chunk) :
    (capture o a heard payloads).hear n chunk = capture o a (heard ++ List.replicate n chunk) payloads := by
  simp [RequestState.hear,capture,Options.buffer,bufferOf]

theorem answer_capture (heard payloads chunks : List Chunk) :
    (capture o a heard payloads).answer chunks = capture o a heard (payloads ++ chunks) := by
  simp [RequestState.answer,capture,Options.buffer,bufferOf]

theorem fits_empty : Fits o {} ⟨false,none,0,none,0,[]⟩ where
  quiet := by simp
  unanswered := fun _ => rfl
  seen := rfl
  listeners := rfl
  state := rfl
  task := by simp
  outcomes := rfl
  finished := fun h => absurd rfl h
  uploadErrors := rfl

theorem Trace.recording_iff :
    t.recording = true ↔ (∃ a, t.arrival = some a ∧ a.skipped = false) ∧ t.responded = false := by
  cases h : t.arrival <;> simp [Trace.recording,h]

theorem Trace.uploadErrors_nil (h : t.answers = []) : t.uploadErrors o = [] := by
  cases ha : t.arrival <;> simp [Trace.uploadErrors,Trace.requestFinal,Trace.responseFinal,h,ha]

theorem Trace.task_nil (h : t.answers = []) : t.task o = (t.captured o).map .request := by
  cases ha : t.arrival <;> simp [Trace.task,Trace.captured,Trace.requestFinal,h,ha]

/-- While a request is recorded, its capture is in the map and no task works on it. -/
theorem Fits.recording (h : Fits o t c) (hrec : t.recording = true) :
    ∃ a, t.arrival = some a ∧ c.state = some (capture o a t.heard t.payloads) ∧ c.task = none ∧ c.outcomes = 0 ∧
      t.answers = [] ∧ c.uploadErrors = [] := by
  obtain ⟨⟨a,ha,-⟩,hresponded⟩ := Trace.recording_iff.mp hrec
  have hstate := h.state
  have houtcomes := h.outcomes
  have hanswers := h.unanswered hresponded
  rw [if_pos hrec,Trace.captured,ha] at hstate
  rw [hresponded] at houtcomes
  refine ⟨a,ha,hstate,?_,by simp at houtcomes; omega,hanswers,h.uploadErrors.trans (Trace.uploadErrors_nil hanswers)⟩
  by_contra hne
  obtain ⟨k,hk⟩ := Option.ne_none_iff_exists'.mp hne
  simp [hk] at houtcomes

theorem Fits.idle (h : Fits o t c) (hrec : ¬t.recording = true) : c.state = none := by
  rw [h.state,if_neg hrec]

theorem Fits.working (h : Fits o t c) {k : Task} (hk : c.task = some k) :
    (∃ a, t.arrival = some a) ∧ t.responded = true ∧ c.outcomes = 0 := by
  have houtcomes := h.outcomes
  have htask := h.task k hk
  rw [hk,Option.isSome_some,if_pos rfl] at houtcomes
  refine ⟨?_,?_,?_⟩
  · cases ha : t.arrival with
    | none => simp [Trace.task,Trace.captured,ha] at htask
    | some a => exact ⟨a,rfl⟩
  · by_contra hno
    rw [if_neg hno] at houtcomes
    omega
  · split_ifs at houtcomes
    omega

/-- The next body of a task is the next one of the trace. -/
theorem Fits.finalize (h : Fits o t c) (r : ℕ) (contentType : Option String) (answer : Except String BlobRef) :
    Fits o (t.next (.finalize r contentType answer)) (c.next o (.finalize r contentType answer)) := by
  simp only [Trace.next,Cell.next]
  cases hk : c.task with
  | none =>
    have hstay : ¬ (t.responded = true ∧ t.answers.length < 2) := by
      rintro ⟨hresponded,hshort⟩
      have houtcomes := h.outcomes
      simp only [hk,Option.isSome_none,hresponded] at houtcomes
      exact absurd (h.finished (by simp at houtcomes; omega)) (by omega)
    rw [if_neg hstay]
    exact h
  | some k =>
    obtain ⟨⟨a,ha⟩,hresponded,hnone⟩ := h.working hk
    have htask := h.task k hk
    have herrors := h.uploadErrors
    have houtcomes := h.outcomes
    rw [hk] at houtcomes
    have hcaptured : t.captured o = some (capture o a t.heard t.payloads) := by rw [Trace.captured,ha]; rfl
    have hstate : ∀ answers, c.state =
        if ({ t with answers } : Trace).recording then ({ t with answers } : Trace).captured o else none :=
      fun _ => h.state
    rcases hanswers : t.answers with _ | ⟨x,_ | ⟨y,rest⟩⟩
    · obtain rfl : Task.request (capture o a t.heard t.payloads) = k := by
        simpa [Trace.task,hcaptured,Trace.requestFinal,ha,hanswers] using htask
      rw [if_pos ⟨hresponded,by simp⟩]
      refine ⟨h.quiet,by simp [hresponded],h.seen,h.listeners,hstate _,?_,houtcomes,fun hne => absurd hnone hne,?_⟩
      · rintro _ ⟨⟩
        simp [Trace.task,Trace.captured,Trace.requestFinal,Trace.responseFinal,ha,Task.finalize,
          RequestState.requestFinal,capture]
      · rw [herrors,Trace.uploadErrors_nil hanswers]
        simp [Trace.uploadErrors,Trace.requestFinal,Trace.responseFinal,ha,Task.finalize,RequestState.requestFinal,
          capture]
    · obtain rfl : Task.response (capture o a t.heard t.payloads)
          (finalizeBody (o.buffer t.heard) (o.finalizing a.contentType x.2)) = k := by
        simpa [Trace.task,hcaptured,Trace.requestFinal,Trace.responseFinal,ha,hanswers] using htask
      rw [if_pos ⟨hresponded,by simp⟩]
      refine ⟨h.quiet,by simp [hresponded],h.seen,h.listeners,hstate _,?_,houtcomes,fun hne => absurd hnone hne,?_⟩
      · rintro _ ⟨⟩
        simp [Trace.task,Trace.captured,Trace.requestFinal,Trace.responseFinal,ha,Task.finalize,
          RequestState.responseFinal,capture]
      · rw [herrors]
        simp [Trace.uploadErrors,Trace.requestFinal,Trace.responseFinal,ha,hanswers,Task.finalize,
          RequestState.responseFinal,capture]
    · obtain ⟨reqBody,resBody,rfl⟩ : ∃ reqBody resBody, k = .building (capture o a t.heard t.payloads) reqBody resBody := by
        have hfull := htask
        simp only [Trace.task,hcaptured,Trace.requestFinal,Trace.responseFinal,ha,hanswers] at hfull
        exact ⟨_,_,(Option.some.inj hfull).symm⟩
      rw [if_neg (by simp)]
      exact ⟨h.quiet,h.unanswered,h.seen,h.listeners,h.state,by rintro _ ⟨⟩; exact htask,houtcomes,h.finished,herrors⟩

theorem Fits.next (h : Fits o t c) (l : Label) : Fits o (t.next l) (c.next o l) := by
  cases l with
  | onRequest r a =>
    simp only [Trace.next,Cell.next,h.seen]
    cases harrival : t.arrival with
    | some a' => simpa using h
    | none =>
      obtain ⟨hheard,hpayloads,hresponded⟩ := h.quiet harrival
      have hanswers := h.unanswered hresponded
      have hidle := h.idle (by simp [Trace.recording,harrival])
      have htask : c.task = none := by
        by_contra hne
        obtain ⟨k,hk⟩ := Option.ne_none_iff_exists'.mp hne
        obtain ⟨⟨a',ha'⟩,-⟩ := h.working hk
        rw [harrival] at ha'
        cases ha'
      refine ⟨by simp,h.unanswered,by simp,h.listeners,?_,by simp [htask],h.outcomes,h.finished,?_⟩
      · cases hskip : a.skipped <;> simp [Trace.recording,Trace.captured,hskip,hidle,hheard,hpayloads,hresponded]
      · exact (h.uploadErrors.trans (Trace.uploadErrors_nil hanswers)).trans
          (Trace.uploadErrors_nil (by exact hanswers)).symm
  | preParsing r observable =>
    simp only [Trace.next,Cell.next]
    have hsome : c.state.isSome = true ↔ t.recording = true := by
      by_cases hrec : t.recording = true
      · obtain ⟨a,-,hstate,-⟩ := h.recording hrec
        simp [hrec,hstate]
      · simp [hrec,h.idle hrec]
    simp only [hsome]
    split_ifs
    · exact ⟨h.quiet,h.unanswered,h.seen,congrArg (· + 1) h.listeners,h.state,h.task,h.outcomes,h.finished,
        h.uploadErrors⟩
    · exact h
  | data r chunk =>
    simp only [Trace.next,Cell.next]
    split_ifs with hrec
    · obtain ⟨a,ha,hstate,htask,-,hanswers,herrors⟩ := h.recording hrec
      refine ⟨by simp [ha],h.unanswered,h.seen,h.listeners,?_,by simp [htask],h.outcomes,h.finished,
        herrors.trans (Trace.uploadErrors_nil (by exact hanswers)).symm⟩
      rw [hstate,h.listeners,if_pos (by simpa [Trace.recording] using hrec)]
      simp [Trace.captured,ha,hear_capture]
    · have hidle := h.idle hrec
      rw [hidle,Option.map_none,← hidle]
      exact h
  | onSend r payload =>
    simp only [Trace.next,Cell.next]
    split_ifs with hrec
    · obtain ⟨a,ha,hstate,htask,-,hanswers,herrors⟩ := h.recording hrec
      refine ⟨by simp [ha],h.unanswered,h.seen,h.listeners,?_,by simp [htask],h.outcomes,h.finished,
        herrors.trans (Trace.uploadErrors_nil (by exact hanswers)).symm⟩
      rw [hstate,if_pos (by simpa [Trace.recording] using hrec)]
      simp [Trace.captured,ha,answer_capture]
    · have hidle := h.idle hrec
      rw [hidle,Option.map_none,← hidle]
      exact h
  | onResponse r =>
    simp only [Trace.next,Cell.next]
    split_ifs with hrec
    · obtain ⟨a,ha,hstate,htask,houtcomes,hanswers,herrors⟩ := h.recording hrec
      rw [hstate]
      refine ⟨by simp [ha],by simp,h.seen,h.listeners,by simp [Trace.recording],?_,by simp [houtcomes],h.finished,
        herrors.trans (Trace.uploadErrors_nil (by exact hanswers)).symm⟩
      rintro k ⟨⟩
      rw [Trace.task_nil (by exact hanswers)]
      simp [Trace.captured,ha]
    · rw [h.idle hrec]
      exact h
  | finalize r contentType answer => exact h.finalize r contentType answer
  | send r v =>
    simp only [Trace.next,Cell.next]
    split
    · rename_i q reqBody resBody htask
      have houtcomes := h.outcomes
      rw [htask,Option.isSome_some,if_pos rfl] at houtcomes
      refine ⟨h.quiet,h.unanswered,h.seen,h.listeners,h.state,by simp,by simpa using houtcomes,fun _ => ?_,h.uploadErrors⟩
      have hfull := h.task _ htask
      by_contra hshort
      rcases hanswers : t.answers with _ | ⟨x,_ | ⟨y,rest⟩⟩
      · simp [Trace.task,Trace.requestFinal,hanswers] at hfull
      · cases ha : t.arrival <;>
          simp [Trace.task,Trace.captured,Trace.requestFinal,Trace.responseFinal,hanswers,ha] at hfull
      · simp [hanswers] at hshort
    · exact h

theorem fits_trace (o : Options ι) (as : List Label) (r : ℕ) :
    Fits o (trace as r) ((as.filter (·.owner = r)).foldl (Cell.next o) ⟨false,none,0,none,0,[]⟩) := by
  have hfold : ∀ (ls : List Label) (t : Trace) (c : Cell), Fits o t c →
      Fits o (ls.foldl Trace.next t) (ls.foldl (Cell.next o) c) := by
    intro ls
    induction ls with
    | nil => exact fun _ _ h => h
    | cons l ls ih => exact fun t c h => ih _ _ (h.next l)
  exact hfold _ _ _ fits_empty

/-- Nothing is recorded any more after the response, and the two bodies are finalized once. -/
theorem Trace.next_done (harrival : t.arrival.isSome) (h : t.responded = true) (hfull : 2 ≤ t.answers.length)
    (l : Label) : t.next l = t := by
  have hrec : t.recording = false := by simp [Trace.recording,h]
  cases l with
  | finalize r contentType answer => exact if_neg fun hshort => absurd hshort.2 (by omega)
  | _ => simp [Trace.next,harrival,hrec]

theorem trace_append {pre post : List Label} {r : ℕ} (harrival : (trace pre r).arrival.isSome)
    (h : (trace pre r).responded = true) (hfull : 2 ≤ (trace pre r).answers.length) :
    trace (pre ++ post) r = trace pre r := by
  have hfold : ∀ ls : List Label, ls.foldl Trace.next (trace pre r) = trace pre r := by
    intro ls
    induction ls with
    | nil => rfl
    | cons l ls ih => rw [List.foldl_cons,Trace.next_done harrival h hfull,ih]
  rw [trace,List.filter_append,List.foldl_append]
  exact hfold _

/-- A task that has both bodies has those of the trace. -/
theorem task_building {t : Trace} {q : RequestState} {reqBody resBody : FinalizeResult}
    (h : t.task o = some (.building q reqBody resBody)) :
    t.captured o = some q ∧ t.requestFinal o = some reqBody ∧ t.responseFinal o = some resBody := by
  unfold Trace.task at h
  cases hq : t.captured o with
  | none => simp [hq] at h
  | some q' =>
    cases hreq : t.requestFinal o with
    | none => simp [hq,hreq] at h
    | some f =>
      cases hres : t.responseFinal o with
      | none => simp [hq,hreq,hres] at h
      | some g =>
        simp only [hq,hreq,hres,Option.map_some,Option.some.injEq,Task.building.injEq] at h
        obtain ⟨rfl,rfl,rfl⟩ := h
        exact ⟨rfl,rfl,rfl⟩

theorem buffer_unchanged {chunks : List Chunk} (h : ∀ c ∈ chunks, toBuffer c = c.sent) :
    (o.buffer chunks).toBuffer = (chunks.flatMap Chunk.sent).take o.bufferCap := by
  rw [Options.buffer,HttpBody.toBuffer_bufferOf,List.map_congr_left h,List.flatMap_def]

end Traces

section Events

variable {ι : Type} [DecidableEq ι] {o : Options ι} {s t : State ι} {σ : ι → ℕ} {as : List Label} {r : ℕ}

/-- An event is sent by a task that has both bodies. -/
theorem sent_step {a : Label} (h : step o s a = some t) : ∀ x ∈ t.sent, x ∈ s.sent ∨
    ∃ v q reqBody resBody reqHdr resHdr userId, a = .send x.1 v ∧
      s.tasks.lookup x.1 = some (.building q reqBody resBody) ∧
      x.2 = buildEvent q reqBody resBody reqHdr resHdr userId v := by
  intro x hx
  cases a with
  | onRequest r a =>
    simp only [step] at h
    split_ifs at h <;> cases h <;> exact .inl hx
  | preParsing r observable =>
    simp only [step] at h
    split_ifs at h <;> cases h <;> exact .inl hx
  | data r chunk =>
    cases h
    exact .inl (sent_modify s r _ ▸ hx)
  | onSend r payload =>
    cases h
    exact .inl (sent_modify s r _ ▸ hx)
  | onResponse r =>
    simp only [step] at h
    split at h <;> cases h <;> exact .inl hx
  | finalize r contentType answer =>
    simp only [step] at h
    split at h <;> cases h
    exact .inl hx
  | send r v =>
    simp only [step] at h
    split at h
    · rename_i q reqBody resBody htask
      cases h
      unfold State.finish at hx
      cases huser : v.userId with
      | error text => exact .inl (by simpa [huser] using hx)
      | ok userId =>
        cases hsend : v.sendErr with
        | some text => exact .inl (by simpa [huser,hsend] using hx)
        | none =>
          simp only [huser,hsend,List.mem_cons] at hx
          rcases hx with rfl | hx
          · exact .inr ⟨v,q,reqBody,resBody,_,_,userId,rfl,htask,rfl⟩
          · exact .inl hx
    · cases h

theorem fits_run (h : exec (step o) (init σ) as = some s) (r : ℕ) : Fits o (trace as r) (s.cell r) := by
  have hcell : s.cell r = (as.filter (·.owner = r)).foldl (Cell.next o) ((init σ).cell r) :=
    exec_part (fun s a t hstep => cell_step hstep r) h
  have hinit : (init σ).cell r = ⟨false,none,0,none,0,[]⟩ := by simp [State.cell,init]
  rw [hcell,hinit]
  exact fits_trace o as r

end Events

def smallOptions : Options Empty where
  maxBodyInlineBytes := 1
  uploads := true
  redactHeaders := ⟨none⟩
  regs := Empty.elim

def arrivalOf (eventId : String) : Arrival := ⟨false,eventId,0,0,some "text/plain"⟩

def plainView : View := ⟨"POST","/",[],200,[],none,some "/",none,.ok none,1,none⟩

/-- Two requests whose hooks, chunks and tasks alternate.  The body of the first one is not uploaded. -/
def twoRequests : List Label :=
  [.onRequest 1 (arrivalOf "ev_1"),.onRequest 2 (arrivalOf "ev_2"),.preParsing 1 true,.preParsing 2 true,
    .data 2 (.text "b"),.data 1 (.text "ac"),.onSend 2 (.whole (.text "d")),.onSend 1 .stream,.onResponse 2,
    .onResponse 1,.finalize 1 none (.error "refused"),.finalize 2 none (.error ""),.finalize 2 none (.error ""),
    .finalize 1 none (.error ""),.send 1 plainView,.send 2 plainView]

end FastifyCapture
end Clearvoiance
