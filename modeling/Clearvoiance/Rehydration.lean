import Clearvoiance.Dispatchers

/-! Replays of events whose body cannot be brought back: the blob is missing or cannot be fetched, or the
capture cut an inline payload so that it no longer decodes.  The HTTP dispatcher turns the error of
`fetchBody` into a result row; the others drop the error and send what is left. -/
namespace Clearvoiance
namespace Dispatchers

open CapturedEvents

inductive Sent
  | request (req : Request)
  | connect (baseURL nsp : String)
  | emit (nsp eventName : String) (args : Bytes)

namespace Http

def sent (w : World) (target : Target) (ev : Event) (vu : ℕ) : List Sent :=
  match extractHTTP ev with
  | none => []
  | some h =>
    match fetchBody w h.requestBody with
    | .error _ => []
    | .ok body =>
      match prepare w target ev vu h body with
      | .error _ => []
      | .ok (_,req) => [.request req]

end Http

namespace Invoke

def sent (w : World) (target : Target) (ev : Event) (fields : List (String × Value)) : List Sent :=
  match w.newRequest "POST" (trimSlashes target.baseURL ++ invokePath) with
  | some _ => []
  | none =>
    match w.applyAuth (request target ev (marshal fields)) with
    | .error _ => []
    | .ok req => [.request req]

end Invoke

namespace SocketIo

def sent (w : World) (target : Target) (s : SocketEvent) : List Sent :=
  match s.op with
  | .connect => [.connect target.baseURL s.nsp]
  | .recvFromClient => if w.client then [.emit s.nsp s.eventName (fetchedBytes w s.data)] else []
  | _ => []

end SocketIo

/-- What the dispatch of an event hands to the network. -/
def sent (w : World) (target : Target) (ev : Event) (vu : ℕ) : List Sent :=
  match ev.payload with
  | some (.http _) | some (.webhook _) => Http.sent w target ev vu
  | some (.cron c) => Invoke.sent w target ev (Cron.payload w c vu)
  | some (.queue q) => Invoke.sent w target ev (Queue.payload w q vu)
  | some (.socket s) => SocketIo.sent w target s
  | _ => []

/-- Two environments that differ in nothing but the network. -/
structure SameButNetwork (w w' : World) : Prop where
  blobs : w.blobs = w'.blobs
  mutate : w.mutate = w'.mutate
  newRequest : w.newRequest = w'.newRequest
  applyAuth : w.applyAuth = w'.applyAuth
  client : w.client = w'.client
  elapsedNs : w.elapsedNs = w'.elapsedNs

def bodyOf (ev : Event) : Option Body :=
  match ev.payload with
  | some (.http h) | some (.webhook (some h)) => h.requestBody
  | some (.socket s) => s.data
  | some (.cron c) => c.args
  | some (.queue q) => q.payload
  | _ => none

/-- The body cannot be fully brought back.  `garbled` tells of which captured bodies so much was cut off
that the rest does not decode. -/
def Lost (garbled : Body → Bool) (w : World) (ev : Event) : Prop :=
  ∃ body, bodyOf ev = some body ∧ ((∃ message, fetchBody w (some body) = .error message) ∨ garbled body = true)

/-- The error code of the row that a dispatch leads to. -/
def errorCode (o : Outcome) : String :=
  match o.2 with
  | none => o.1.errorCode
  | some _ => "dispatch_error"

/-- The dispatch yields a row with an error code, and nothing is sent. -/
def Refuses (w : World) (target : Target) (ev : Event) (vu : ℕ) : Prop :=
  (∃ o, dispatch w target ev vu = some o ∧ errorCode o ≠ "") ∧ sent w target ev vu = []

/-- The request to the invoke endpoint cannot be built or authorised. -/
def Invoke.Blocked (w : World) (target : Target) (ev : Event) (fields : List (String × Value)) : Prop :=
  (∃ message, w.newRequest "POST" (trimSlashes target.baseURL ++ invokePath) = some message) ∨
    ∃ message, w.applyAuth (request target ev (marshal fields)) = .error message

/-- The captured body is not to be had, or its request cannot be mutated, built or authorised. -/
def Http.Blocked (w : World) (target : Target) (ev : Event) (vu : ℕ) (h : HttpEvent) : Prop :=
  (∃ message, fetchBody w h.requestBody = .error message) ∨
    ∃ body, fetchBody w h.requestBody = .ok body ∧
      ((∃ message, w.mutate body (contentTypeFrom h) vu = .error message) ∨
        (∃ message, w.newRequest h.method (trimSlashes target.baseURL ++ path h) = some message) ∨
        ∃ mutated message, w.mutate body (contentTypeFrom h) vu = .ok mutated ∧
          w.applyAuth (request target ev vu h mutated) = .error message)

/-- A socket event that the dispatcher does not replay, or a message to a client that is not open. -/
def SocketIo.Declined (w : World) (s : SocketEvent) : Prop :=
  (s.op = .recvFromClient ∧ w.client = false) ∨ (s.op ≠ .recvFromClient ∧ s.op ≠ .connect ∧ s.op ≠ .disconnect)

/-- The dispatcher fails or declines before it gets to the network. -/
def Stopped (w : World) (target : Target) (ev : Event) (vu : ℕ) : Prop :=
  (∃ h, Http.extractHTTP ev = some h ∧ Http.Blocked w target ev vu h) ∨
    (∃ c, ev.payload = some (.cron c) ∧ Invoke.Blocked w target ev (Cron.payload w c vu)) ∨
    (∃ q, ev.payload = some (.queue q) ∧ Invoke.Blocked w target ev (Queue.payload w q vu)) ∨
    ∃ s, ev.payload = some (.socket s) ∧ SocketIo.Declined w s

section Dispatches

variable (w : World) (target : Target) {ev : Event} (vu : ℕ)

theorem dispatch_http {h : HttpEvent} (hp : ev.payload = some (.http h)) :
    dispatch w target ev vu = some (Http.dispatch w target ev vu) := by
  simp [dispatch,registered,Http.canHandle,hp]

theorem dispatch_webhook {h : Option HttpEvent} (hp : ev.payload = some (.webhook h)) :
    dispatch w target ev vu = some (Http.dispatch w target ev vu) := by
  simp [dispatch,registered,Http.canHandle,hp]

theorem dispatch_cron {c : CronEvent} (hp : ev.payload = some (.cron c)) :
    dispatch w target ev vu = some (Invoke.post w target ev "cron" (Cron.payload w c vu)) := by
  simp [dispatch,registered,Http.canHandle,Cron.canHandle,Cron.dispatch,hp]

theorem dispatch_queue {q : QueueEvent} (hp : ev.payload = some (.queue q)) :
    dispatch w target ev vu = some (Invoke.post w target ev "queue" (Queue.payload w q vu)) := by
  simp [dispatch,registered,Http.canHandle,Cron.canHandle,SocketIo.canHandle,Queue.canHandle,Queue.dispatch,hp]

theorem dispatch_socket {e : SocketEvent} (hp : ev.payload = some (.socket e)) :
    dispatch w target ev vu = some (SocketIo.dispatch w target ev vu) := by
  simp [dispatch,registered,Http.canHandle,Cron.canHandle,SocketIo.canHandle,hp]

/-- A dispatch that hands nothing to the network comes out the same whatever the network does. -/
theorem dispatch_of_unsent {w w' : World} (hw : SameButNetwork w w') (target : Target) (ev : Event) (vu : ℕ)
    (hsent : sent w target ev vu = []) : dispatch w target ev vu = dispatch w' target ev vu := by
  have hfetch : ∀ body, fetchBody w body = fetchBody w' body := by
    intro body
    simp only [fetchBody,hw.blobs]
  have hbytes : ∀ body, fetchedBytes w body = fetchedBytes w' body := by
    intro body
    rw [fetchedBytes,fetchedBytes,hfetch]
  have hhttp : Http.sent w target ev vu = [] → Http.dispatch w target ev vu = Http.dispatch w' target ev vu := by
    intro hnone
    unfold Http.sent at hnone
    unfold Http.dispatch
    cases hx : Http.extractHTTP ev with
    | none => rfl
    | some h =>
      simp only
      rw [← hfetch]
      cases hb : fetchBody w h.requestBody with
      | error message => rfl
      | ok body =>
        simp only
        have hprepare : Http.prepare w target ev vu h body = Http.prepare w' target ev vu h body := by
          simp only [Http.prepare,hw.mutate,hw.newRequest,hw.applyAuth]
        rw [← hprepare]
        cases hr : Http.prepare w target ev vu h body with
        | error message => rfl
        | ok r => simp [hx,hb,hr] at hnone
  have hpost : ∀ kind fields, Invoke.sent w target ev fields = [] →
      Invoke.post w target ev kind fields = Invoke.post w' target ev kind fields := by
    intro kind fields hnone
    unfold Invoke.sent at hnone
    unfold Invoke.post
    simp only [← hw.newRequest,← hw.applyAuth]
    cases hn : w.newRequest "POST" (trimSlashes target.baseURL ++ Invoke.invokePath) with
    | some message => rfl
    | none =>
      simp only [hn] at hnone ⊢
      cases ha : w.applyAuth (Invoke.request target ev (Invoke.marshal fields)) with
      | error message => rfl
      | ok req => simp [ha] at hnone
  cases hp : ev.payload with
  | none => simp [dispatch,registered,Http.canHandle,Cron.canHandle,SocketIo.canHandle,Queue.canHandle,hp]
  | some payload =>
    cases payload with
    | http h =>
      rw [dispatch_http w target vu hp,dispatch_http w' target vu hp,hhttp (by simpa [sent,hp] using hsent)]
    | webhook h =>
      rw [dispatch_webhook w target vu hp,dispatch_webhook w' target vu hp,hhttp (by simpa [sent,hp] using hsent)]
    | cron c =>
      have hsame : Cron.payload w c vu = Cron.payload w' c vu := by rw [Cron.payload,Cron.payload,hbytes]
      rw [dispatch_cron w target vu hp,dispatch_cron w' target vu hp,← hsame]
      rw [hpost "cron" _ (by simpa [sent,hp] using hsent)]
    | queue q =>
      have hsame : Queue.payload w q vu = Queue.payload w' q vu := by rw [Queue.payload,Queue.payload,hbytes]
      rw [dispatch_queue w target vu hp,dispatch_queue w' target vu hp,← hsame]
      rw [hpost "queue" _ (by simpa [sent,hp] using hsent)]
    | socket e =>
      rw [dispatch_socket w target vu hp,dispatch_socket w' target vu hp]
      have hnone : SocketIo.sent w target e = [] := by simpa [sent,hp] using hsent
      simp only [SocketIo.sent] at hnone
      simp only [SocketIo.dispatch,hp]
      cases ho : e.op with
      | connect => simp [ho] at hnone
      | recvFromClient =>
        have hc : w.client = false := by simpa [ho] using hnone
        rw [← hw.client,hc]
        rfl
      | _ => rfl
    | outbound h => simp [dispatch,registered,Http.canHandle,Cron.canHandle,SocketIo.canHandle,Queue.canHandle,hp]
    | db d => simp [dispatch,registered,Http.canHandle,Cron.canHandle,SocketIo.canHandle,Queue.canHandle,hp]
    | runtime r => simp [dispatch,registered,Http.canHandle,Cron.canHandle,SocketIo.canHandle,Queue.canHandle,hp]

end Dispatches

theorem http_refuses_iff {w : World} {target : Target} {ev : Event} {vu : ℕ} {h : HttpEvent}
    (hx : Http.extractHTTP ev = some h) :
    (errorCode (Http.dispatch w target ev vu) ≠ "" ∧ Http.sent w target ev vu = []) ↔
      Http.Blocked w target ev vu h := by
  simp only [Http.dispatch,Http.sent,hx,Http.Blocked,Http.prepare]
  cases fetchBody w h.requestBody with
  | error message => simp [errorCode]
  | ok body =>
    simp only
    cases hm : w.mutate body (contentTypeFrom h) vu with
    | error message => simp [errorCode,hm]
    | ok mutated =>
      cases hn : w.newRequest h.method (trimSlashes target.baseURL ++ Http.path h) with
      | some message => simp [errorCode]
      | none =>
        simp only
        cases ha : w.applyAuth (Http.request target ev vu h mutated) <;> simp [errorCode,hm,ha]

theorem invoke_refuses_iff (w : World) (target : Target) (ev : Event) (kind : String)
    (fields : List (String × Invoke.Value)) :
    (errorCode (Invoke.post w target ev kind fields) ≠ "" ∧ Invoke.sent w target ev fields = []) ↔
      Invoke.Blocked w target ev fields := by
  simp only [Invoke.post,Invoke.sent,Invoke.Blocked]
  cases w.newRequest "POST" (trimSlashes target.baseURL ++ Invoke.invokePath) with
  | some message => simp [errorCode]
  | none =>
    simp only
    cases w.applyAuth (Invoke.request target ev (Invoke.marshal fields)) with
    | error message => simp [errorCode]
    | ok req => simp

theorem socket_refuses_iff {w : World} {target : Target} {ev : Event} {vu : ℕ} {e : SocketEvent}
    (hp : ev.payload = some (.socket e)) :
    (errorCode (SocketIo.dispatch w target ev vu) ≠ "" ∧ SocketIo.sent w target e = []) ↔ SocketIo.Declined w e := by
  simp only [SocketIo.dispatch,SocketIo.sent,SocketIo.Declined,hp]
  cases e.op with
  | connect => simp
  | disconnect => simp [errorCode,blank]
  | recvFromClient => cases hc : w.client <;> simp [errorCode,SocketIo.noClientResult]
  | emitToClient => simp [errorCode]
  | unspecified | joinRoom | leaveRoom | error => simp [errorCode]

theorem refuses_of {w : World} {target : Target} {ev : Event} {vu : ℕ} {o : Outcome} {out : List Sent}
    (ho : dispatch w target ev vu = some o) (hsent : sent w target ev vu = out) :
    Refuses w target ev vu ↔ errorCode o ≠ "" ∧ out = [] := by
  simp only [Refuses,ho,hsent,Option.some.injEq,exists_eq_left']

/-- An event whose body is lost leads to a row with an error code and to no request exactly when the
dispatcher is stopped before the network for a reason it reports: for HTTP this includes the error of
`fetchBody`, for the others it does not. -/
theorem lost_body_refused_iff (garbled : Body → Bool) {w : World} (target : Target) {ev : Event} (vu : ℕ)
    (h : Lost garbled w ev) : Refuses w target ev vu ↔ Stopped w target ev vu := by
  obtain ⟨body,hbody,-⟩ := h
  cases hp : ev.payload with
  | none => simp [bodyOf,hp] at hbody
  | some payload =>
    cases payload with
    | http e =>
      have hsent : sent w target ev vu = Http.sent w target ev vu := by simp only [sent,hp]
      rw [refuses_of (dispatch_http w target vu hp) hsent,
        http_refuses_iff (h := e) (by simp [Http.extractHTTP,hp])]
      simp [Stopped,Http.extractHTTP,hp]
    | webhook e =>
      cases e with
      | none => simp [bodyOf,hp] at hbody
      | some e =>
        have hsent : sent w target ev vu = Http.sent w target ev vu := by simp only [sent,hp]
        rw [refuses_of (dispatch_webhook w target vu hp) hsent,
          http_refuses_iff (h := e) (by simp [Http.extractHTTP,hp])]
        simp [Stopped,Http.extractHTTP,hp]
    | cron c =>
      have hsent : sent w target ev vu = Invoke.sent w target ev (Cron.payload w c vu) := by simp only [sent,hp]
      rw [refuses_of (dispatch_cron w target vu hp) hsent,invoke_refuses_iff]
      simp [Stopped,Http.extractHTTP,hp]
    | queue q =>
      have hsent : sent w target ev vu = Invoke.sent w target ev (Queue.payload w q vu) := by simp only [sent,hp]
      rw [refuses_of (dispatch_queue w target vu hp) hsent,invoke_refuses_iff]
      simp [Stopped,Http.extractHTTP,hp]
    | socket e =>
      have hsent : sent w target ev vu = SocketIo.sent w target e := by simp only [sent,hp]
      rw [refuses_of (dispatch_socket w target vu hp) hsent,socket_refuses_iff hp]
      simp [Stopped,Http.extractHTTP,hp]
    | outbound e | db e | runtime e => simp [bodyOf,hp] at hbody

/-- No blob reader, and a target that answers everything. -/
def blobless : World :=
  ⟨none,fun body _ _ => .ok body,fun _ _ => none,fun req => .ok req,fun _ => .ok ⟨200,0⟩,1,fun _ _ => none,true,
    fun _ _ _ => (0,none)⟩

def offloadedJob : Event :=
  ⟨"ev_1",0,some (.cron ⟨"nightly","node-cron",
    some ⟨some (.blob ⟨"clv","sess_1/ev_1"⟩),"application/json",9000⟩,0,"","schedule"⟩)⟩

def offloadedUpload : Event :=
  ⟨"ev_2",0,some (.http ⟨"POST","/upload",[],some ⟨some (.blob ⟨"clv","sess_1/ev_2"⟩),"application/json",9000⟩,200,none,
    0,"","","/upload"⟩)⟩

/-- The job is run without its arguments, and the row says nothing of it. -/
theorem job_replayed_without_arguments :
    Lost (fun _ => false) blobless offloadedJob ∧
    ¬ Refuses blobless ⟨"http://sut","rep_1"⟩ offloadedJob 0 ∧
    (dispatch blobless ⟨"http://sut","rep_1"⟩ offloadedJob 0).map (fun o => (errorCode o,o.1.responseStatus)) =
      some ("",200) ∧
    Cron.payload blobless ⟨"nightly","node-cron",some ⟨some (.blob ⟨"clv","sess_1/ev_1"⟩),"application/json",9000⟩,0,"",
      "schedule"⟩ 0 = [("name",.text "nightly"),("scheduler",.text "node-cron"),("trigger_source",.text "schedule"),
        ("vu",.int 0),("args_base64",.text "")] := by
  have hlost : Lost (fun _ => false) blobless offloadedJob := ⟨_,rfl,.inl ⟨_,rfl⟩⟩
  refine ⟨hlost,fun hr => ?_,rfl,rfl⟩
  exact absurd hr.2 (by simp [sent,offloadedJob,Invoke.sent,blobless])

theorem lost_body_refused_upload :
    Refuses blobless ⟨"http://sut","rep_1"⟩ offloadedUpload 0 ∧
      Stopped blobless ⟨"http://sut","rep_1"⟩ offloadedUpload 0 := by
  have hstopped : Stopped blobless ⟨"http://sut","rep_1"⟩ offloadedUpload 0 := .inl ⟨_,rfl,.inl ⟨_,rfl⟩⟩
  exact ⟨(lost_body_refused_iff (fun _ => false) _ _ ⟨_,rfl,.inl ⟨_,rfl⟩⟩).mpr hstopped,hstopped⟩

end Dispatchers
end Clearvoiance
