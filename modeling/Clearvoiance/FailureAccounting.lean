import Clearvoiance.Dispatchers
import Clearvoiance.ReplayLedger

/-! Replay runs whose dispatches are those of the engine's dispatchers.  The scheduler counts a dispatch
as failed when the dispatcher returns an error or the response has a status of at least 500; a
dispatcher that puts an error code into its result and returns no error is not counted. -/
namespace Clearvoiance
namespace Dispatchers

open CapturedEvents Transition
open Replay (Ledger Label ResultRow State Config DispatchResult Moves)

/-- The error codes of a dispatch that failed; `socket_skipped_emit` is a deliberate skip. -/
def failureCodes : List String :=
  ["dispatch_error","blob_fetch","network","auth","socket_connect","socket_no_client","socket_emit","socket_unknown_op"]

def didNotSucceed (row : ResultRow) : Bool :=
  decide (500 ≤ row.result.responseStatus ∧ row.result.responseStatus < 600) ||
    decide (row.result.errorCode ∈ failureCodes)

/-- A step of a run: what the environment answered during a dispatch, or any other step. -/
inductive Act
  | dispatched (i : ℕ) (w : World)
  | other (l : Label)

def Act.label (target : Target) (s : State (Option Payload)) : Act → Option Label
  | .dispatched i w =>
    (s.workers[i]?).bind fun worker => (dispatch w target worker.ev worker.vu).map fun r => .dispatched i r.1 r.2
  | .other (.dispatched ..) => none
  | .other l => some l

def step (target : Target) (g : Ledger (Option Payload)) (a : Act) : Option (Ledger (Option Payload)) :=
  (a.label target g.run).bind g.step

def Accounted (g : Ledger (Option Payload)) : Prop :=
  g.run.summary.eventsFailed = g.rows.countP didNotSucceed

instance (g : Ledger (Option Payload)) : Decidable (Accounted g) := inferInstanceAs (Decidable (_ = _))

def answered (w : World) (req : Request) : Bool :=
  match w.exchange req with
  | .error _ => false
  | .ok resp => decide (uint16 resp.statusCode < 600)

/-- The body can be fetched, and a request that goes out is answered. -/
def Http.plain (w : World) (target : Target) (ev : Event) (vu : ℕ) (h : HttpEvent) : Bool :=
  match fetchBody w h.requestBody with
  | .error _ => false
  | .ok body =>
    match prepare w target ev vu h body with
    | .error _ => true
    | .ok (_,req) => answered w req

/-- A request that can be built is authorised and answered. -/
def Invoke.plain (w : World) (target : Target) (ev : Event) (fields : List (String × Value)) : Bool :=
  match w.newRequest "POST" (trimSlashes target.baseURL ++ invokePath) with
  | some _ => true
  | none =>
    match w.applyAuth (request target ev (marshal fields)) with
    | .error _ => false
    | .ok req => answered w req

/-- The client opens, or is there and takes the packet; the operation is one the dispatcher knows. -/
def SocketIo.plain (w : World) (target : Target) (s : SocketEvent) : Bool :=
  match s.op with
  | .connect => (w.openClient target.baseURL s.nsp).isNone
  | .recvFromClient => w.client && (w.emitEvent s.nsp s.eventName (fetchedBytes w s.data)).2.isNone
  | .emitToClient | .disconnect => true
  | _ => false

/-- The environment's answers lead to no failure that the dispatcher keeps to its result. -/
def plain (w : World) (target : Target) (ev : Event) (vu : ℕ) : Bool :=
  match ev.payload with
  | some (.http h) | some (.webhook (some h)) => Http.plain w target ev vu h
  | some (.cron c) => Invoke.plain w target ev (Cron.payload w c vu)
  | some (.queue q) => Invoke.plain w target ev (Queue.payload w q vu)
  | some (.socket s) => SocketIo.plain w target s
  | _ => true

def Reported (target : Target) (g : Ledger (Option Payload)) : Act → Prop
  | .dispatched i w => ∀ worker ∈ g.run.workers[i]?, plain w target worker.ev worker.vu = true
  | .other _ => True

instance (target : Target) (g : Ledger (Option Payload)) (a : Act) : Decidable (Reported target g a) := by
  induction a using Act.casesOn <;> unfold Reported <;> infer_instance

def counted (o : Outcome) : Bool := o.2.isSome || decide (500 ≤ o.1.responseStatus)

/-- The dispatch is counted as failed exactly when its row says that it did not succeed. -/
def Tallies (o : Outcome) : Prop :=
  ∀ (cfg : Config (Option Payload)) (ev : Event) (vu : ℕ) (t : Replay.Timing),
    counted o = didNotSucceed (Replay.resultRow cfg ev vu t o.1 o.2)

theorem tallies_error (res : DispatchResult) (message : String) : Tallies (res,some message) := by
  intro cfg ev vu t
  simp [counted,didNotSucceed,Replay.resultRow,failureCodes]

theorem tallies_result_iff (res : DispatchResult) : Tallies (res,none) ↔
    if 500 ≤ res.responseStatus then res.responseStatus < 600 ∨ res.errorCode ∈ failureCodes
    else res.errorCode ∉ failureCodes := by
  have hrow : Tallies (res,none) ↔ decide (500 ≤ res.responseStatus) =
      (decide (500 ≤ res.responseStatus ∧ res.responseStatus < 600) || decide (res.errorCode ∈ failureCodes)) := by
    constructor
    · intro h
      exact h ⟨"",0,0,0,0,1,0,0,[]⟩ ⟨"",0,none⟩ 0 ⟨0,0,0⟩
    · intro h cfg ev vu t
      exact h
  rw [hrow]
  split_ifs with hlow <;> by_cases hcode : res.errorCode ∈ failureCodes <;> simp [hlow,hcode]

theorem Http.tallies_fire_iff (w : World) (h : HttpEvent) (body : Bytes) (req : Request) :
    Tallies (fire w h body req,none) ↔ answered w req = true := by
  rw [tallies_result_iff]
  unfold fire answered
  cases w.exchange req with
  | error message => simp [result,blank,failureCodes]
  | ok resp =>
    simp [result,blank,failureCodes]
    omega

theorem Invoke.tallies_fire_iff (w : World) (body : Bytes) (req : Request) :
    Tallies (fire w body req,none) ↔ answered w req = true := by
  rw [tallies_result_iff]
  unfold fire answered
  cases w.exchange req with
  | error message => simp [blank,failureCodes]
  | ok resp =>
    simp [blank,failureCodes]
    omega

theorem Http.tallies_iff (w : World) (target : Target) (ev : Event) (vu : ℕ) {h : HttpEvent}
    (hev : extractHTTP ev = some h) : Tallies (dispatch w target ev vu) ↔ Http.plain w target ev vu h = true := by
  unfold dispatch Http.plain
  simp only [hev]
  cases fetchBody w h.requestBody with
  | error message =>
    simp only
    rw [tallies_result_iff]
    simp [result,blank,failureCodes]
  | ok body =>
    simp only
    cases prepare w target ev vu h body with
    | error message => simp [tallies_error]
    | ok r => exact tallies_fire_iff w h r.1 r.2

theorem Invoke.tallies_iff (w : World) (target : Target) (ev : Event) (kind : String) (fields : List (String × Value)) :
    Tallies (post w target ev kind fields) ↔ Invoke.plain w target ev fields = true := by
  unfold post Invoke.plain
  simp only
  cases w.newRequest "POST" (trimSlashes target.baseURL ++ invokePath) with
  | some message => simp [tallies_error]
  | none =>
    simp only
    cases w.applyAuth (request target ev (marshal fields)) with
    | error message =>
      simp only
      rw [tallies_result_iff]
      simp [blank,failureCodes]
    | ok req => exact tallies_fire_iff w (marshal fields) req

theorem SocketIo.tallies_iff (w : World) (target : Target) (ev : Event) (vu : ℕ) {s : SocketEvent}
    (hev : ev.payload = some (.socket s)) :
    Tallies (dispatch w target ev vu) ↔ SocketIo.plain w target s = true := by
  unfold dispatch SocketIo.plain
  simp only [hev]
  cases s.op with
  | connect =>
    simp only
    rw [tallies_result_iff]
    cases w.openClient target.baseURL s.nsp <;> simp [connectResult,blank,failureCodes]
  | recvFromClient =>
    simp only
    cases hc : w.client with
    | false =>
      simp only [Bool.false_eq_true,if_false]
      rw [tallies_result_iff]
      simp [noClientResult,blank,failureCodes]
    | true =>
      simp only [if_true]
      rw [tallies_result_iff]
      cases w.emitEvent s.nsp s.eventName (fetchedBytes w s.data) with
      | mk sent err => cases err <;> simp [emitResult,blank,failureCodes]
  | _ =>
    simp only
    rw [tallies_result_iff]
    simp [blank,failureCodes]

theorem tallies_dispatch_iff {w : World} {target : Target} {ev : Event} {vu : ℕ} {o : Outcome}
    (h : dispatch w target ev vu = some o) : Tallies o ↔ plain w target ev vu = true := by
  unfold dispatch registered at h
  unfold plain
  cases hev : ev.payload with
  | none => simp [Http.canHandle,Cron.canHandle,SocketIo.canHandle,Queue.canHandle,hev] at h
  | some p =>
    cases p with
    | http e =>
      simp only [List.find?,Http.canHandle,hev,Option.map_some,Option.some.injEq] at h
      rw [← h]
      exact Http.tallies_iff w target ev vu (by simp [Http.extractHTTP,hev])
    | webhook e =>
      simp only [List.find?,Http.canHandle,hev,Option.map_some,Option.some.injEq] at h
      rw [← h]
      cases e with
      | some e => exact Http.tallies_iff w target ev vu (by simp [Http.extractHTTP,hev])
      | none => simp [Http.dispatch,Http.extractHTTP,hev,tallies_error]
    | cron c =>
      simp only [List.find?,Http.canHandle,Cron.canHandle,hev,Option.map_some,Option.some.injEq] at h
      rw [← h]
      simp only [Cron.dispatch,hev]
      exact Invoke.tallies_iff w target ev "cron" (Cron.payload w c vu)
    | queue q =>
      simp only [List.find?,Http.canHandle,Cron.canHandle,SocketIo.canHandle,Queue.canHandle,hev,Option.map_some,
        Option.some.injEq] at h
      rw [← h]
      simp only [Queue.dispatch,hev]
      exact Invoke.tallies_iff w target ev "queue" (Queue.payload w q vu)
    | socket s =>
      simp only [List.find?,Http.canHandle,Cron.canHandle,SocketIo.canHandle,hev,Option.map_some,
        Option.some.injEq] at h
      rw [← h]
      exact SocketIo.tallies_iff w target ev vu hev
    | _ => simp [Http.canHandle,Cron.canHandle,SocketIo.canHandle,Queue.canHandle,hev] at h

section Run

variable {target : Target} {g g' : Ledger (Option Payload)}

theorem eventsFailed_other {l : Label} (hl : ∀ i res derr, l ≠ .dispatched i res derr) (hst : g.step l = some g') :
    g'.run.summary.eventsFailed = g.run.summary.eventsFailed ∧ g'.rows = g.rows := by
  obtain ⟨hm,hrows,-,-⟩ := Ledger.step_run hst
  have hnone : Ledger.counts g.run l = [] := by
    cases l with
    | dispatched i res derr => exact absurd rfl (hl i res derr)
    | _ => rfl
  refine ⟨?_,by rw [hrows,hnone,List.append_nil]⟩
  generalize g'.run = t at hm
  cases hm with
  | dispatched i l r w res derr => exact absurd rfl (hl i res derr)
  | close | abandon =>
    unfold State.close
    split <;> rfl
  | insert why err => cases err <;> rfl
  | _ => rfl

theorem eventsFailed_dispatched {i : ℕ} {o : Outcome} {worker : Replay.Worker (Option Payload)}
    (hw : g.run.workers[i]? = some worker) (hst : g.step (.dispatched i o.1 o.2) = some g') :
    g'.run.summary.eventsFailed = g.run.summary.eventsFailed+(if counted o then 1 else 0) ∧
    g'.rows = g.rows ++ [Replay.resultRow g.run.cfg worker.ev worker.vu worker.timing o.1 o.2] := by
  obtain ⟨hm,hrows,-,-⟩ := Ledger.step_run hst
  refine ⟨?_,by simpa [Ledger.counts,hw] using hrows⟩
  generalize g'.run = t at hm
  cases hm with
  | dispatched _ l r w _ _ hl hp hi =>
    show (if counted o then g.run.summary.eventsFailed+1 else g.run.summary.eventsFailed) = _
    cases counted o <;> rfl

theorem accounted_step_iff {a : Act} (h : Accounted g) (hst : step target g a = some g') :
    Accounted g' ↔ Reported target g a := by
  obtain ⟨l,hl,hled⟩ := Option.bind_eq_some_iff.mp hst
  cases a with
  | other l' =>
    have hne : ∀ i res derr, l ≠ .dispatched i res derr := by
      cases l' with
      | dispatched => cases hl
      | _ =>
        cases hl
        simp
    obtain ⟨hfailed,hrows⟩ := eventsFailed_other hne hled
    simp only [Reported,iff_true]
    unfold Accounted
    rw [hfailed,hrows]
    exact h
  | dispatched i w =>
    obtain ⟨worker,hw,hl⟩ := Option.bind_eq_some_iff.mp hl
    obtain ⟨o,ho,rfl⟩ := Option.map_eq_some_iff.mp hl
    obtain ⟨hfailed,hrows⟩ := eventsFailed_dispatched hw hled
    have hplain : Reported target g (.dispatched i w) ↔ plain w target worker.ev worker.vu = true := by
      simp [Reported,hw]
    rw [hplain,← tallies_dispatch_iff ho]
    unfold Accounted at h ⊢
    rw [hfailed,hrows,h,List.countP_append,List.countP_singleton]
    constructor
    · intro heq cfg ev vu t
      have hflag : counted o = didNotSucceed
          (Replay.resultRow g.run.cfg worker.ev worker.vu worker.timing o.1 o.2) := by
        cases hc : counted o <;> cases hd : didNotSucceed
          (Replay.resultRow g.run.cfg worker.ev worker.vu worker.timing o.1 o.2) <;> simp [hc,hd] at heq ⊢
      exact hflag
    · intro htally
      rw [htally g.run.cfg worker.ev worker.vu worker.timing]

/-- The number of failed events agrees with the rows in every state of a run, the last one included,
exactly when no dispatch of the run keeps a failure to its result. -/
theorem failures_accounted_iff {cfg : Config (Option Payload)} {evs : List Event} {as : List Act}
    (he : exec (step target) (.init cfg evs) as = some g) :
    (∀ pre post u, as = pre ++ post → exec (step target) (.init cfg evs) pre = some u → Accounted u) ↔
    Along (step target) (Reported target) (.init cfg evs) as :=
  forall_reached_iff Accounted (fun _ _ _ h hst => accounted_step_iff h hst) he rfl

end Run

/-- A target that answers every request in the same way, without blobs, auth or sockets. -/
def targetWorld (answer : Except String Response) : World :=
  ⟨none,fun body _ _ => .ok body,fun _ _ => none,fun req => .ok req,fun _ => answer,0,fun _ _ => none,false,
    fun _ _ _ => (0,none)⟩

def localTarget : Target := ⟨"http://localhost:3000","rep_1"⟩

def pageConfig : Config (Option Payload) := ⟨"rep_1",1,0,0,0,1,0,0,registered.map Prod.fst⟩

def pageEvents : List Event := [⟨"ev_1",0,some (.http ⟨"GET","/",[],none,200,none,0,"","",""⟩)⟩]

/-- One request, from the first step of the scheduler to the return of `run`. -/
def pageRun (answer : Except String Response) : List Act :=
  [.other (.schedule 0),.other (.schedule 0),.other (.schedule 0),.other (.schedule 0),
    .dispatched 0 (targetWorld answer),.other (.send 0),.other (.release 0),.other (.finish 0),.other (.schedule 0),
    .other .receive,.other .receive,.other (.insert none),.other (.schedule 0)]

theorem refused_connection_not_counted :
    ∃ g ∈ exec (step localTarget) (.init pageConfig pageEvents) (pageRun (.error "connection refused")),
      g.run.scheduler = .returned none ∧ g.run.accepted = g.rows ∧ g.rows.map (·.result.errorCode) = ["network"] ∧
      g.run.summary.eventsFailed = 0 ∧ ¬ Accounted g := by
  decide +kernel

theorem failures_accounted_iff_unavailable :
    ∃ g ∈ exec (step localTarget) (.init pageConfig pageEvents) (pageRun (.ok ⟨503,0⟩)),
      g.run.scheduler = .returned none ∧ g.run.summary.eventsFailed = 1 ∧ Accounted g := by
  have hend : ∃ g ∈ exec (step localTarget) (.init pageConfig pageEvents) (pageRun (.ok ⟨503,0⟩)),
      g.run.scheduler = .returned none ∧ g.run.summary.eventsFailed = 1 := by decide +kernel
  obtain ⟨g,hg,hret,hcount⟩ := hend
  have hall := (failures_accounted_iff (Option.mem_def.mp hg)).mpr (by decide +kernel)
  exact ⟨g,hg,hret,hcount,hall _ [] g (by simp) (Option.mem_def.mp hg)⟩

end Dispatchers
end Clearvoiance
