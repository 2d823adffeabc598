import Clearvoiance.Middleware
import Clearvoiance.MockPackStream

/-! Activating hermetic mode.  The SDK opens a stream of mock entries, fills its store from the data events and waits
for the end, an error or a timer, whichever comes first; only then it starts its servers and installs the intercept.
The engine builds the entries while it sends them, so that the pack is not known to be whole before the status of
the stream, and a stream may break with entries under way. -/
namespace Clearvoiance
namespace HermeticActivation

open Middleware (APIKeys Status)
open MockPack (PackEntry storeEntry)
open Transition

/-- A call of `activateHermetic` and what it meets: the key store and the stored session. -/
structure Config where
  apiKey : String
  sourceSessionId : String
  fetchTimeoutMs : ℕ := 30000
  keys : APIKeys
  session : MockPackStream.Session

/-- A status other than OK; the last is made up by the client when the connection breaks. -/
inductive Failure
  | refused (status : Status)
  | build (err : MockPackStream.PackError)
  | cancelled
  | send (text : String)
  | transport (text : String)
  deriving DecidableEq

inductive Server
  | called
  | building (b : MockPackStream.State)
  | returned (status : Option Failure)
  deriving DecidableEq

inductive FetchError
  | timedOut (timeoutMs : ℕ)
  | stream (f : Failure)
  deriving DecidableEq

inductive Promise
  | pending
  | resolved
  | rejected (err : FetchError)
  deriving DecidableEq

/-- A promise settles once. -/
def Promise.settle (p q : Promise) : Promise :=
  match p with
  | .pending => q
  | _ => p

inductive Activation
  | pending
  | failed
  | installed (store : MockStore.Store)
  deriving DecidableEq

/-- `wire` are the entries sent and not yet given to the data listener, `trailer` is the status that the client has
received. -/
structure State where
  server : Server
  wire : List PackEntry
  trailer : Option (Option Failure)
  cancelled : Bool
  timer : Bool
  ended : Bool
  store : MockStore.Store
  promise : Promise
  activation : Activation
  deriving DecidableEq

def init : State := ⟨.called,[],none,false,true,false,∅,.pending,.pending⟩

/-- `interrupt` is the end of the builder's loop by a cancelled context, or by a send that fails; `lost` is a broken
connection; `setUp` is the rest of the activation, which may fail. -/
inductive Label
  | serve
  | build (l : MockPackStream.Label)
  | interrupt (send : Option String)
  | conclude
  | data
  | status
  | lost (text : String)
  | ended
  | timeout
  | setUp (succeeds : Bool)
  deriving DecidableEq

def Config.serve (c : Config) : Server :=
  match Middleware.auth c.keys c.apiKey with
  | .error status => .returned (some (.refused status))
  | .ok () =>
    if c.sourceSessionId = "" then .returned (some (.refused ⟨.invalidArgument,"source_session_id is required"⟩))
    else .building (MockPackStream.init c.session)

/-- A status other than OK is an error event. -/
def State.receive (s : State) (status : Option Failure) : State :=
  match status with
  | none => { s with trailer := some none }
  | some f => { s with trailer := some (some f), timer := false, promise := s.promise.settle (.rejected (.stream f)) }

def step (c : Config) (s : State) : Label → Option State
  | .serve => if s.server = .called then some { s with server := c.serve } else none
  | .build l =>
    match s.server with
    | .building b => (MockPackStream.step b l).map fun b' =>
      { s with server := .building b', wire := s.wire ++ b'.emitted.drop b.emitted.length }
    | _ => none
  | .interrupt send =>
    match s.server with
    | .building b =>
      if b.builder = .selecting ∧ (send.isSome ∨ s.cancelled) then
        some { s with server := .returned (some ((send.map Failure.send).getD .cancelled)) }
      else none
    | _ => none
  | .conclude =>
    match s.server with
    | .building b =>
      match b.builder with
      | .returned r => some { s with server := .returned (r.map .build) }
      | _ => none
    | _ => none
  | .data =>
    match s.wire with
    | [] => none
    | entry :: wire => some { s with wire := wire, store := MockStore.add s.store (storeEntry entry) }
  | .status =>
    match s.server with
    | .returned status => if s.trailer = none then some (s.receive status) else none
    | _ => none
  | .lost text => if s.trailer = none then some (s.receive (some (.transport text))) else none
  | .ended =>
    if s.trailer.isSome ∧ s.wire = [] ∧ s.ended = false then
      some { s with ended := true, timer := false, promise := s.promise.settle .resolved }
    else none
  | .timeout =>
    if s.timer then
      some { s with timer := false, cancelled := true
                    promise := s.promise.settle (.rejected (.timedOut c.fetchTimeoutMs)) }
    else none
  | .setUp succeeds =>
    match s.promise with
    | .pending => none
    | .resolved =>
      if s.activation = .pending then
        some { s with activation := if succeeds then .installed s.store else .failed }
      else none
    | .rejected _ => if s.activation = .pending then some { s with activation := .failed } else none

/-- What the data listener got and what is still under way. -/
def Carried (wire : List PackEntry) (store : MockStore.Store) (sent : List PackEntry) : Prop :=
  ∃ got, got ++ wire = sent ∧ store = MockStore.load (got.map storeEntry)

def Admitted (c : Config) : Prop := Middleware.auth c.keys c.apiKey = .ok () ∧ c.sourceSessionId ≠ ""

/-- Where the handler stands, with the entries it has sent. -/
def Served (c : Config) (wire : List PackEntry) (store : MockStore.Store) : Server → Prop
  | .called => Carried wire store []
  | .building b => Admitted c ∧ MockPackStream.Sound b ∧ b.session = c.session ∧ Carried wire store b.emitted
  | .returned none => Admitted c ∧ c.session.error = none ∧ Carried wire store c.session.pack
  | .returned (some _) => True

structure Good (c : Config) (s : State) : Prop where
  served : Served c s.wire s.store s.server
  finished : s.trailer = some none → s.server = .returned none
  rejected : ∀ f, s.trailer = some (some f) → ∃ err, s.promise = .rejected err
  resolved : s.promise = .resolved → s.trailer = some none ∧ s.wire = []
  armed : s.promise = .pending → s.timer = true
  installed : ∀ store, s.activation = .installed store → s.promise = .resolved ∧ store = s.store

variable {c : Config} {s t : State}

theorem emitted_step {b b' : MockPackStream.State} {l : MockPackStream.Label}
    (h : MockPackStream.step b l = some b') : b.emitted <+: b'.emitted := by
  rcases MockPackStream.step_cases h with ⟨-,hr⟩ | ⟨-,rfl⟩ | ⟨e,errs,-,-,-,rfl⟩ | ⟨ev,events,-,-,-,rfl⟩ |
    ⟨-,-,-,-,rfl⟩ | ⟨e,errs,-,-,-,rfl⟩ | ⟨-,-,-,rfl⟩
  · obtain ⟨-,-,hemitted,-⟩ := MockPackStream.readStep_cases hr
    exact hemitted ▸ List.prefix_refl _
  case inr.inr.inr.inl => exact List.prefix_append _ _
  all_goals exact List.prefix_refl _

section Carrying

variable {wire sent sent' : List PackEntry} {store : MockStore.Store} {entry : PackEntry}

theorem Carried.send (h : Carried wire store sent) (hs : sent <+: sent') :
    Carried (wire ++ sent'.drop sent.length) store sent' := by
  obtain ⟨got,hgot,hstore⟩ := h
  obtain ⟨more,rfl⟩ := hs
  refine ⟨got,?_,hstore⟩
  rw [List.drop_left,← List.append_assoc,hgot]

theorem Carried.deliver (h : Carried (entry :: wire) store sent) :
    Carried wire (MockStore.add store (storeEntry entry)) sent := by
  obtain ⟨got,hgot,hstore⟩ := h
  refine ⟨got ++ [entry],by simpa using hgot,?_⟩
  simp [MockStore.load,hstore]

theorem Served.deliver {v : Server} (h : Served c (entry :: wire) store v) :
    Served c wire (MockStore.add store (storeEntry entry)) v := by
  cases v with
  | called => exact Carried.deliver h
  | building b => exact ⟨h.1,h.2.1,h.2.2.1,h.2.2.2.deliver⟩
  | returned status =>
    cases status with
    | none => exact ⟨h.1,h.2.1,h.2.2.deliver⟩
    | some f => trivial

theorem served_serve (h : Carried wire store []) : Served c wire store c.serve := by
  unfold Config.serve
  cases hauth : Middleware.auth c.keys c.apiKey with
  | error status => trivial
  | ok =>
    simp only
    split_ifs with hid
    · trivial
    · exact ⟨⟨hauth,hid⟩,MockPackStream.sound_init c.session,rfl,h⟩

end Carrying

theorem good_init (c : Config) : Good c init where
  served := ⟨[],rfl,rfl⟩
  finished := by simp [init]
  rejected := by simp [init]
  resolved := by simp [init]
  armed := by simp [init]
  installed := by simp [init]

/-- A step of the engine, which has not ended the stream yet. -/
theorem Good.engine (h : Good c s) (hrunning : s.server ≠ .returned none) {server : Server} (wire : List PackEntry)
    (hserved : Served c wire s.store server) : Good c { s with server := server, wire := wire } where
  served := hserved
  finished := fun htrailer => absurd (h.finished htrailer) hrunning
  rejected := h.rejected
  resolved := fun hresolved => absurd (h.finished (h.resolved hresolved).1) hrunning
  armed := h.armed
  installed := h.installed

@[simp] theorem settle_rejected_eq_resolved {p : Promise} {err : FetchError} :
    p.settle (.rejected err) = .resolved ↔ p = .resolved := by cases p <;> simp [Promise.settle]

@[simp] theorem settle_rejected_ne_pending {p : Promise} {err : FetchError} :
    p.settle (.rejected err) ≠ .pending := by cases p <;> simp [Promise.settle]

@[simp] theorem settle_resolved_ne_pending {p : Promise} : p.settle .resolved ≠ .pending := by
  cases p <;> simp [Promise.settle]

theorem settle_of_rejected {p q : Promise} (h : ∃ err, p = .rejected err) : p.settle q = p := by
  obtain ⟨err,rfl⟩ := h
  rfl

theorem rejected_settle {p : Promise} (h : p ≠ .resolved) (err : FetchError) :
    ∃ err', p.settle (.rejected err) = .rejected err' := by
  cases p with
  | pending => exact ⟨err,rfl⟩
  | resolved => exact absurd rfl h
  | rejected err' => exact ⟨err',rfl⟩

theorem Good.receive (h : Good c s) (htrailer : s.trailer = none) {status : Option Failure}
    (hstatus : status = none → s.server = .returned none) : Good c (s.receive status) := by
  have hopen : s.promise ≠ .resolved := fun hresolved =>
    absurd (htrailer.symm.trans (h.resolved hresolved).1) (by simp)
  cases status with
  | none =>
    exact ⟨h.served,fun _ => hstatus rfl,by simp [State.receive],fun hresolved => absurd hresolved hopen,h.armed,
      h.installed⟩
  | some f =>
    exact ⟨h.served,by simp [State.receive],fun _ _ => rejected_settle hopen _,
      fun hresolved => absurd (settle_rejected_eq_resolved.mp hresolved) hopen,
      fun hpending => absurd hpending settle_rejected_ne_pending,
      fun store hstore => absurd (h.installed store hstore).1 hopen⟩

theorem Good.deliver (h : Good c s) {entry : PackEntry} {wire : List PackEntry} (hwire : s.wire = entry :: wire) :
    Good c { s with wire := wire, store := MockStore.add s.store (storeEntry entry) } := by
  have hopen : s.promise ≠ .resolved := fun hresolved =>
    absurd (hwire.symm.trans (h.resolved hresolved).2) (by simp)
  exact ⟨Served.deliver (hwire ▸ h.served),h.finished,h.rejected,fun hresolved => absurd hresolved hopen,h.armed,
    fun store hstore => absurd (h.installed store hstore).1 hopen⟩

theorem Good.finish (h : Good c s) (htrailer : s.trailer.isSome) (hwire : s.wire = []) :
    Good c { s with ended := true, timer := false, promise := s.promise.settle .resolved } where
  served := h.served
  finished := h.finished
  rejected f hf := by
    rw [settle_of_rejected (h.rejected f hf)]
    exact h.rejected f hf
  resolved hresolved := by
    refine ⟨?_,hwire⟩
    obtain ⟨status,hstatus⟩ := Option.isSome_iff_exists.mp htrailer
    cases status with
    | none => exact hstatus
    | some f =>
      obtain ⟨err,herr⟩ := h.rejected f hstatus
      simp [herr,Promise.settle] at hresolved
  armed hpending := absurd hpending settle_resolved_ne_pending
  installed store hstore := by
    obtain ⟨hresolved,hsame⟩ := h.installed store hstore
    exact ⟨by simp [hresolved,Promise.settle],hsame⟩

theorem Good.expire (h : Good c s) : Good c { s with
    timer := false, cancelled := true, promise := s.promise.settle (.rejected (.timedOut c.fetchTimeoutMs)) } where
  served := h.served
  finished := h.finished
  rejected f hf := by
    rw [settle_of_rejected (h.rejected f hf)]
    exact h.rejected f hf
  resolved hresolved := h.resolved (settle_rejected_eq_resolved.mp hresolved)
  armed hpending := absurd hpending settle_rejected_ne_pending
  installed store hstore := by
    obtain ⟨hresolved,hsame⟩ := h.installed store hstore
    exact ⟨settle_rejected_eq_resolved.mpr hresolved,hsame⟩

theorem Good.step {l : Label} (h : Good c s) (hstep : step c s l = some t) : Good c t := by
  cases l with
  | serve =>
    simp only [HermeticActivation.step,Option.ite_none_right_eq_some,Option.some.injEq] at hstep
    obtain ⟨hcalled,rfl⟩ := hstep
    have hserved := h.served
    rw [hcalled] at hserved
    exact h.engine (by simp [hcalled]) _ (served_serve hserved)
  | build l =>
    simp only [HermeticActivation.step] at hstep
    split at hstep
    · rename_i b hb
      obtain ⟨b',hb',rfl⟩ := Option.map_eq_some_iff.mp hstep
      have hserved := h.served
      rw [hb] at hserved
      obtain ⟨hadmitted,hsound,hsession,hcarried⟩ := hserved
      exact h.engine (by simp [hb]) _ ⟨hadmitted,MockPackStream.sound_step hsound hb',
        (MockPackStream.session_step hb').trans hsession,hcarried.send (emitted_step hb')⟩
    · cases hstep
  | interrupt send =>
    simp only [HermeticActivation.step] at hstep
    split at hstep
    · rename_i b hb
      simp only [Option.ite_none_right_eq_some,Option.some.injEq] at hstep
      obtain ⟨-,rfl⟩ := hstep
      exact h.engine (by simp [hb]) s.wire trivial
    · cases hstep
  | conclude =>
    simp only [HermeticActivation.step] at hstep
    split at hstep
    · rename_i b hb
      split at hstep
      · rename_i r hr
        cases hstep
        refine h.engine (by simp [hb]) s.wire ?_
        have hserved := h.served
        rw [hb] at hserved
        obtain ⟨hadmitted,hsound,hsession,hcarried⟩ := hserved
        cases r with
        | none =>
          obtain ⟨herror,hpack⟩ := hsound.of_returned_none hr
          exact ⟨hadmitted,hsession ▸ herror,by rwa [hpack,hsession] at hcarried⟩
        | some err => trivial
      · cases hstep
    · cases hstep
  | data =>
    simp only [HermeticActivation.step] at hstep
    split at hstep
    · cases hstep
    · rename_i entry wire hwire
      cases hstep
      exact h.deliver hwire
  | status =>
    simp only [HermeticActivation.step] at hstep
    split at hstep
    · rename_i status hserver
      simp only [Option.ite_none_right_eq_some,Option.some.injEq] at hstep
      obtain ⟨htrailer,rfl⟩ := hstep
      exact h.receive htrailer fun hnone => hnone ▸ hserver
    · cases hstep
  | lost text =>
    simp only [HermeticActivation.step,Option.ite_none_right_eq_some,Option.some.injEq] at hstep
    obtain ⟨htrailer,rfl⟩ := hstep
    exact h.receive htrailer (by simp)
  | ended =>
    simp only [HermeticActivation.step,Option.ite_none_right_eq_some,Option.some.injEq] at hstep
    obtain ⟨⟨htrailer,hwire,-⟩,rfl⟩ := hstep
    exact h.finish htrailer hwire
  | timeout =>
    simp only [HermeticActivation.step,Option.ite_none_right_eq_some,Option.some.injEq] at hstep
    obtain ⟨-,rfl⟩ := hstep
    exact h.expire
  | setUp succeeds =>
    simp only [HermeticActivation.step] at hstep
    split at hstep
    · cases hstep
    · rename_i hresolved
      simp only [Option.ite_none_right_eq_some,Option.some.injEq] at hstep
      obtain ⟨-,rfl⟩ := hstep
      refine ⟨h.served,h.finished,h.rejected,h.resolved,h.armed,fun store hstore => ⟨hresolved,?_⟩⟩
      cases succeeds <;> simp_all
    · simp only [Option.ite_none_right_eq_some,Option.some.injEq] at hstep
      obtain ⟨-,rfl⟩ := hstep
      exact ⟨h.served,h.finished,h.rejected,h.resolved,h.armed,by simp⟩

/-- While the fetch is pending the timer is armed, so that the activation cannot hang; and where it installs the
intercept, the engine let the call pass, has read the session without an error, and the store holds the whole pack. -/
theorem activation_complete (c : Config) {as : List Label} (he : exec (step c) init as = some s) :
    (s.promise = .pending → (step c s .timeout).isSome) ∧
      ∀ store, s.activation = .installed store → Middleware.auth c.keys c.apiKey = .ok () ∧
        c.sourceSessionId ≠ "" ∧ c.session.error = none ∧ store = MockPack.fetchMockPack c.session.events := by
  have hgood : Good c s :=
    (Run.of_exec_true he).invariant (Good c) (fun _ _ _ hs _ hstep => hs.step hstep) (good_init c)
  constructor
  · intro hpending
    simp [step,hgood.armed hpending]
  · intro store hstore
    obtain ⟨hresolved,rfl⟩ := hgood.installed store hstore
    obtain ⟨htrailer,hwire⟩ := hgood.resolved hresolved
    have hserved := hgood.served
    rw [hgood.finished htrailer,hwire] at hserved
    obtain ⟨hadmitted,herror,got,hgot,hload⟩ := hserved
    rw [List.append_nil] at hgot
    exact ⟨hadmitted.1,hadmitted.2,herror,by rw [hload,hgot]; rfl⟩

def paymentConfig : Config :=
  { apiKey := "clv_live_a", sourceSessionId := "sess_1", keys := .over [], session := MockPackStream.paymentSession }

def paymentLabels : List Label :=
  (.serve : Label) :: MockPackStream.paymentRun.map .build ++
    ([.data,.conclude,.status,.data,.ended,.setUp true] : List Label)

def Activation.succeeded : Activation → Bool
  | .installed _ => true
  | _ => false

theorem activation_complete_payment : ∃ s ∈ exec (step paymentConfig) init paymentLabels, ∃ store,
    s.activation = .installed store ∧ store = MockPack.fetchMockPack paymentConfig.session.events := by
  have hany : (exec (step paymentConfig) init paymentLabels).any (fun s => s.activation.succeeded) = true := by
    decide +kernel
  obtain ⟨s,hs,hsucceeded⟩ := (Option.any_eq_true _ _).mp hany
  obtain ⟨-,hinstalled⟩ := activation_complete paymentConfig hs
  cases hactivation : s.activation with
  | installed store => exact ⟨s,hs,store,hactivation,(hinstalled store hactivation).2.2.2⟩
  | pending => simp [hactivation,Activation.succeeded] at hsucceeded
  | failed => simp [hactivation,Activation.succeeded] at hsucceeded

end HermeticActivation
end Clearvoiance
