import Clearvoiance.Fetch
import Clearvoiance.Patches

/-! The functions of the process that the SDK replaces: `request` and `get` of the modules `http` and `https`, the
global `fetch` and the `schedule` of `node-cron`.  Outbound capture, hermetic mode and the cron killer are installed
and uninstalled independently of each other, and each passes on what is not its own to the function it found. -/
namespace Clearvoiance
namespace PatchedGlobals

open Transition Patches
open Fetch (toLowerCase)

inductive Slot
  | httpRequest
  | httpsRequest
  | httpGet
  | httpsGet
  | fetch
  | schedule
  deriving DecidableEq

inductive Kind
  | patchHttp (skipHosts : List String)
  | patchFetch (skipHosts : List String)
  | installHermetic
  | patchCron
  deriving DecidableEq

def touches : Kind → Slot → Bool
  | .patchHttp _,k => k ≠ .fetch && k ≠ .schedule
  | .patchFetch _,k => k = .fetch
  | .installHermetic,k => k ≠ .schedule
  | .patchCron,k => k = .schedule

abbrev State := Patches.State Slot Kind

abbrev Label := Patches.Label Kind

abbrev step : State → Label → Option State := Patches.step touches

/-- How the function that answers a call leaves it: with a response, with an error (as strict hermetic mode does for
what is not mocked), or not at all, because it throws at once or the request never comes to an end. -/
inductive Outcome
  | responded
  | failed
  | unfinished
  deriving DecidableEq

/-- A call of one of the functions, with a URL and a body that can be read; the event is empty outside of every
scope. -/
structure Call where
  slot : Slot
  host : String
  eventId : String
  outcome : Outcome
  deriving DecidableEq

/-- What becomes of a call: a patch starts a task that records it, answers it or keeps its handler, or it gets to the
function of the platform. -/
inductive Seen
  | captured (i : ℕ)
  | mocked (i : ℕ)
  | registered (i : ℕ)
  | reached
  deriving DecidableEq

def skips (skipHosts : List String) (host : String) : Bool := toLowerCase host ∈ skipHosts.map toLowerCase

def kindOf (s : State) (i : ℕ) : Option Kind := (s.patches[i]?).map (·.kind)

/-- A call goes through the functions of a chain.  A request of `http` is recorded when it is over, whether with a
response or with an error; `patchedFetch` does not get behind its `await` when the inner call rejects. -/
def through (s : State) (c : Call) : Chain → List Seen × Outcome
  | [] => ([.reached],c.outcome)
  | i :: rest =>
    match kindOf s i with
    | some (.patchHttp skipHosts) =>
      let (seen,outcome) := through s c rest
      if c.eventId = "" ∨ skips skipHosts c.host = true ∨ outcome = .unfinished then (seen,outcome)
      else (.captured i :: seen,outcome)
    | some (.patchFetch skipHosts) =>
      let (seen,outcome) := through s c rest
      if c.eventId = "" ∨ skips skipHosts c.host = true ∨ outcome ≠ .responded then (seen,outcome)
      else (.captured i :: seen,outcome)
    | some .installHermetic => if c.eventId = "" then through s c rest else ([.mocked i],c.outcome)
    | some .patchCron => ([.registered i],c.outcome)
    | none => ([.reached],c.outcome)

/-- A replaced `get` calls what its module has as `request` by then. -/
def call (s : State) (c : Call) : List Seen :=
  match c.slot with
  | .httpGet => if s.slots .httpGet = [] then [.reached] else (through s c (s.slots .httpRequest)).1
  | .httpsGet => if s.slots .httpsGet = [] then [.reached] else (through s c (s.slots .httpsRequest)).1
  | k => (through s c (s.slots k)).1

section Expected

def isHermetic (s : State) (i : ℕ) : Bool := kindOf s i = some .installHermetic

def records (s : State) (c : Call) (i : ℕ) : Bool :=
  match kindOf s i with
  | some (.patchHttp skipHosts) => !skips skipHosts c.host && c.outcome ≠ .unfinished
  | some (.patchFetch skipHosts) => !skips skipHosts c.host && c.outcome = .responded
  | _ => false

/-- Inside a scope a request is recorded once by each patch in front of the newest hermetic one, which answers it: one of
`http` when it comes to an end, one of `fetch` when it has a response. -/
def answered (s : State) (c : Call) (live : Chain) : List Seen :=
  if c.eventId = "" then [.reached]
  else ((live.takeWhile fun i => !isHermetic s i).filter (records s c)).map .captured ++
    match live.find? (isHermetic s) with
    | some i => [Seen.mocked i]
    | none => [Seen.reached]

/-- The newest cron killer keeps the handler of a job. -/
def scheduled : Chain → List Seen
  | [] => [.reached]
  | i :: _ => [.registered i]

def expected (s : State) (c : Call) : List Seen :=
  match c.slot with
  | .schedule => scheduled (s.liveOn touches .schedule)
  | k => answered s c (s.liveOn touches k)

end Expected

variable {s t : State} {c : Call} {chain : Chain}

theorem through_eq_answered (h : ∀ i ∈ chain, ∃ kind, kindOf s i = some kind ∧ kind ≠ .patchCron) :
    through s c chain = (answered s c chain,c.outcome) := by
  induction chain with
  | nil => simp [through,answered]
  | cons i rest ih =>
    obtain ⟨⟨kind,hkind,hcron⟩,hrest⟩ := List.forall_mem_cons.mp h
    have hnext := ih hrest
    by_cases hscope : c.eventId = ""
    · rw [answered,if_pos hscope] at hnext ⊢
      cases kind with
      | patchHttp skipHosts | patchFetch skipHosts | installHermetic => simp [through,hkind,hscope,hnext]
      | patchCron => exact absurd rfl hcron
    · rw [answered,if_neg hscope] at hnext ⊢
      cases kind with
      | patchHttp skipHosts =>
        by_cases hskip : skips skipHosts c.host = true
        · simp [through,isHermetic,records,hkind,hscope,hskip,hnext]
        · by_cases hover : c.outcome = .unfinished <;>
            simp [through,isHermetic,records,hkind,hscope,hskip,hover,hnext]
      | patchFetch skipHosts =>
        by_cases hskip : skips skipHosts c.host = true
        · simp [through,isHermetic,records,hkind,hscope,hskip,hnext]
        · by_cases hresponded : c.outcome = .responded <;>
            simp [through,isHermetic,records,hkind,hscope,hskip,hresponded,hnext]
      | installHermetic => simp [through,isHermetic,hkind,hscope]
      | patchCron => exact absurd rfl hcron

theorem kind_of_live {k : Slot} {i : ℕ} (h : i ∈ s.liveOn touches k) :
    ∃ kind, kindOf s i = some kind ∧ touches kind k = true := by
  have htouching : s.touching touches k i = true := (List.mem_filter.mp h).2
  obtain ⟨p,hp,htouches⟩ := (Option.any_eq_true _ _).mp htouching
  exact ⟨p.kind,by rw [kindOf,hp]; rfl,htouches⟩

theorem through_live {k : Slot} (hk : k ≠ .schedule) (htidy : Tidy touches s) :
    (through s c (s.slots k)).1 = answered s c (s.liveOn touches k) := by
  rw [htidy k]
  refine congrArg Prod.fst (through_eq_answered fun i hi => ?_)
  obtain ⟨kind,hkind,htouches⟩ := kind_of_live hi
  refine ⟨kind,hkind,?_⟩
  rintro rfl
  exact hk (of_decide_eq_true htouches)

/-- The four functions of the modules are touched by the same patches. -/
theorem liveOn_congr {k k' : Slot} (h : ∀ kind, touches kind k = touches kind k') :
    s.liveOn touches k = s.liveOn touches k' := by
  refine List.filter_congr fun i _ => ?_
  simp only [State.touching,h]

theorem through_schedule (htidy : Tidy touches s) :
    (through s c (s.slots .schedule)).1 = scheduled (s.liveOn touches .schedule) := by
  rw [htidy .schedule]
  cases hlive : s.liveOn touches .schedule with
  | nil => rfl
  | cons i rest =>
    have hmem : i ∈ s.liveOn touches .schedule := hlive ▸ List.mem_cons_self
    obtain ⟨kind,hkind,htouches⟩ := kind_of_live hmem
    cases kind with
    | patchCron => simp [through,scheduled,hkind]
    | patchHttp skipHosts | patchFetch skipHosts | installHermetic => cases htouches

theorem call_eq_expected (htidy : Tidy touches s) (c : Call) : call s c = expected s c := by
  have hget : ∀ {k request : Slot}, request ≠ .schedule → (∀ kind, touches kind k = touches kind request) →
      (if s.slots k = [] then [.reached] else (through s c (s.slots request)).1) = answered s c (s.liveOn touches k) := by
    intro k request hrequest hsame
    have hlive := liveOn_congr (s := s) hsame
    rw [through_live hrequest htidy,htidy k,hlive]
    split
    · rename_i hnone
      simp [hnone,answered]
    · rfl
  unfold call expected
  cases c.slot with
  | httpGet => exact hget (by decide) fun kind => by cases kind <;> rfl
  | httpsGet => exact hget (by decide) fun kind => by cases kind <;> rfl
  | httpRequest => exact through_live (by decide) htidy
  | httpsRequest => exact through_live (by decide) htidy
  | fetch => exact through_live (by decide) htidy
  | schedule => exact through_schedule htidy

/-- In every order of installing and uninstalling: the functions of the process are their own ones under the live
patches in all states exactly when each patch is uninstalled while its functions or those it found are in place;
then every call is recorded once by each live capture in front of the newest hermetic mode, which answers it, if it
comes to an end and, for `fetch`, has a response; and nothing is left once no patch is live. -/
theorem calls_through_live_patches (labels : List Label) (t : State) (he : exec step init labels = some t) :
    ((∀ pre post u, labels = pre ++ post → exec step init pre = some u → Tidy touches u) ↔
      Along step (InPlace touches) init labels) ∧
    (Along step (InPlace touches) init labels →
      (∀ c, call t c = expected t c) ∧ (t.live = [] → ∀ k, t.slots k = [])) := by
  refine ⟨forall_tidy_iff he,fun hplace => ?_⟩
  have htidy : Tidy touches t := tidy_of_inPlace he hplace
  refine ⟨call_eq_expected htidy,fun hnone k => ?_⟩
  rw [htidy k,State.liveOn,hnone,List.filter_nil]

/-- Outbound capture, then hermetic mode with its cron killer, uninstalled again in the reverse order. -/
def hermeticReplay : List Label :=
  [.install (.patchHttp []),.install (.patchFetch []),.install .patchCron,.install .installHermetic,.uninstall 3,
    .uninstall 2,.uninstall 1,.uninstall 0]

theorem hermeticReplay_inPlace : Along step (InPlace touches) init hermeticReplay := by
  have hplace : ∀ (s : State) (i : ℕ) (p : Patch Slot Kind), s.patches[i]? = some p →
      (∀ k, touches p.kind k = true → s.slots k = i :: p.saved k) → InPlace touches s (.uninstall i) := by
    intro s i p hp h q hq k htouches
    obtain rfl := Option.some.inj (hp.symm.trans hq)
    exact .inl (h k htouches)
  refine ⟨trivial,trivial,trivial,trivial,hplace _ 3 _ rfl ?_,hplace _ 2 _ rfl ?_,hplace _ 1 _ rfl ?_,
    hplace _ 0 _ rfl ?_,trivial⟩ <;>
  · intro k htouches
    cases k <;> first | rfl | cases htouches

theorem calls_through_live_patches_hermeticReplay :
    ∃ t, exec step init hermeticReplay = some t ∧ (∀ c, call t c = expected t c) ∧ ∀ k, t.slots k = [] := by
  obtain ⟨t,ht⟩ : ∃ t, exec step init hermeticReplay = some t := ⟨_,rfl⟩
  obtain ⟨hcalls,hslots⟩ := (calls_through_live_patches hermeticReplay t ht).2 hermeticReplay_inPlace
  have hnone : t.live = [] := by
    cases ht
    rfl
  exact ⟨t,ht,hcalls,hslots hnone⟩

end PatchedGlobals
end Clearvoiance
