import Clearvoiance.Dispatchers

/-! The routing of replayed cron jobs.  The capture adapter records a job under the name it is given, the
patched scheduler registers a handler under the name of its function, and the invoke server looks up the
name that the engine has from the record.  All functions that the adapter returns have one name. -/
namespace Clearvoiance
namespace CronRouting

open CapturedEvents

/-- A cron job: the name it is captured under and its callback. -/
structure Job where
  name : String
  fn : ℕ
  deriving DecidableEq

/-- A function value, with the `name` that JavaScript gives it and the job that it runs. -/
structure CronHandler where
  name : String
  job : Job
  deriving DecidableEq

abbrev CronRegistry := List (String × CronHandler)

/-- The registry and the counter of the patched scheduler. -/
structure Process where
  registry : CronRegistry
  counter : ℕ
  deriving DecidableEq

/-- `Map.prototype.set` -/
def CronRegistry.register (r : CronRegistry) (name : String) (fn : CronHandler) : CronRegistry :=
  if r.any (·.1 = name) then r.map fun e => if e.1 = name then (name,fn) else e else r ++ [(name,fn)]

def CronRegistry.get (r : CronRegistry) (name : String) : Option CronHandler := r.lookup name

def captureCronJob (job : Job) : CronHandler := ⟨"wrappedCronJob",job⟩

/-- The name of a schedule by default, and the counter after it. -/
def nameFromArgs (counter : ℕ) (handler : CronHandler) (optsName : Option String) : String × ℕ :=
  if optsName.getD "" ≠ "" then (optsName.getD "",counter)
  else if handler.name ≠ "" ∧ handler.name ≠ "anonymous" then (handler.name,counter)
  else ("cron_" ++ toString (counter+1),counter+1)

def patchedSchedule (p : Process) (handler : CronHandler) (optsName : Option String) : Process :=
  let named := nameFromArgs p.counter handler optsName
  ⟨p.registry.register named.1 handler,named.2⟩

def freshProcess : Process := ⟨[],0⟩

/-- `cron.schedule(expr, captureCronJob(client, name, fn))` for each job. -/
def scheduleAll (jobs : List Job) : Process :=
  jobs.foldl (fun p job => patchedSchedule p (captureCronJob job) none) freshProcess

inductive Served
  | badRequest (error : String)
  | notFound (error : String)
  | ran (handler : CronHandler)
  deriving DecidableEq

/-- `String(body.name ?? "")` -/
def bodyName (body : List (String × Dispatchers.Invoke.Value)) : String :=
  match body.lookup "name" with
  | some (.text s) => s
  | some (.int n) => toString n
  | none => ""

/-- The invoke server, for a body that is an object. -/
def serve (r : CronRegistry) (body : List (String × Dispatchers.Invoke.Value)) : Served :=
  if bodyName body = "" then .badRequest "name is required"
  else
    match r.get (bodyName body) with
    | none => .notFound ("unknown handler: " ++ bodyName body)
    | some handler => .ran handler

/-- The registry has the job's handler under the job's name, and the engine's request for a captured event
of the job runs it. -/
structure Routed (r : CronRegistry) (job : Job) : Prop where
  registered : r.get job.name = some (captureCronJob job)
  invoked : ∀ w ev vu, ev.jobName = job.name →
    serve r (Dispatchers.Cron.payload w ev vu) = .ran (captureCronJob job)

theorem bodyName_payload (w : Dispatchers.World) (ev : CronEvent) (vu : ℕ) :
    bodyName (Dispatchers.Cron.payload w ev vu) = ev.jobName := rfl

/-- The wrapper is registered under its own name, over whatever was there. -/
theorem patchedSchedule_capture (p : Process) (job : Job) :
    patchedSchedule p (captureCronJob job) none =
      ⟨p.registry.register "wrappedCronJob" (captureCronJob job),p.counter⟩ := rfl

/-- After all schedules the registry has one entry, with the last job. -/
theorem scheduleAll_eq (jobs : List Job) :
    scheduleAll jobs = ⟨(jobs.getLast?.map fun job => ("wrappedCronJob",captureCronJob job)).toList,0⟩ := by
  induction jobs using List.reverseRecOn with
  | nil => rfl
  | append_singleton jobs job ih =>
    rw [scheduleAll,List.foldl_append,← scheduleAll,ih,List.getLast?_concat]
    rw [List.foldl_cons,List.foldl_nil,patchedSchedule_capture]
    cases jobs.getLast? with
    | none => rfl
    | some last => simp [CronRegistry.register]

theorem get_scheduleAll (jobs : List Job) (name : String) :
    (scheduleAll jobs).registry.get name =
      if name = "wrappedCronJob" then jobs.getLast?.map captureCronJob else none := by
  rw [scheduleAll_eq]
  cases jobs.getLast? with
  | none => split_ifs <;> rfl
  | some last =>
    simp only [CronRegistry.get,Option.map_some,Option.toList_some,List.lookup_cons,List.lookup_nil]
    by_cases h : name = "wrappedCronJob"
    · simp [h]
    · rw [if_neg h,beq_eq_false_iff_ne.mpr h]

/-- Jobs that share one name are at most one, if the names are distinct. -/
theorem eq_of_same_name {jobs : List Job} {name : String} (hnodup : (jobs.map Job.name).Nodup)
    (hname : ∀ job ∈ jobs, job.name = name) : ∀ job ∈ jobs, jobs = [job] := by
  intro job hjob
  cases jobs with
  | nil => cases hjob
  | cons a jobs =>
    cases jobs with
    | nil => rw [List.mem_singleton.mp hjob]
    | cons b jobs =>
      have ha := hname a (by simp)
      have hb := hname b (by simp)
      simp [ha,hb] at hnodup

/-- The jobs are routed to their handlers exactly when they are all captured under the name of the wrapper. -/
theorem jobs_routed_iff (jobs : List Job) (hnodup : (jobs.map Job.name).Nodup) :
    (∀ job ∈ jobs, Routed (scheduleAll jobs).registry job) ↔ ∀ job ∈ jobs, job.name = "wrappedCronJob" := by
  constructor
  · intro h job hjob
    have hreg := (h job hjob).registered
    rw [get_scheduleAll] at hreg
    by_contra hne
    rw [if_neg hne] at hreg
    cases hreg
  · intro h job hjob
    have hget : (scheduleAll jobs).registry.get job.name = some (captureCronJob job) := by
      rw [get_scheduleAll,if_pos (h job hjob),eq_of_same_name hnodup h job hjob]
      rfl
    refine ⟨hget,fun w ev vu hev => ?_⟩
    unfold serve
    rw [bodyName_payload,hev,hget,h job hjob]
    rfl

def nightlyJobs : List Job := [⟨"cleanup",1⟩,⟨"billing",2⟩]

def noWorld : Dispatchers.World :=
  ⟨none,fun body _ _ => .ok body,fun _ _ => none,.ok,fun _ => .ok ⟨200,0⟩,0,fun _ _ => none,false,fun _ _ _ => (0,none)⟩

/-- Two captured jobs are registered as one, and neither can be invoked by its name. -/
theorem nightly_jobs_not_routed : (scheduleAll nightlyJobs).registry = [("wrappedCronJob",⟨"wrappedCronJob",⟨"billing",2⟩⟩)] ∧
    serve (scheduleAll nightlyJobs).registry
        (Dispatchers.Cron.payload noWorld ⟨"cleanup","node-cron",none,0,"success","schedule"⟩ 0) =
      .notFound "unknown handler: cleanup" ∧
    ¬ ∀ job ∈ nightlyJobs, Routed (scheduleAll nightlyJobs).registry job := by
  have hserve : serve (scheduleAll nightlyJobs).registry
      (Dispatchers.Cron.payload noWorld ⟨"cleanup","node-cron",none,0,"success","schedule"⟩ 0) =
        .notFound "unknown handler: cleanup" := by decide +kernel
  refine ⟨by decide +kernel,hserve,fun h => ?_⟩
  have hrun := (h ⟨"cleanup",1⟩ (by decide)).invoked noWorld ⟨"cleanup","node-cron",none,0,"success","schedule"⟩ 0 rfl
  rw [hserve] at hrun
  cases hrun

theorem jobs_routed_iff_single : Routed (scheduleAll [⟨"wrappedCronJob",1⟩]).registry ⟨"wrappedCronJob",1⟩ :=
  (jobs_routed_iff [⟨"wrappedCronJob",1⟩] (by decide)).mpr (by decide) _ (by simp)

end CronRouting
end Clearvoiance
