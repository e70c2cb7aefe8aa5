import HookExecutor.Verification.HookEffects
import HookExecutor.Verification.Sample

/-!
# The dry run

A dry run goes through the same preparation as a run. It then asks for the
missing parameters, the plan and the script where a run asks for the missing
parameters, the script, a permit and the plan. Neither order matters to whether
all of it holds, and the plan is one function of the same arguments.
-/

namespace HookExecutor

open Executor

/-- What `run_process` is given. -/
structure ProcessCall where
  program : String
  args : List String
  env : List (String × String)
  timeoutSeconds : Nat
  maxOutputBytes : Nat
  deriving DecidableEq

/-- What becomes of every process that could be run. -/
abbrev Processes := ProcessCall → ExecutionOutcome

def Context.withProcesses (ctx : Context) (processes : Processes) : Context :=
  { ctx with os := { ctx.os with
      runProcess := fun program args env timeoutSeconds maxOutputBytes =>
        processes ⟨program, args, env, timeoutSeconds, maxOutputBytes⟩ } }

def Execution.outcome (row : Execution) : ExecutionOutcome :=
  ⟨row.status, row.exitCode, row.stdout, row.stderr, row.durationMs⟩

/-- The record of a process that this became of. -/
def Records (outcome : ExecutionOutcome) : ∀ β, Op β → Prop
  | _, .db (.insertExecution row) => row.outcome = outcome
  | _, _ => False

/-- A request comes to `run_process` with this call: whatever becomes of any
process, what the request goes on to record is what became of this one. -/
def ReachesProcess {α : Type} (request : Context → Handler α) (ctx : Context) (w : World)
    (call : ProcessCall) : Prop :=
  ∀ processes : Processes,
    (request (ctx.withProcesses processes)).Issues Op.exec (Records (processes call)) w

/-- The call a plan makes, under the hook's timeout. -/
def Executor.CommandPlan.call (plan : CommandPlan) (timeoutSeconds maxOutputBytes : Nat) :
    ProcessCall :=
  ⟨plan.program, plan.args, plan.env, timeoutSeconds, maxOutputBytes⟩

/-- A caller without a key needs no permit. -/
def World.GrantsPermit (w : World) (key : Option ApiKey) : Prop :=
  ∀ k, key = some k → ∃ permit, (w.tryAcquire k.id (permitsOf k)).1 = some permit

/-- Authorisation and parameter resolution. -/
def prepareInvocation (ctx : Context) (key : Option ApiKey) (identifier : String) (body : Bytes) :
    Handler (Hook × ResolvedParameters) := do
  let hook ← authorizeInvocation key identifier
  let resolved ← resolveRequestParameters ctx hook body
  return (hook, resolved)

section DryRun

variable {ctx ctx' : Context} {key : Option ApiKey} {identifier : String} {body : Bytes}
  {hook : Hook} {resolved : ResolvedParameters} {w : World} {outcome : ExecutionOutcome}
  {processes : Processes}

theorem emits_not_records {α : Type} {p : Handler α} (hp : p.Emits (WritesAmong [])) :
    p.Emits fun β q => ¬Records outcome β q := by
  refine hp.mono fun β q hq => ?_
  cases q with
  | db s =>
    cases s with
    | insertExecution row => exact absurd (hq .insertExecution rfl) List.not_mem_nil
    | _ => exact id
  | _ => exact id

theorem prepareInvocation_writes (ctx : Context) (key : Option ApiKey) (identifier : String)
    (body : Bytes) {W : List Write} : (prepareInvocation ctx key identifier body).Emits
      (WritesAmong W) :=
  (authorizeInvocation_writes key identifier).bind fun hook =>
    (resolveRequestParameters_writes ctx hook body).bind fun _ => trivial

theorem guardExecute_snd (key : ApiKey) (hookId : Uuid) (w : World) :
    ((guardExecute key hookId).run Op.exec w).2 = w := by
  unfold guardExecute
  split
  · rfl
  · simp [Program.run_bind]

theorem prepareInvocation_snd (ctx : Context) (key : Option ApiKey) (identifier : String)
    (body : Bytes) (w : World) :
    ((prepareInvocation ctx key identifier body).run Op.exec w).2 = w := by
  have hauthorize : ((authorizeInvocation key identifier).run Op.exec w).2 = w := by
    refine Program.run_bind_read (K := fun t => t = w) (by simp) rfl fun hook _ => ?_
    refine Program.run_bind_read (K := fun t => t = w) ?_ rfl fun _ _ => rfl
    cases key with
    | none => rfl
    | some key => exact guardExecute_snd key hook.id w
  refine Program.run_bind_read (K := fun t => t = w) hauthorize rfl fun hook _ => ?_
  refine Program.run_bind_read (K := fun t => t = w) ?_ rfl fun _ _ => rfl
  refine Program.run_bind_read (K := fun t => t = w) (by simp) rfl fun _ _ => ?_
  exact Program.run_bind_read (K := fun t => t = w) (by simp [loadParameters, Stmt.exec]) rfl
    fun _ _ => by simp

theorem prepareInvocation_congr (hstate : ctx'.state = ctx.state) :
    prepareInvocation ctx' key identifier body = prepareInvocation ctx key identifier body := by
  unfold prepareInvocation resolveRequestParameters
  rw [hstate]

/-! ### The dry run -/

/-- What a dry run answers once the request is prepared. -/
def testResponse (ctx : Context) (hook : Hook) (resolved : ResolvedParameters) :
    TestHookResponse :=
  let reason := blockingReason ctx hook resolved
  { hookId := hook.id
    hookName := hook.name
    wouldExecute := reason.isNone
    blockingReason := reason
    resolvedParameters := resolved.toJson
    missingRequired := resolved.missingRequired
    command := (buildCommandPlan ctx.os ctx.state.config hook resolved).toOption
    timeoutSeconds := timeoutFor hook.defaultTimeoutSeconds }

theorem testHook_eq (ctx : Context) (key : Option ApiKey) (identifier : String) (body : Bytes) :
    testHook ctx key identifier body = (prepareInvocation ctx key identifier body).bind
      fun prepared => .pure (testResponse ctx prepared.1 prepared.2) := by
  unfold testHook prepareInvocation
  simp only [Program.bind_eq, Program.bind_assoc]
  rfl

theorem run_testHook : (testHook ctx key identifier body).run Op.exec w =
    (((prepareInvocation ctx key identifier body).run Op.exec w).1.map
      fun prepared => testResponse ctx prepared.1 prepared.2, w) := by
  have hsnd := prepareInvocation_snd ctx key identifier body w
  rw [testHook_eq, Program.run_bind]
  generalize (prepareInvocation ctx key identifier body).run Op.exec w = out at hsnd
  obtain ⟨r, t⟩ := out
  obtain rfl : t = w := hsnd
  cases r <;> rfl

/-- Nothing stands in the way of a run. -/
structure Unblocked (ctx : Context) (hook : Hook) (resolved : ResolvedParameters)
    (plan : CommandPlan) : Prop where
  complete : resolved.missingRequired = []
  runnable : ensureRunnable ctx.os ctx.state.config hook = .ok ()
  planned : buildCommandPlan ctx.os ctx.state.config hook resolved = .ok plan

theorem wouldExecute_iff : (testResponse ctx hook resolved).wouldExecute = true ↔
    ∃ plan, Unblocked ctx hook resolved plan := by
  change (blockingReason ctx hook resolved).isNone = true ↔ _
  rw [Option.isNone_iff_eq_none]
  unfold blockingReason
  constructor
  · intro h
    split at h
    · cases h
    · rename_i hcomplete
      cases hplan : buildCommandPlan ctx.os ctx.state.config hook resolved with
      | error e =>
        rw [hplan] at h
        cases h
      | ok plan =>
        rw [hplan] at h
        cases hrun : ensureRunnable ctx.os ctx.state.config hook with
        | error e =>
          rw [hrun] at h
          cases h
        | ok u => exact ⟨plan, not_not.mp hcomplete, hrun, hplan⟩
  · rintro ⟨plan, hcomplete, hrunnable, hplan⟩
    rw [if_neg (not_not.mpr hcomplete), hplan, hrunnable]

/-! ### The run -/

/-- Nothing up to the plan asks what becomes of processes. -/
theorem unblocked_withProcesses {plan : CommandPlan} :
    Unblocked (ctx.withProcesses processes) hook resolved plan ↔ Unblocked ctx hook resolved plan :=
  ⟨fun h => ⟨h.complete, h.runnable, h.planned⟩, fun h => ⟨h.complete, h.runnable, h.planned⟩⟩

theorem unblocked_congr (hstate : ctx'.state = ctx.state) (hos : ctx'.os = ctx.os)
    {plan : CommandPlan} :
    Unblocked ctx' hook resolved plan ↔ Unblocked ctx hook resolved plan := by
  constructor
  · rintro ⟨hcomplete, hrun, hplan⟩
    rw [hstate, hos] at hrun hplan
    exact ⟨hcomplete, hrun, hplan⟩
  · rintro ⟨hcomplete, hrun, hplan⟩
    rw [← hstate, ← hos] at hrun hplan
    exact ⟨hcomplete, hrun, hplan⟩

/-- The call a run makes by its plan. -/
def callOf (ctx : Context) (hook : Hook) (plan : CommandPlan) : ProcessCall :=
  plan.call (timeoutFor hook.defaultTimeoutSeconds) ctx.state.config.maxOutputBytes

theorem runPlanned_issues :
    (runPlanned (ctx.withProcesses processes) hook key resolved).Issues Op.exec
        (Records outcome) w ↔
      ∃ plan, buildCommandPlan ctx.os ctx.state.config hook resolved = .ok plan ∧
        processes (callOf ctx hook plan) = outcome := by
  refine Program.issues_ofExcept_bind.trans ?_
  have hplanned : ∀ plan, (buildCommandPlan (ctx.withProcesses processes).os
      ctx.state.config hook resolved).mapError ScriptError.toAppError = .ok plan ↔
        buildCommandPlan ctx.os ctx.state.config hook resolved = .ok plan :=
    fun _ => Except.mapError_eq_ok_iff
  refine exists_congr fun plan => and_congr (hplanned plan) ?_
  -- the row is the one thing that is issued
  exact or_iff_left (Program.Emits.not_issues
    (.bind (Program.emits_ofExcept _) fun _ => Program.emits_pure _) _)

theorem executeHook_issues (hpermit : w.GrantsPermit key) :
    (executeHook (ctx.withProcesses processes) hook key resolved).Issues Op.exec
        (Records outcome) w ↔
      ensureRunnable ctx.os ctx.state.config hook = .ok () ∧
        ∃ plan, buildCommandPlan ctx.os ctx.state.config hook resolved = .ok plan ∧
          processes (callOf ctx hook plan) = outcome := by
  have hrunnable : ∀ u, (ensureRunnable (ctx.withProcesses processes).os
      ctx.state.config hook).mapError ScriptError.toAppError = .ok u ↔
        ensureRunnable ctx.os ctx.state.config hook = .ok () :=
    fun _ => Except.mapError_eq_ok_iff
  refine Program.issues_ofExcept_bind.trans ?_
  refine (exists_congr fun u => and_congr (hrunnable u) ?_).trans (exists_const Unit)
  cases key with
  | none => exact runPlanned_issues
  | some k =>
    obtain ⟨permit, hgranted⟩ := hpermit k rfl
    have hacquired : (tryAcquire k).run Op.exec w =
        (.ok permit, (w.tryAcquire k.id (permitsOf k)).2) := by
      change (orElse (w.tryAcquire k.id (permitsOf k)).1 _).run Op.exec _ = _
      rw [hgranted]
      rfl
    have hquiet : (tryAcquire k).Emits fun β q => ¬Records outcome β q :=
      ⟨id, fun _ => emits_orElse _ _⟩
    refine hquiet.issues_bind.trans ?_
    have hheld : ∀ permit', ((runPlanned (ctx.withProcesses processes) hook (some k)
        resolved).attempt.bind fun result => (Program.ask (.release permit')).bind fun _ =>
          .ofExcept result : Handler Execution).Issues Op.exec (Records outcome)
            (w.tryAcquire k.id (permitsOf k)).2 ↔ _ := fun permit' =>
      (Program.issues_bind_of_emits fun _ => .bind ((Program.emits_ask _).mpr id) fun _ =>
        Program.emits_ofExcept _).trans
        (Program.issues_attempt.trans runPlanned_issues)
    constructor
    · rintro ⟨_, _, hrun, h⟩
      cases hacquired.symm.trans hrun
      exact (hheld permit).mp h
    · exact fun h => ⟨permit, _, hacquired, (hheld permit).mpr h⟩

/-- A run is what comes of a preparation that is complete. -/
theorem runHookRequest_eq (ctx : Context) (key : Option ApiKey) (identifier : String)
    (body : Bytes) :
    runHookRequest ctx key identifier body = (prepareInvocation ctx key identifier body).bind
      fun prepared => (Program.require (prepared.2.missingRequired = [])
          (.invalidInput (missingRequired prepared.2.missingRequired))).bind fun _ =>
        (executeHook ctx prepared.1 key prepared.2).bind fun record =>
          .pure (executionView ctx.state.platform record prepared.1.name (key.map (·.name))) := by
  unfold runHookRequest prepareInvocation
  simp only [Program.bind_eq, Program.bind_assoc]
  rfl

theorem reachesProcess_iff {call : ProcessCall} (hpermit : w.GrantsPermit key) :
    ReachesProcess (runHookRequest · key identifier body) ctx w call ↔
      ∃ prepared, ((prepareInvocation ctx key identifier body).run Op.exec w).1 = .ok prepared ∧
        ∃ plan, Unblocked ctx prepared.1 prepared.2 plan ∧ call = callOf ctx prepared.1 plan := by
  have hissues : ∀ (processes : Processes) outcome,
      (runHookRequest (ctx.withProcesses processes) key identifier body).Issues Op.exec
          (Records outcome) w ↔
        ∃ prepared, ((prepareInvocation ctx key identifier body).run Op.exec w).1 = .ok prepared ∧
          ∃ plan, Unblocked ctx prepared.1 prepared.2 plan ∧
            processes (callOf ctx prepared.1 plan) = outcome := by
    intro processes outcome
    rw [runHookRequest_eq]
    refine (emits_not_records (prepareInvocation_writes _ _ _ _)).issues_bind.trans ?_
    have hprepared : ∀ prepared t,
        (prepareInvocation (ctx.withProcesses processes) key identifier body).run Op.exec w =
            (.ok prepared, t) ↔
          ((prepareInvocation ctx key identifier body).run Op.exec w).1 = .ok prepared ∧ t = w := by
      intro prepared t
      have hsnd := prepareInvocation_snd ctx key identifier body w
      rw [prepareInvocation_congr (show (ctx.withProcesses processes).state = ctx.state from rfl),
        Prod.ext_iff, hsnd]
      exact and_congr Iff.rfl eq_comm
    refine exists_congr fun prepared => ?_
    have hrest : ∀ {f : Execution → Handler ExecutionView}, (∀ record, (f record).Emits
        fun β q => ¬Records outcome β q) →
        (((Program.require (prepared.2.missingRequired = [])
          (.invalidInput (missingRequired prepared.2.missingRequired))).bind fun _ =>
            (executeHook (ctx.withProcesses processes) prepared.1 key prepared.2).bind f).Issues
              Op.exec (Records outcome) w ↔
          ∃ plan, Unblocked ctx prepared.1 prepared.2 plan ∧
            processes (callOf ctx prepared.1 plan) = outcome) := by
      intro f hf
      refine Program.issues_require_bind.trans ?_
      rw [Program.issues_bind_of_emits hf, executeHook_issues hpermit]
      constructor
      · rintro ⟨hcomplete, hrunnable, plan, hplan, heq⟩
        exact ⟨plan, ⟨hcomplete, hrunnable, hplan⟩, heq⟩
      · rintro ⟨plan, ⟨hcomplete, hrunnable, hplan⟩, heq⟩
        exact ⟨hcomplete, hrunnable, plan, hplan, heq⟩
    constructor
    · rintro ⟨t, hrun, h⟩
      obtain ⟨hok, rfl⟩ := (hprepared _ _).mp hrun
      exact ⟨hok, (hrest fun _ => Program.emits_pure _).mp h⟩
    · rintro ⟨hok, h⟩
      exact ⟨w, (hprepared _ _).mpr ⟨hok, rfl⟩, (hrest fun _ => Program.emits_pure _).mpr h⟩
  constructor
  · intro h
    -- let only this call succeed: the run that is recorded does
    let processes : Processes := fun c =>
      if c = call then ⟨.success, none, "", "", 0⟩ else ⟨.failed, none, "", "", 0⟩
    obtain ⟨prepared, hprepared, plan, hunblocked, heq⟩ := (hissues processes _).mp (h processes)
    refine ⟨prepared, hprepared, plan, hunblocked, ?_⟩
    by_contra hne
    have hstatus := congrArg ExecutionOutcome.status heq
    simp only [processes, if_neg (Ne.symm hne), if_true] at hstatus
    cases hstatus
  · rintro ⟨prepared, hprepared, plan, hunblocked, rfl⟩ processes
    exact (hissues processes _).mpr ⟨prepared, hprepared, plan, hunblocked, rfl⟩

/-- The dry run tells the truth. It is refused exactly by what refuses a run
before its parameters are looked through, and a run is refused the same; what it
answers says that a run would execute if and only if a run made in the same state
and granted a permit comes to `run_process`, and says with what. -/
theorem dry_run_truthful (hstate : ctx'.state = ctx.state) (hos : ctx'.os = ctx.os) :
    let tested := (testHook ctx key identifier body).run Op.exec w
    let ran := (runHookRequest ctx' key identifier body).run Op.exec w
    (∀ e, tested.1 = .error e ↔
        ((prepareInvocation ctx' key identifier body).run Op.exec w).1 = .error e) ∧
      (∀ e, tested.1 = .error e → ran = (.error e, w)) ∧ tested.2 = w ∧
      ∀ r, tested.1 = .ok r → w.GrantsPermit key →
        (r.wouldExecute = true ↔
          ∃ call, ReachesProcess (runHookRequest · key identifier body) ctx' w call) ∧
        ∀ call, ReachesProcess (runHookRequest · key identifier body) ctx' w call →
          ∃ plan, r.command = some plan ∧
            call = plan.call r.timeoutSeconds ctx'.state.config.maxOutputBytes := by
  dsimp only
  have hsame : prepareInvocation ctx' key identifier body =
      prepareInvocation ctx key identifier body := prepareInvocation_congr hstate
  have hsnd := prepareInvocation_snd ctx key identifier body w
  rw [run_testHook, hsame]
  cases hprepared : (prepareInvocation ctx key identifier body).run Op.exec w with
  | mk answer t =>
  rw [hprepared] at hsnd
  obtain rfl : t = w := hsnd
  cases answer with
  | error e =>
    refine ⟨fun e' => ⟨fun h => ?_, fun h => ?_⟩, fun e' he => ?_, rfl, fun r hr => by cases hr⟩
    · cases h
      rfl
    · cases h
      rfl
    · cases he
      rw [runHookRequest_eq, hsame, Program.run_bind_error hprepared]
  | ok prepared =>
    refine ⟨fun e => iff_of_false (fun h => by cases h) (fun h => by cases h),
      fun e he => (by cases he), rfl, ?_⟩
    rintro r hr hpermit
    cases hr
    have hreaches : ∀ call, ReachesProcess (runHookRequest · key identifier body) ctx' t call ↔
        ∃ plan, Unblocked ctx prepared.1 prepared.2 plan ∧ call = callOf ctx' prepared.1 plan := by
      intro call
      rw [reachesProcess_iff hpermit, hsame, hprepared]
      simp only [unblocked_congr hstate hos]
      constructor
      · rintro ⟨_, hok, h⟩
        cases hok
        exact h
      · exact fun h => ⟨prepared, rfl, h⟩
    refine ⟨?_, fun call hcall => ?_⟩
    · rw [wouldExecute_iff]
      constructor
      · rintro ⟨plan, hunblocked⟩
        exact ⟨_, (hreaches _).mpr ⟨plan, hunblocked, rfl⟩⟩
      · rintro ⟨call, hcall⟩
        obtain ⟨plan, hunblocked, -⟩ := (hreaches call).mp hcall
        exact ⟨plan, hunblocked⟩
    · obtain ⟨plan, hunblocked, rfl⟩ := (hreaches call).mp hcall
      refine ⟨plan, ?_, rfl⟩
      change (buildCommandPlan ctx.os ctx.state.config prepared.1 prepared.2).toOption = _
      rw [hunblocked.planned]
      rfl

end DryRun

section Sample

open Sample

/-- The master previews the hook, and then asks for it. -/
theorem dry_run_truthful_master :
    let tested := (testHook (ctx 4) (some Sample.masterRow) "deploy" []).run Op.exec deployment
    let ran := (runHookRequest (ctx 5) (some Sample.masterRow) "deploy" []).run Op.exec deployment
    (∀ e, tested.1 = .error e ↔
        ((prepareInvocation (ctx 5) (some Sample.masterRow) "deploy" []).run Op.exec
          deployment).1 = .error e) ∧
      (∀ e, tested.1 = .error e → ran = (.error e, deployment)) ∧ tested.2 = deployment ∧
      ∀ r, tested.1 = .ok r → deployment.GrantsPermit (some Sample.masterRow) →
        (r.wouldExecute = true ↔ ∃ call, ReachesProcess
          (runHookRequest · (some Sample.masterRow) "deploy" []) (ctx 5) deployment call) ∧
        ∀ call, ReachesProcess (runHookRequest · (some Sample.masterRow) "deploy" []) (ctx 5)
            deployment call →
          ∃ plan, r.command = some plan ∧
            call = plan.call r.timeoutSeconds (ctx 5).state.config.maxOutputBytes :=
  dry_run_truthful rfl rfl

end Sample

end HookExecutor
