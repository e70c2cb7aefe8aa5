import HookExecutor.Executor.Plan

/-!
# Running a hook

The path from a resolved parameter set to a recorded execution: the checks, a
permit from the caller's concurrency budget, the process, and the row.
-/

namespace HookExecutor.Executor

def fallbackTimeoutSeconds : Nat := 30

def timeoutFor (hookTimeoutSeconds : Int) : Nat :=
  if 0 < hookTimeoutSeconds then hookTimeoutSeconds.toNat else fallbackTimeoutSeconds

/-- At least one permit always exists. -/
def permitsOf (key : ApiKey) : Nat := (max key.maxConcurrentJobs 1).toNat

def tryAcquire (key : ApiKey) : Handler Permit := do
  let permit ← .ask (.tryAcquire key.id (permitsOf key))
  orElse permit (.tooManyRequests ("Concurrency limit reached for this API key " ++
    s!"({permitsOf key} simultaneous job(s) allowed)"))

/-- What runs while the permit is held: the plan, the process and the row. -/
def runPlanned (ctx : Context) (hook : Hook) (key : Option ApiKey)
    (resolved : ResolvedParameters) : Handler Execution := do
  let plan ← .ofExcept ((buildCommandPlan ctx.os ctx.state.config hook resolved).mapError
    ScriptError.toAppError)
  let outcome := ctx.os.runProcess plan.program plan.args plan.env
    (timeoutFor hook.defaultTimeoutSeconds) ctx.state.config.maxOutputBytes
  let record : Execution :=
    { id := ctx.draws.uuid 0
      hookId := hook.id
      apiKeyId := key.map (·.id)
      status := outcome.status
      exitCode := outcome.exitCode
      stdout := outcome.stdout
      stderr := outcome.stderr
      parametersJson := ctx.state.platform.renderJson resolved.toJson
      durationMs := outcome.durationMs
      timestamp := ctx.draws.now 0 }
  sql (.insertExecution record)
  return record

def executeHook (ctx : Context) (hook : Hook) (key : Option ApiKey)
    (resolved : ResolvedParameters) : Handler Execution := do
  .ofExcept ((ensureRunnable ctx.os ctx.state.config hook).mapError ScriptError.toAppError)
  match key with
  | none => runPlanned ctx hook none resolved
  | some key =>
    let permit ← tryAcquire key
    let outcome ← (runPlanned ctx hook (some key) resolved).attempt
    -- the permit is dropped on every way out
    .ask (.release permit)
    .ofExcept outcome

end HookExecutor.Executor
