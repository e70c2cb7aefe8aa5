import HookExecutor.Api.Support

/-!
# Retention

The two sweeps that destroy rows for their age, and the worker that makes both
at every tick. A window of zero days or fewer keeps everything; a window
reaching back before the first representable date cannot be subtracted from the
clock, and the sweep panics.
-/

namespace HookExecutor

def nanosPerDay : Int := 86400 * nanosPerSecond

/-- The first instant of the calendar, 1 January 262144 BCE. -/
def minDateTime : DateTime := -96465293 * nanosPerDay

/-- Rows older than this are expired. -/
def purgeThreshold (now : DateTime) (retentionDays : Int) : Except AppError DateTime :=
  let threshold := now - retentionDays * nanosPerDay
  if threshold < minDateTime then .error .panicked else .ok threshold

def purgeExpiredExecutions (now : DateTime) (retentionDays : Int) : Handler Nat := do
  if retentionDays ≤ 0 then return 0
  else
    let threshold ← .ofExcept (purgeThreshold now retentionDays)
    sql (.deleteExecutions (.before threshold))

def purgeExpiredDeletedHooks (now : DateTime) (retentionDays : Int) : Handler Nat := do
  if retentionDays ≤ 0 then return 0
  else
    let threshold ← .ofExcept (purgeThreshold now retentionDays)
    sql (.deleteHooks (.and (.isDeleted true) (.deletedBefore threshold)))

/-- A sweep of the worker. Its errors are logged; a panic ends the worker. -/
def runSweep (sweep : Handler Nat) : Handler Unit := do
  match ← Program.attempt sweep with
  | .ok _ => return ()
  | .error .panicked => .fail .panicked
  | .error _ => return ()

/-- One tick of the worker; each sweep reads the clock for itself. -/
def retentionTick (config : RuntimeConfig) (now now' : DateTime) : Handler Unit := do
  runSweep (purgeExpiredExecutions now config.logRetentionDays)
  runSweep (purgeExpiredDeletedHooks now' config.deletedHookRetentionDays)

/-- The worker over the ticks that come before the shutdown. -/
def runRetentionWorker (config : RuntimeConfig) : List (DateTime × DateTime) → Handler Unit
  | [] => return ()
  | tick :: ticks => do
    retentionTick config tick.1 tick.2
    runRetentionWorker config ticks

end HookExecutor
