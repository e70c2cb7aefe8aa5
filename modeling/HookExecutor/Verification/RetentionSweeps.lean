import HookExecutor.Verification.Sample

/-!
# What the retention sweeps remove

A sweep removes the rows older than its window and nothing else, as long as the
window reaches back to a date there is. A longer one makes the sweep panic, and
with it the worker, so that the other sweep is not made either.
-/

namespace HookExecutor

/-! ### What a sweep is for -/

/-- The window can be subtracted from the clock, or keeps everything. -/
def WindowInRange (now : DateTime) (days : Int) : Prop :=
  days ≤ 0 ∨ minDateTime ≤ now - days * nanosPerDay

def Hook.trashedBefore (h : Hook) (threshold : DateTime) : Bool :=
  h.isDeleted && h.deletedAt.any fun t => t < threshold

namespace Database

def withoutExecutionsBefore (threshold : DateTime) (db : Database) : Database :=
  { db with executions := db.executions.filter fun x => threshold ≤ x.timestamp }

/-- Without the hooks in the trash since before a time, and the rows that
depend on them. -/
def withoutTrashBefore (threshold : DateTime) (db : Database) : Database :=
  let gone (id : Uuid) : Bool := db.hooks.any fun h => h.id == id && h.trashedBefore threshold
  { db with
    hooks := db.hooks.filter fun h => !h.trashedBefore threshold
    hookParameters := db.hookParameters.filter fun p => !gone p.hookId
    permissions := db.permissions.filter fun p => !gone p.hookId
    executions := db.executions.filter fun x => !gone x.hookId }

end Database

def sweptExecutions (now : DateTime) (days : Int) (db : Database) : Database :=
  if days ≤ 0 then db else db.withoutExecutionsBefore (now - days * nanosPerDay)

def sweptTrash (now : DateTime) (days : Int) (db : Database) : Database :=
  if days ≤ 0 then db else db.withoutTrashBefore (now - days * nanosPerDay)

/-- A sweep ends, and all it did was to leave the swept database. -/
def Sweeps (sweep : Handler Nat) (swept : Database → Database) (w : World) : Prop :=
  ∃ n, sweep.run Op.exec w = (.ok n, { w with db := swept w.db })

/-- What the ticks of the worker leave. -/
def sweptTicks (config : RuntimeConfig) (ticks : List (DateTime × DateTime)) (db : Database) :
    Database :=
  ticks.foldl (fun db tick => sweptTrash tick.2 config.deletedHookRetentionDays
    (sweptExecutions tick.1 config.logRetentionDays db)) db

/-! ### The threshold -/

/-- The last instant of the calendar, 31 December 262142. -/
def maxDateTime : DateTime := 95026237 * nanosPerDay - 1

/-- Days as a duration; durations are limited to 64-bit milliseconds. -/
def durationDays (days : Int) : Except AppError Int :=
  if days * 86400 ≤ 9223372036854775 then .ok (days * nanosPerDay) else .error .panicked

theorem reaches_back {now days : Int} (hnow : now ≤ 95026237 * (86400 * 1000000000) - 1)
    (hdays : ¬days * 86400 ≤ 9223372036854775) :
    now - days * (86400 * 1000000000) < -96465293 * (86400 * 1000000000) := by
  omega

/-- Before the end of the calendar, a number of days that is too large for a
duration is one that reaches back too far. -/
theorem purgeThreshold_eq {now : DateTime} (h : now ≤ maxDateTime) (days : Int) :
    purgeThreshold now days = (durationDays days).bind fun duration =>
      if now - duration < minDateTime then .error .panicked else .ok (now - duration) := by
  by_cases hdays : days * 86400 ≤ 9223372036854775
  · rw [durationDays, if_pos hdays]
    rfl
  · have hthreshold : now - days * nanosPerDay < minDateTime := reaches_back h hdays
    rw [durationDays, if_neg hdays, purgeThreshold]
    exact if_pos hthreshold

theorem purgeThreshold_of_window {now : DateTime} {days : Int} (hdays : ¬days ≤ 0)
    (h : WindowInRange now days) : purgeThreshold now days = .ok (now - days * nanosPerDay) :=
  if_neg (Int.not_lt.mpr (h.resolve_left hdays))

theorem purgeThreshold_panics {now : DateTime} {days : Int} (h : ¬WindowInRange now days) :
    ¬days ≤ 0 ∧ purgeThreshold now days = .error .panicked := by
  obtain ⟨hdays, hthreshold⟩ := not_or.mp h
  exact ⟨hdays, if_pos (Int.not_le.mp hthreshold)⟩

/-! ### One sweep -/

section Sweep

variable {now : DateTime} {days : Int} {stmt : DateTime → Stmt Nat}
  {swept : DateTime → Database → Database} {w : World}

/-- The body that the two sweeps share. -/
theorem sweeps_iff (hstmt : ∀ t db, ∃ n, (stmt t).exec db = (.ok n, swept t db))
    {sweep : Handler Nat} (hbody : sweep = if days ≤ 0 then .pure 0 else
      (Program.ofExcept (purgeThreshold now days)).bind fun threshold => sql (stmt threshold)) :
    Sweeps sweep (fun db => if days ≤ 0 then db else swept (now - days * nanosPerDay) db) w ↔
      WindowInRange now days := by
  subst hbody
  by_cases hdays : days ≤ 0
  · simp only [if_pos hdays]
    exact ⟨fun _ => .inl hdays, fun _ => ⟨0, rfl⟩⟩
  simp only [if_neg hdays]
  constructor
  · rintro ⟨n, hrun⟩
    by_contra hwindow
    rw [(purgeThreshold_panics hwindow).2] at hrun
    cases congrArg Prod.fst hrun
  · intro hwindow
    obtain ⟨n, hexec⟩ := hstmt (now - days * nanosPerDay) w.db
    refine ⟨n, ?_⟩
    rw [purgeThreshold_of_window hdays hwindow]
    show (sql (stmt (now - days * nanosPerDay))).run Op.exec w = _
    rw [Handler.exec_sql, hexec]
    rfl

/-- A window that reaches back too far ends a sweep before it does anything. -/
theorem sweep_panics (h : ¬WindowInRange now days) {sweep : Handler Nat}
    (hbody : sweep = if days ≤ 0 then .pure 0 else
      (Program.ofExcept (purgeThreshold now days)).bind fun threshold => sql (stmt threshold)) :
    sweep.run Op.exec w = (.error .panicked, w) := by
  obtain ⟨hdays, hpanics⟩ := purgeThreshold_panics h
  rw [hbody, if_neg hdays, hpanics]
  rfl

end Sweep

theorem exec_deleteExecutions (t : DateTime) (db : Database) :
    ∃ n, (Stmt.deleteExecutions (.before t)).exec db = (.ok n, db.withoutExecutionsBefore t) := by
  refine ⟨_, Prod.ext rfl ?_⟩
  have hkeeps : (fun x : Execution => !(ExecutionCondition.before t).holds x) =
      fun x => decide (t ≤ x.timestamp) := by
    funext x
    rw [ExecutionCondition.holds, ← decide_not]
    exact decide_eq_decide.mpr Int.not_lt
  show { db with
    executions := db.executions.filter fun x => !(ExecutionCondition.before t).holds x } = _
  rw [hkeeps]
  rfl

theorem exec_deleteTrash (t : DateTime) (db : Database) :
    ∃ n, (Stmt.deleteHooks (.and (.isDeleted true) (.deletedBefore t))).exec db =
      (.ok n, db.withoutTrashBefore t) := by
  refine ⟨_, Prod.ext rfl ?_⟩
  have hholds : (HookCondition.and (.isDeleted true) (.deletedBefore t)).holds =
      fun h => h.trashedBefore t := by
    funext h
    simp [HookCondition.holds, Hook.trashedBefore]
  show (db.deleteHooks _).2 = _
  rw [Database.deleteHooks, hholds]
  rfl

theorem purgeExpiredExecutions_sweeps_iff (now : DateTime) (days : Int) (w : World) :
    Sweeps (purgeExpiredExecutions now days) (sweptExecutions now days) w ↔
      WindowInRange now days :=
  sweeps_iff exec_deleteExecutions rfl

theorem purgeExpiredDeletedHooks_sweeps_iff (now : DateTime) (days : Int) (w : World) :
    Sweeps (purgeExpiredDeletedHooks now days) (sweptTrash now days) w ↔ WindowInRange now days :=
  sweeps_iff exec_deleteTrash rfl

theorem purgeExpiredExecutions_panics {now : DateTime} {days : Int} {w : World}
    (h : ¬WindowInRange now days) :
    (purgeExpiredExecutions now days).run Op.exec w = (.error .panicked, w) :=
  sweep_panics h rfl

theorem purgeExpiredDeletedHooks_panics {now : DateTime} {days : Int} {w : World}
    (h : ¬WindowInRange now days) :
    (purgeExpiredDeletedHooks now days).run Op.exec w = (.error .panicked, w) :=
  sweep_panics h rfl

/-! ### The worker -/

section Worker

variable {sweep : Handler Nat} {w : World}

theorem run_runSweep_of_sweeps {swept : Database → Database} (h : Sweeps sweep swept w) :
    (runSweep sweep).run Op.exec w = (.ok (), { w with db := swept w.db }) := by
  obtain ⟨n, hrun⟩ := h
  rw [runSweep, Program.bind_eq, Program.run_bind_ok (a := .ok n)
    (by rw [Program.run_attempt, hrun])]
  rfl

theorem run_runSweep_of_panic (h : sweep.run Op.exec w = (.error .panicked, w)) :
    (runSweep sweep).run Op.exec w = (.error .panicked, w) := by
  rw [runSweep, Program.bind_eq, Program.run_bind_ok (a := .error .panicked)
    (by rw [Program.run_attempt, h])]
  rfl

variable {config : RuntimeConfig} {now now' : DateTime}

theorem run_retentionTick (h : WindowInRange now config.logRetentionDays)
    (h' : WindowInRange now' config.deletedHookRetentionDays) :
    (retentionTick config now now').run Op.exec w =
      (.ok (), { w with db := sweptTicks config [(now, now')] w.db }) := by
  have hfirst := run_runSweep_of_sweeps
    ((purgeExpiredExecutions_sweeps_iff now config.logRetentionDays w).mpr h)
  rw [retentionTick, Program.bind_eq, Program.run_bind_ok hfirst]
  exact run_runSweep_of_sweeps ((purgeExpiredDeletedHooks_sweeps_iff now' _ _).mpr h')

theorem retentionTick_panics
    (h : ¬(WindowInRange now config.logRetentionDays ∧
      WindowInRange now' config.deletedHookRetentionDays)) :
    ((retentionTick config now now').run Op.exec w).1 = .error .panicked := by
  rw [retentionTick, Program.bind_eq]
  by_cases hfirst : WindowInRange now config.logRetentionDays
  · have hsecond : ¬WindowInRange now' config.deletedHookRetentionDays := fun h' => h ⟨hfirst, h'⟩
    have hrun := run_runSweep_of_sweeps
      ((purgeExpiredExecutions_sweeps_iff now config.logRetentionDays w).mpr hfirst)
    rw [Program.run_bind_ok hrun, run_runSweep_of_panic (purgeExpiredDeletedHooks_panics hsecond)]
  · rw [Program.run_bind_error (run_runSweep_of_panic (purgeExpiredExecutions_panics hfirst))]

/-- The worker keeps to both sweeps at every tick exactly if both windows are in
range at every tick. -/
theorem run_runRetentionWorker_iff (ticks : List (DateTime × DateTime)) (w : World) :
    (runRetentionWorker config ticks).run Op.exec w =
        (.ok (), { w with db := sweptTicks config ticks w.db }) ↔
      ∀ tick ∈ ticks, WindowInRange tick.1 config.logRetentionDays ∧
        WindowInRange tick.2 config.deletedHookRetentionDays := by
  induction ticks generalizing w with
  | nil => exact ⟨fun _ tick htick => absurd htick List.not_mem_nil, fun _ => rfl⟩
  | cons tick ticks ih =>
    rw [List.forall_mem_cons, runRetentionWorker, Program.bind_eq]
    by_cases htick : WindowInRange tick.1 config.logRetentionDays ∧
        WindowInRange tick.2 config.deletedHookRetentionDays
    · rw [Program.run_bind_ok (run_retentionTick htick.1 htick.2)]
      exact (ih _).trans (and_iff_right htick).symm
    · have hpanics := retentionTick_panics (w := w) htick
      refine ⟨fun h => ?_, fun h => absurd h.1 htick⟩
      rw [Program.run_bind_error (Prod.ext hpanics rfl)] at h
      cases congrArg Prod.fst h

end Worker

section Sample

open Sample

/-- A hook that has been in the trash since 1970. -/
def oldTrash : World :=
  worldOf { Database.empty with
    hooks := [{ deployHook with isDeleted := true, deletedAt := some 0 }] } []

def endlessHistory : RuntimeConfig :=
  { Sample.config with logRetentionDays := 2 ^ 63 - 1, deletedHookRetentionDays := 92 }

end Sample

end HookExecutor
