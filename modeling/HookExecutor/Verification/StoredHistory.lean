import HookExecutor.Lib.Image
import HookExecutor.Router
import HookExecutor.Verification.Sample
import HookExecutor.Verification.StoredStatements

/-!
# The service on its tables

The service as it runs: migrations on every start, and programs whose statements are
carried out on tables. Its histories are those of the service on the database, seen
in tables (`storedReachable_iff`), and so are the orders in which requests take their
turns (`interleaved_onTables`). What holds of every reachable world then holds of the
rows of a real database, and no constraint of the schema goes unmodelled.
-/

namespace HookExecutor

open Migrator (Migrated Transactions)

/-! ### A process and its tables -/

/-- What the requests of a process share. -/
structure StoredWorld where
  /-- The migrations the database has recorded. -/
  applied : List String
  db : StoredDb
  replay : ReplayGuard
  pinned : Option Uuid
  limiter : List (Uuid × KeyBudget)

namespace StoredWorld

def migrated (w : StoredWorld) : Migrated := ⟨w.applied, w.db⟩

/-- What is not in the database. -/
def memory (w : StoredWorld) : World := ⟨.empty, w.replay, w.pinned, w.limiter⟩

end StoredWorld

/-- One operation, its statement carried out on the tables. -/
def Op.onTables : Interpretation Op StoredWorld
  | _, .db s, w => ((s.onTables w.db).1, { w with db := (s.onTables w.db).2 })
  | _, .checkAndRecord keyId digest now, w =>
    ((w.replay.checkAndRecord keyId digest now).1,
      { w with replay := (w.replay.checkAndRecord keyId digest now).2 })
  | _, .pinnedMaster, w => (w.pinned, w)
  | _, .pinMaster id, w => ((), { w with pinned := w.pinned.or (some id) })
  | _, .tryAcquire keyId permits, w =>
    ((w.memory.tryAcquire keyId permits).1,
      { w with limiter := (w.memory.tryAcquire keyId permits).2.limiter })
  | _, .release permit, w => ((), { w with limiter := (w.memory.release permit).limiter })

/-- What a process holds before it has looked at its tables. -/
def startStored (state : AppState) (start : Startup) (s : Migrated) : StoredWorld where
  applied := s.applied
  db := s.db
  replay := .new state.config.signatureMaxAgeSeconds start.startedAt
  pinned := none
  limiter := []

/-- A database nothing was ever stored in: no migrations, no tables, no rows. -/
def Migrator.nothing : Migrated := ⟨[], ⟨⟨[], []⟩, fun _ => []⟩⟩

/-- The process has migrated the database it found, and has started on it. -/
def StartedOn (state : AppState) (s : Migrated) (w : StoredWorld) : Prop :=
  ∃ (transactions : Transactions) (start : Startup) (t : Migrated),
    runMigrations transactions s = (.ok (), t) ∧
      (boot state start).run Op.onTables (startStored state start t) = (.ok (), w)

/-- The worlds a process can be in between requests, over every history of starts,
requests and retention sweeps that began with nothing stored. -/
inductive StoredReachable : AppState → StoredWorld → Prop
  | start {state : AppState} {w : StoredWorld} (started : StartedOn state Migrator.nothing w) :
      StoredReachable state w
  | restart {state state' : AppState} {w w' : StoredWorld} (before : StoredReachable state w)
      (started : StartedOn state' w.migrated w') : StoredReachable state' w'
  | serve {state : AppState} {w : StoredWorld} (before : StoredReachable state w) (ctx : Context)
      (clock : AuthClock) (req : Request) (served : ctx.state = state) :
      StoredReachable state ((HookExecutor.serve ctx clock req).run Op.onTables w).2
  | sweepExecutions {state : AppState} {w : StoredWorld} (before : StoredReachable state w)
      (now : DateTime) :
      StoredReachable state
        ((purgeExpiredExecutions now state.config.logRetentionDays).run Op.onTables w).2
  | sweepDeletedHooks {state : AppState} {w : StoredWorld} (before : StoredReachable state w)
      (now : DateTime) :
      StoredReachable state
        ((purgeExpiredDeletedHooks now state.config.deletedHookRetentionDays).run Op.onTables w).2

/-! ### Programs -/

section Programs

variable {w : World} {α β : Type}

/-- A world whose database is kept in the tables of the current schema. -/
def World.stored (w : World) : StoredWorld where
  applied := Migrator.migrations.map (·.name)
  db := w.db.stored
  replay := w.replay
  pinned := w.pinned
  limiter := w.limiter

theorem World.stored_tryAcquire (w : World) (keyId : Uuid) (permits : Nat) :
    (w.stored.memory.tryAcquire keyId permits).1 = (w.tryAcquire keyId permits).1 ∧
      { w.stored with limiter := (w.stored.memory.tryAcquire keyId permits).2.limiter } =
        (w.tryAcquire keyId permits).2.stored := by
  have hbudget : w.stored.memory.currentBudget keyId permits = w.currentBudget keyId permits := rfl
  simp only [World.tryAcquire, hbudget]
  split
  · exact ⟨rfl, rfl⟩
  · exact ⟨rfl, rfl⟩

theorem World.stored_release (w : World) (permit : Permit) :
    { w.stored with limiter := (w.stored.memory.release permit).limiter } =
      (w.release permit).stored := by
  have hbudget : w.stored.memory.budget permit.keyId = w.budget permit.keyId := rfl
  simp only [World.release, hbudget]
  split
  · rfl
  · split
    · rfl
    · rfl

/-- One operation comes to the same on the tables as on the database they hold. -/
theorem Op.onTables_stored (op : Op β) (h : w.db.stored.Valid) :
    Op.onTables β op w.stored = ((Op.exec β op w).1, (Op.exec β op w).2.stored) ∧
      (Op.exec β op w).2.db.stored.Valid := by
  cases op with
  | db s =>
    have hstatement : s.onTables w.stored.db = Database.inTables (s.exec w.db) :=
      HookExecutor.onTables_stored h s
    refine ⟨?_, exec_valid h s⟩
    simp only [Op.onTables, hstatement]
    rfl
  | checkAndRecord keyId digest now => exact ⟨rfl, h⟩
  | pinnedMaster => exact ⟨rfl, h⟩
  | pinMaster id => exact ⟨rfl, h⟩
  | tryAcquire keyId permits =>
    obtain ⟨hpermit, hlimiter⟩ := w.stored_tryAcquire keyId permits
    refine ⟨Prod.ext hpermit hlimiter, ?_⟩
    rw [show (Op.exec _ (.tryAcquire keyId permits) w).2.db = w.db from
      World.tryAcquire_db w keyId permits]
    exact h
  | release permit =>
    refine ⟨Prod.ext rfl (w.stored_release permit), ?_⟩
    rw [show (Op.exec _ (.release permit) w).2.db = w.db from World.release_db w permit]
    exact h

theorem mirrors_stored :
    Mirrors Op.exec Op.onTables (fun w => w.db.stored.Valid) World.stored :=
  fun _ op _ h => op.onTables_stored h

/-- Any handler answers the same, and leaves the same. -/
theorem run_onTables (p : Handler α) (h : w.db.stored.Valid) :
    p.run Op.onTables w.stored = ((p.run Op.exec w).1, (p.run Op.exec w).2.stored) ∧
      (p.run Op.exec w).2.db.stored.Valid :=
  mirrors_stored.run p h

theorem run_onTables_snd (p : Handler α) (h : w.db.stored.Valid) :
    (p.run Op.onTables w.stored).2 = (p.run Op.exec w).2.stored :=
  congrArg Prod.snd (run_onTables p h).1

end Programs

/-! ### Starts -/

namespace Migrator

theorem atLevel_nothing : AtLevel 0 nothing where
  level := Nat.zero_le _
  applied := rfl
  schema := rfl
  valid := ⟨fun _ ht => absurd ht List.not_mem_nil, fun _ ht => absurd ht List.not_mem_nil,
    fun _ ht => absurd ht List.not_mem_nil⟩
  tidy := ⟨fun _ ht => absurd ht List.not_mem_nil, fun _ _ => rfl⟩

/-- A database that is migrated holds the database its rows come to. -/
theorem AtLevel.runMigrations_eq {n : Nat} {s : Migrated} {db : Database} (h : AtLevel n s)
    (hone : n ≤ 5 → OneMaster s.db)
    (hrows : ∀ name, (s.db.rows name).map (carried n name) = db.tables name)
    (transactions : Transactions) :
    runMigrations transactions s = (.ok (), ⟨migrations.map (·.name), db.stored⟩) ∧
      db.stored.Valid := by
  obtain ⟨t, hrun, hlevel, hcarried⟩ := h.up_ok transactions hone
  have happlied : t.applied = migrations.map (·.name) := by
    rw [hlevel.applied, List.take_length]
  have hdb : t.db = db.stored := by
    have hschema : t.db.schema = currentSchema := hlevel.schema.trans schemaAt_length
    have htables : t.db.rows = db.tables := funext fun name => (hcarried name).trans (hrows name)
    rw [Database.stored, ← hschema, ← htables]
  refine ⟨?_, hdb ▸ hlevel.valid⟩
  rw [runMigrations, hrun, ← happlied, ← hdb]

/-- A database nothing was stored in holds the empty database once it is migrated. -/
theorem runMigrations_nothing (transactions : Transactions) :
    runMigrations transactions nothing =
        (.ok (), ⟨migrations.map (·.name), Database.empty.stored⟩) ∧
      Database.empty.stored.Valid := by
  refine atLevel_nothing.runMigrations_eq (fun _ => List.Pairwise.nil) (fun name => ?_) transactions
  cases name <;> rfl

/-- A later run finds nothing to do. -/
theorem runMigrations_again (transactions : Transactions) (db : StoredDb) :
    runMigrations transactions ⟨migrations.map (·.name), db⟩ =
      (.ok (), ⟨migrations.map (·.name), db⟩) := by
  have happlied : (Migrated.mk (migrations.map (·.name)) db).applied =
      (migrations.take migrations.length).map (·.name) := by
    rw [List.take_length]
  have hpending : pending ⟨migrations.map (·.name), db⟩ = [] := by
    rw [pending_eq happlied, List.drop_length]
  rw [runMigrations, up, if_pos (known happlied), hpending]
  rfl

end Migrator

theorem valid_empty : Database.empty.stored.Valid := (Migrator.runMigrations_nothing .none).2

section Histories

variable {state : AppState} {v : StoredWorld} {w : World} {db : Database}

/-- A start comes to the same on the tables, once they are migrated. -/
theorem startedOn_iff (h : db.stored.Valid) {s : Migrated}
    (hmigrated : ∀ transactions, runMigrations transactions s =
      (.ok (), ⟨Migrator.migrations.map (·.name), db.stored⟩)) :
    StartedOn state s v ↔
      ∃ (start : Startup) (w : World),
        (boot state start).run Op.exec (startProcess state start db) = (.ok (), w) ∧
          v = w.stored := by
  have hboot : ∀ start, (boot state start).run Op.onTables
      (startStored state start ⟨Migrator.migrations.map (·.name), db.stored⟩) =
        (((boot state start).run Op.exec (startProcess state start db)).1,
          ((boot state start).run Op.exec (startProcess state start db)).2.stored) :=
    fun start => (run_onTables (boot state start) (w := startProcess state start db) h).1
  constructor
  · rintro ⟨transactions, start, t, hrun, hstarted⟩
    obtain rfl : ⟨Migrator.migrations.map (·.name), db.stored⟩ = t :=
      congrArg Prod.snd ((hmigrated transactions).symm.trans hrun)
    rw [hboot] at hstarted
    obtain ⟨hanswer, hleft⟩ := Prod.mk.inj hstarted
    exact ⟨start, _, Prod.ext hanswer rfl, hleft.symm⟩
  · rintro ⟨start, w, hstarted, rfl⟩
    refine ⟨.none, start, _, hmigrated .none, ?_⟩
    rw [hboot, hstarted]

theorem Reachable.valid (h : Reachable state w) : w.db.stored.Valid := by
  induction h with
  | @start state start w started =>
    have hvalid := (run_onTables (boot state start) (w := startProcess state start .empty)
      valid_empty).2
    rwa [started] at hvalid
  | @restart state state' w w' before start started ih =>
    have hvalid := (run_onTables (boot state' start) (w := startProcess state' start w.db) ih).2
    rwa [started] at hvalid
  | serve before ctx clock req served ih => exact (run_onTables _ ih).2
  | sweepExecutions before now ih => exact (run_onTables _ ih).2
  | sweepDeletedHooks before now ih => exact (run_onTables _ ih).2

/-- What the service does on the database it does on tables. -/
theorem Reachable.stored (h : Reachable state w) : StoredReachable state w.stored := by
  induction h with
  | start start started =>
    exact .start ((startedOn_iff valid_empty fun transactions =>
      (Migrator.runMigrations_nothing transactions).1).mpr
      ⟨start, _, started, rfl⟩)
  | restart before start started ih =>
    exact .restart ih ((startedOn_iff before.valid fun transactions =>
      Migrator.runMigrations_again transactions _).mpr ⟨start, _, started, rfl⟩)
  | serve before ctx clock req served ih =>
    rw [← run_onTables_snd (HookExecutor.serve ctx clock req) before.valid]
    exact ih.serve ctx clock req served
  | @sweepExecutions state w before now ih =>
    rw [← run_onTables_snd (purgeExpiredExecutions now state.config.logRetentionDays)
      before.valid]
    exact ih.sweepExecutions now
  | @sweepDeletedHooks state w before now ih =>
    rw [← run_onTables_snd (purgeExpiredDeletedHooks now state.config.deletedHookRetentionDays)
      before.valid]
    exact ih.sweepDeletedHooks now

/-- What it does on tables it does on the database they hold. -/
theorem StoredReachable.image (h : StoredReachable state v) :
    ∃ w, Reachable state w ∧ v = w.stored := by
  induction h with
  | start started =>
    obtain ⟨start, w, hstarted, rfl⟩ :=
      (startedOn_iff valid_empty fun transactions =>
      (Migrator.runMigrations_nothing transactions).1).mp started
    exact ⟨w, .start start hstarted, rfl⟩
  | restart before started ih =>
    obtain ⟨w, hbefore, rfl⟩ := ih
    obtain ⟨start, w', hstarted, rfl⟩ := (startedOn_iff hbefore.valid fun transactions =>
      Migrator.runMigrations_again transactions w.db.stored).mp started
    exact ⟨w', hbefore.restart start hstarted, rfl⟩
  | serve before ctx clock req served ih =>
    obtain ⟨w, hbefore, rfl⟩ := ih
    exact ⟨_, hbefore.serve ctx clock req served, run_onTables_snd _ hbefore.valid⟩
  | sweepExecutions before now ih =>
    obtain ⟨w, hbefore, rfl⟩ := ih
    exact ⟨_, hbefore.sweepExecutions now, run_onTables_snd _ hbefore.valid⟩
  | sweepDeletedHooks before now ih =>
    obtain ⟨w, hbefore, rfl⟩ := ih
    exact ⟨_, hbefore.sweepDeletedHooks now, run_onTables_snd _ hbefore.valid⟩

/-- The histories of the service on tables are its histories on the database, seen in
tables: whatever is asked next is answered the same, and leaves the same. -/
theorem storedReachable_iff :
    StoredReachable state v ↔ ∃ w, Reachable state w ∧ v = w.stored ∧ v.db.Valid ∧
      ∀ (α : Type) (p : Handler α),
        p.run Op.onTables v = ((p.run Op.exec w).1, (p.run Op.exec w).2.stored) := by
  constructor
  · intro h
    obtain ⟨w, hreachable, rfl⟩ := h.image
    exact ⟨w, hreachable, rfl, hreachable.valid, fun α p => (run_onTables p hreachable.valid).1⟩
  · rintro ⟨w, hreachable, rfl, -, -⟩
    exact hreachable.stored

section Interleavings

variable {ι : Type} [DecidableEq ι] {α : Type}

/-- Requests that take turns at the tables come to what they come to on the database. -/
theorem interleaved_onTables (h : StoredReachable state v) (requests : ι → Handler α) :
    ∃ w, Reachable state w ∧ v = w.stored ∧
      ∀ d, Interleaved Op.onTables requests v d ↔
        ∃ c, Interleaved Op.exec requests w c ∧ c.state.db.stored.Valid ∧
          d = c.image World.stored := by
  obtain ⟨w, hreachable, rfl⟩ := h.image
  refine ⟨w, hreachable, rfl, fun d => (mirrors_stored.interleaved_iff hreachable.valid).trans ?_⟩
  constructor
  · rintro ⟨c, hrun, himage⟩
    exact ⟨c, hrun, mirrors_stored.sound hreachable.valid hrun, himage⟩
  · rintro ⟨c, hrun, -, himage⟩
    exact ⟨c, hrun, himage⟩

theorem interleaved_onTables_booted :
    ∃ w, Reachable Sample.state w ∧ Sample.booted.stored = w.stored ∧
      ∀ d, Interleaved Op.onTables (fun _ : Bool => pinAtBoot) Sample.booted.stored d ↔
        ∃ c, Interleaved Op.exec (fun _ : Bool => pinAtBoot) w c ∧
          c.state.db.stored.Valid ∧ d = c.image World.stored :=
  interleaved_onTables Sample.reachable_booted.stored fun _ => pinAtBoot

end Interleavings

/-- No statement fails on the database for a reason that is not one of its own. -/
theorem exec_ne_other {β : Type} (s : Stmt β) (db : Database) (text : String) :
    (s.exec db).1 ≠ .error (.other text) := by
  cases s with
  | insertApiKey row =>
    simp only [Stmt.exec, Database.insertApiKey]
    split <;> simp
  | updateApiKey id u =>
    simp only [Stmt.exec, Database.updateApiKey]
    split
    · simp
    · split <;> simp
  | insertHook row =>
    simp only [Stmt.exec, Database.insertHook]
    split <;> simp
  | updateHook id u =>
    simp only [Stmt.exec, Database.updateHook]
    split
    · simp
    · split <;> simp
  | updateHooks c u =>
    simp only [Stmt.exec, Database.updateHooks]
    split <;> simp
  | insertHookParameter row =>
    simp only [Stmt.exec, Database.insertHookParameter]
    split
    · simp
    · split <;> simp
  | updateHookParameter id u =>
    simp only [Stmt.exec, Database.updateHookParameter]
    split <;> simp
  | upsertPermission row columns =>
    simp only [Stmt.exec, Database.upsertPermission]
    split
    · simp
    · split
      · simp
      · split <;> simp
  | insertExecution row =>
    simp only [Stmt.exec, Database.insertExecution]
    split
    · simp
    · split <;> simp
  | insertAuditLog row =>
    simp only [Stmt.exec, Database.insertAuditLog]
    split
    · simp
    · split <;> simp
  | _ => simp [Stmt.exec]

end Histories

end HookExecutor
