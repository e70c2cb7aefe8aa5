import HookExecutor.Verification.DryRun
import HookExecutor.Verification.ExecutionOracle
import HookExecutor.Verification.HookCustody
import HookExecutor.Verification.HookEffects
import HookExecutor.Verification.Keyless
import HookExecutor.Verification.Lifetime
import HookExecutor.Verification.RetentionSweeps
import HookExecutor.Verification.Supervision

/-!
# The execution history

A record enters the history when an invocation that was let through has run its
hook, and nowhere else. It changes once at most, when the key it names is deleted,
and it is gone only by one of a few hands. All of it is read off what one
statement, then one request, then one step of the service does to the history.
-/

namespace HookExecutor

open Executor Text

/-! ### Statements -/

/-- A record without the name of its key. -/
def Execution.unnamed (x : Execution) : Execution := { x with apiKeyId := none }

/-- A record as it was, or without the name of its key. -/
abbrev Execution.Ages : Execution → Execution → Prop := Ledger.Fades Execution.unnamed

theorem Execution.Ages.trans {x y z : Execution} (h : x.Ages y) (h' : y.Ages z) : x.Ages z :=
  Ledger.Fades.trans h h' fun _ => rfl

/-- Every record of the one is in the other, in a younger form. -/
abbrev Database.NoneNew (a b : Database) : Prop :=
  Ledger.NoneNew Execution.Ages a.executions b.executions

/-- Every record of the one is in the other, in an older form. -/
abbrev Database.NoneLost (a b : Database) : Prop :=
  Ledger.NoneLost Execution.Ages a.executions b.executions

section Statements

variable {a b db : Database} {β : Type}

theorem Database.noneNew_of_subset (h : b.executions ⊆ a.executions) : a.NoneNew b :=
  Ledger.noneNew_of_subset (Ledger.Fades.refl _) h

theorem Database.noneLost_of_subset (h : a.executions ⊆ b.executions) : a.NoneLost b :=
  Ledger.noneLost_of_subset (Ledger.Fades.refl _) h

theorem Database.insertExecution_cases (db : Database) (row : Execution) :
    (∃ e, db.insertExecution row = (.error e, db)) ∨
      db.insertExecution row = (.ok (), { db with executions := db.executions ++ [row] }) := by
  unfold Database.insertExecution
  split
  · exact .inl ⟨_, rfl⟩
  · split
    · exact .inr rfl
    · exact .inl ⟨_, rfl⟩

/-- Only one kind of statement makes a record. -/
theorem Stmt.exec_noneNew (s : Stmt β) (hs : s.write? ≠ some .insertExecution) (db : Database) :
    db.NoneNew (s.exec db).2 := by
  cases s with
  | insertExecution row => exact absurd rfl hs
  | deleteApiKeys c => exact (Ledger.fades_map _ _).1
  | deleteHooks c => exact Database.noneNew_of_subset (List.filter_subset_self _)
  | deleteExecutions c => exact Database.noneNew_of_subset (List.filter_subset_self _)
  | _ =>
    refine Database.noneNew_of_subset ?_
    rw [Stmt.exec_agree (t := .executions) _ db (by simp [Stmt.write?, Write.tables])]
    exact List.Subset.refl _

/-- Two kinds of statements strike records. -/
theorem Stmt.exec_noneLost (s : Stmt β) (hexecutions : s.write? ≠ some .deleteExecutions)
    (hhooks : s.write? ≠ some .deleteHooks) (db : Database) : db.NoneLost (s.exec db).2 := by
  cases s with
  | deleteExecutions c => exact absurd rfl hexecutions
  | deleteHooks c => exact absurd rfl hhooks
  | deleteApiKeys c => exact (Ledger.fades_map _ _).2
  | insertExecution row =>
    obtain ⟨e, hrun⟩ | hrun := db.insertExecution_cases row
    · rw [Stmt.exec, hrun]
      exact Database.noneLost_of_subset (List.Subset.refl _)
    · rw [Stmt.exec, hrun]
      exact Database.noneLost_of_subset (List.subset_append_left _ _)
  | _ =>
    refine Database.noneLost_of_subset ?_
    rw [Stmt.exec_agree (t := .executions) _ db (by simp [Stmt.write?, Write.tables])]
    exact List.Subset.refl _

end Statements

/-- A program that inserts no execution makes no record. -/
theorem Handler.run_noneNew {W : List Write} {α : Type} {p : Handler α}
    (hp : p.Emits (WritesAmong W)) (hW : .insertExecution ∉ W) (w : World) :
    w.db.NoneNew (p.run Op.exec w).2.db :=
  Handler.run_db_rel hp (fun _ s k hk hmem db => s.exec_noneNew (by
      rintro hs
      obtain rfl : k = .insertExecution := Option.some.inj (hk.symm.trans hs)
      exact hW hmem) db)
    (fun _ => Database.noneNew_of_subset (List.Subset.refl _)) (Ledger.NoneNew.trans Execution.Ages.trans) w

/-- A program that deletes neither executions nor hooks strikes no record. -/
theorem Handler.run_noneLost {W : List Write} {α : Type} {p : Handler α}
    (hp : p.Emits (WritesAmong W)) (hexecutions : .deleteExecutions ∉ W)
    (hhooks : .deleteHooks ∉ W) (w : World) : w.db.NoneLost (p.run Op.exec w).2.db :=
  Handler.run_db_rel hp (fun _ s k hk hmem db => s.exec_noneLost (by
      rintro hs
      obtain rfl : k = .deleteExecutions := Option.some.inj (hk.symm.trans hs)
      exact hexecutions hmem) (by
      rintro hs
      obtain rfl : k = .deleteHooks := Option.some.inj (hk.symm.trans hs)
      exact hhooks hmem) db)
    (fun _ => Database.noneLost_of_subset (List.Subset.refl _)) (Ledger.NoneLost.trans Execution.Ages.trans) w

/-! ### One invocation -/

/-- The record of a run that went by a plan. -/
def recordOf (ctx : Context) (hook : Hook) (key : Option ApiKey) (resolved : ResolvedParameters)
    (plan : CommandPlan) : Execution :=
  let outcome := ctx.os.runProcess plan.program plan.args plan.env
    (timeoutFor hook.defaultTimeoutSeconds) ctx.state.config.maxOutputBytes
  { id := ctx.draws.uuid 0
    hookId := hook.id
    apiKeyId := key.map (·.id)
    status := outcome.status
    exitCode := outcome.exitCode
    stdout := outcome.stdout
    stderr := outcome.stderr
    parametersJson := ctx.state.platform.renderJson resolved.toJson
    durationMs := outcome.durationMs
    timestamp := ctx.draws.now 0 }

def Database.withExecution (db : Database) (record : Execution) : Database :=
  { db with executions := db.executions ++ [record] }

section Invocation

variable {ctx : Context} {clock : AuthClock} {inv : Invocation} {key caller : Option ApiKey}
  {hook : Hook} {resolved : ResolvedParameters} {record : Execution} {view : ExecutionView}
  {e : AppError} {w w' : World}

/-- What running a hook comes to: it is refused and nothing has happened, or it is
recorded. -/
inductive Ran (ctx : Context) (hook : Hook) (key : Option ApiKey) (resolved : ResolvedParameters)
    (db : Database) : Except AppError Execution → Database → Prop
  | refused (e : AppError) : Ran ctx hook key resolved db (.error e) db
  | recorded {plan : CommandPlan} (runnable : ensureRunnable ctx.os ctx.state.config hook = .ok ())
      (planned : buildCommandPlan ctx.os ctx.state.config hook resolved = .ok plan) :
      Ran ctx hook key resolved db (.ok (recordOf ctx hook key resolved plan))
        (db.withExecution (recordOf ctx hook key resolved plan))

theorem runPlanned_ran (hrunnable : ensureRunnable ctx.os ctx.state.config hook = .ok ())
    (w : World) : Ran ctx hook key resolved w.db
      ((runPlanned ctx hook key resolved).run Op.exec w).1
      ((runPlanned ctx hook key resolved).run Op.exec w).2.db := by
  cases hplan : buildCommandPlan ctx.os ctx.state.config hook resolved with
  | error e =>
    simp only [runPlanned, hplan, Except.mapError, Program.bind_eq]
    exact .refused _
  | ok plan =>
    have hrun : (runPlanned ctx hook key resolved).run Op.exec w =
        ((sql (.insertExecution (recordOf ctx hook key resolved plan))).bind fun _ =>
          .pure (recordOf ctx hook key resolved plan)).run Op.exec w := by
      simp only [runPlanned, hplan, Except.mapError, Program.bind_eq]
      rfl
    rw [hrun, Program.run_bind, Handler.exec_sql, Stmt.exec]
    obtain ⟨e, hinsert⟩ | hinsert :=
      w.db.insertExecution_cases (recordOf ctx hook key resolved plan)
    · rw [hinsert]
      exact .refused _
    · rw [hinsert]
      exact .recorded hrunnable hplan

theorem tryAcquire_writes {W : List Write} (key : ApiKey) :
    (tryAcquire key).Emits (WritesAmong W) :=
  .bind (p := .ask _) (by simp) fun _ => emits_orElse _ _

/-- The permit is taken and given back beside the database. -/
theorem executeHook_ran (ctx : Context) (hook : Hook) (key : Option ApiKey)
    (resolved : ResolvedParameters) (w : World) : Ran ctx hook key resolved w.db
      ((executeHook ctx hook key resolved).run Op.exec w).1
      ((executeHook ctx hook key resolved).run Op.exec w).2.db := by
  cases hrunnable : ensureRunnable ctx.os ctx.state.config hook with
  | error e =>
    simp only [executeHook, hrunnable, Except.mapError, Program.bind_eq]
    exact .refused _
  | ok u =>
    cases key with
    | none =>
      simp only [executeHook, hrunnable, Except.mapError, Program.bind_eq]
      exact runPlanned_ran hrunnable w
    | some k =>
      simp only [executeHook, hrunnable, Except.mapError, Program.bind_eq]
      change Ran ctx hook (some k) resolved w.db (((tryAcquire k).bind _).run Op.exec w).1
        (((tryAcquire k).bind _).run Op.exec w).2.db
      have hdb : ((tryAcquire k).run Op.exec w).2.db = w.db :=
        Handler.run_db_eq (tryAcquire_writes k) w
      cases hacquired : (tryAcquire k).run Op.exec w with
      | mk r t =>
        rw [hacquired] at hdb
        cases r with
        | error e =>
          rw [Program.run_bind_error hacquired]
          exact hdb ▸ .refused e
        | ok permit =>
          rw [Program.run_bind_ok hacquired, ← hdb]
          simp only [Program.run_bind, Program.run_attempt, Program.run_ask, Op.exec,
            Program.run_ofExcept, World.release_db]
          exact runPlanned_ran hrunnable t

/-- The handler of an invocation comes to run its hook, and this is the record. -/
structure Invocation.Recorded (inv : Invocation) (ctx : Context) (caller : Option ApiKey)
    (db : Database) (hook : Hook) (record : Execution) : Prop where
  route : inv.route ≠ .test
  reaches : ∃ identifier, percentDecode inv.segment = some identifier ∧
    db.resolveLive identifier = some hook
  may : ∀ key, caller = some key → db.MayExecute key hook.id
  made : ∃ resolved plan, Unblocked ctx hook resolved plan ∧
    record = recordOf ctx hook caller resolved plan

/-- What handling an invocation comes to: a preview or a refusal changes nothing,
and a run is answered with its record. -/
inductive Handled (inv : Invocation) (ctx : Context) (caller : Option ApiKey) (db : Database) :
    Except AppError InvocationResponse → Database → Prop
  | refused (e : AppError) : Handled inv ctx caller db (.error e) db
  | tested (response : TestHookResponse) (route : inv.route = .test) :
      Handled inv ctx caller db (.ok (.tested response)) db
  | recorded {hook : Hook} {record : Execution}
      (recorded : inv.Recorded ctx caller db hook record) :
      Handled inv ctx caller db (.ok (.executed (executionView ctx.state.platform record hook.name
        (caller.map (·.name))))) (db.withExecution record)

theorem authorizeInvocation_ok {identifier : String}
    (h : (authorizeInvocation caller identifier).run Op.exec w = (.ok hook, w')) :
    w.db.resolveLive identifier = some hook ∧
      ∀ key, caller = some key → w.db.MayExecute key hook.id := by
  simp only [authorizeInvocation, Program.bind_eq, Program.pure_eq, Program.run_bind_eq_ok_iff,
    run_resolveHook_ok, Program.run_pure] at h
  obtain ⟨_, _, ⟨rfl, hhook⟩, _, _, hguard, hret⟩ := h
  cases hret
  refine ⟨hhook, ?_⟩
  rintro key rfl
  exact (guardExecute_ok.mp hguard).2

theorem prepareInvocation_ok {identifier : String} {body : Bytes}
    (h : (prepareInvocation ctx caller identifier body).run Op.exec w = (.ok (hook, resolved), w')) :
    w.db.resolveLive identifier = some hook ∧
      ∀ key, caller = some key → w.db.MayExecute key hook.id := by
  obtain ⟨hook', t, hauthorize, hrest⟩ := Program.run_bind_eq_ok_iff.mp h
  obtain ⟨resolved', t', -, hret⟩ := Program.run_bind_eq_ok_iff.mp hrest
  cases hret
  exact authorizeInvocation_ok hauthorize

theorem Ran.handled {identifier : String} {r : Except AppError Execution} {db db' : Database}
    (h : Ran ctx hook caller resolved db r db') (hroute : inv.route ≠ .test)
    (hdecoded : percentDecode inv.segment = some identifier)
    (hresolved : db.resolveLive identifier = some hook)
    (hmay : ∀ key, caller = some key → db.MayExecute key hook.id)
    (hcomplete : resolved.missingRequired = []) :
    Handled inv ctx caller db ((r.map fun record => executionView ctx.state.platform record hook.name
      (caller.map (·.name))).map .executed) db' := by
  cases h with
  | refused e => exact .refused e
  | recorded runnable planned =>
    exact .recorded ⟨hroute, ⟨identifier, hdecoded, hresolved⟩, hmay, resolved, _,
      ⟨hcomplete, runnable, planned⟩, rfl⟩

theorem runHookRequest_handled {identifier : String} (body : Bytes) (hroute : inv.route ≠ .test)
    (hdecoded : percentDecode inv.segment = some identifier) (w : World) :
    Handled inv ctx caller w.db
      (((runHookRequest ctx caller identifier body).run Op.exec w).1.map .executed)
      ((runHookRequest ctx caller identifier body).run Op.exec w).2.db := by
  rw [runHookRequest_eq, Program.run_bind]
  have hsnd := prepareInvocation_snd ctx caller identifier body w
  cases hprepared : (prepareInvocation ctx caller identifier body).run Op.exec w with
  | mk r t =>
    rw [hprepared] at hsnd
    obtain rfl : t = w := hsnd
    cases r with
    | error e => exact .refused e
    | ok prepared =>
      obtain ⟨hook, resolved⟩ := prepared
      obtain ⟨hresolved, hmay⟩ := prepareInvocation_ok hprepared
      by_cases hcomplete : resolved.missingRequired = []
      · have hrun : ((Program.require (resolved.missingRequired = [])
            (.invalidInput (missingRequired resolved.missingRequired))).bind fun _ =>
              (executeHook ctx hook caller resolved).bind fun record => .pure
                (executionView ctx.state.platform record hook.name (caller.map (·.name)))).run
                  Op.exec t =
            (((executeHook ctx hook caller resolved).run Op.exec t).1.map fun record =>
                executionView ctx.state.platform record hook.name (caller.map (·.name)),
              ((executeHook ctx hook caller resolved).run Op.exec t).2) := by
          rw [Program.require, if_pos hcomplete]
          exact Program.run_map _ _ _
        dsimp only
        rw [hrun]
        exact (executeHook_ran ctx hook caller resolved t).handled hroute hdecoded hresolved hmay
          hcomplete
      · simp only [Program.run_bind, Program.run_require, hcomplete, if_false]
        exact .refused _

theorem handleInvocation_handled (ctx : Context) (inv : Invocation) (caller : Option ApiKey)
    (w : World) : Handled inv ctx caller w.db ((handleInvocation ctx inv caller).run Op.exec w).1
      ((handleInvocation ctx inv caller).run Op.exec w).2.db := by
  unfold handleInvocation decodeIdentifier
  cases hdecoded : percentDecode inv.segment with
  | none => exact .refused _
  | some identifier =>
    simp only [Program.bind_eq, Program.run_bind, Program.run_ofExcept]
    cases extractBody inv.body with
    | error e => exact .refused e
    | ok body =>
      have hexecuted : inv.route ≠ .test → Handled inv ctx caller w.db
          ((InvocationResponse.executed <$> runHookRequest ctx caller identifier body).run Op.exec
            w).1 ((InvocationResponse.executed <$> runHookRequest ctx caller identifier body).run
              Op.exec w).2.db := by
        intro hroute
        rw [Program.run_map]
        exact runHookRequest_handled body hroute hdecoded w
      cases hroute : inv.route with
      | execute => exact hexecuted (by simp [hroute])
      | webhook => exact hexecuted (by simp [hroute])
      | test =>
        dsimp only
        rw [Program.run_map, run_testHook]
        cases ((prepareInvocation ctx caller identifier body).run Op.exec w).1 with
        | error e => exact .refused e
        | ok prepared => exact .tested _ hroute

end Invocation

/-! ### Where records come from -/

def Service.HoldsRecord (s : Service) (row : Execution) : Prop := row ∈ s.world.db.executions

theorem Bootstrapped.holdsNoRecord {s : Service} {row : Execution}
    (h : Bootstrapped s.state s.world) : ¬s.HoldsRecord row := by
  rw [Service.HoldsRecord, h.executions]
  exact List.not_mem_nil

/-- Whatever an administrative request does, it makes no record. -/
theorem insertExecution_notMem_writes (request : AdminRequest) :
    Write.insertExecution ∉ request.writes := by
  cases request <;> simp [AdminRequest.writes]

/-- A step of the service that lets an invocation through, runs its hook, and
answers with the record it makes. A caller without a key named a hook that takes
such callers. -/
inductive MakesRecord (P : RequestCondition) (s : Service) : Service → Execution → Prop
  | run {ctx : Context} {clock : AuthClock} {inv : Invocation} {caller : Option ApiKey}
      {hook : Hook} {record : Execution} {w₁ : World} (served : ctx.state = s.state)
      (meets : P s.world ctx clock (.invoke inv))
      (authenticated : (authenticate ctx clock (.invoke inv)).run Op.exec s.world =
        (.ok (.invoke caller inv), w₁))
      (known : ∀ key, caller = some key → key ∈ s.world.db.apiKeys)
      (keyless : caller = none → ∃ named, s.world.db.resolveLive inv.segment = some named ∧
        AdmitsKeyless s.state named inv.toHttp)
      (recorded : inv.Recorded ctx caller s.world.db hook record)
      (answered : ((serve ctx clock (.invoke inv)).run Op.exec s.world).1 =
        .ok (.invocation (.executed (executionView s.state.platform record hook.name
          (caller.map (·.name))))))
      (stored : ((serve ctx clock (.invoke inv)).run Op.exec s.world).2.db =
        s.world.db.withExecution record) :
      MakesRecord P s ⟨s.state, ((serve ctx clock (.invoke inv)).run Op.exec s.world).2⟩ record

section Provenance

variable {P : RequestCondition} {s t : Service} {ctx : Context} {clock : AuthClock}
  {inv : Invocation} {row : Execution}

/-- An invocation makes the record of its run, or none. -/
theorem serve_invoke_enters (hreached : s.Reached) (served : ctx.state = s.state)
    (meets : P s.world ctx clock (.invoke inv))
    (hrow : row ∈ ((serve ctx clock (.invoke inv)).run Op.exec s.world).2.db.executions) :
    row ∈ s.world.db.executions ∨ MakesRecord P s
      ⟨s.state, ((serve ctx clock (.invoke inv)).run Op.exec s.world).2⟩ row := by
  cases hauth : (authenticate ctx clock (.invoke inv)).run Op.exec s.world with
  | mk r w₁ =>
    have hdb : w₁.db = s.world.db := authenticate_db hauth
    cases r with
    | error e =>
      rw [serve, Program.bind_eq, Program.run_bind_error hauth, hdb] at hrow
      exact .inl hrow
    | ok a =>
      obtain ⟨caller, rfl⟩ := authenticated_invoke hauth
      have hserve : (serve ctx clock (.invoke inv)).run Op.exec s.world =
          (((handleInvocation ctx inv caller).run Op.exec w₁).1.map .invocation,
            ((handleInvocation ctx inv caller).run Op.exec w₁).2) :=
        (run_serve hauth).trans (Program.run_map _ _ _)
      have hhandled := handleInvocation_handled ctx inv caller w₁
      rw [hdb] at hhandled
      have hanswer : ((serve ctx clock (.invoke inv)).run Op.exec s.world).1 =
          ((handleInvocation ctx inv caller).run Op.exec w₁).1.map .invocation :=
        congrArg Prod.fst hserve
      have hstored : ((serve ctx clock (.invoke inv)).run Op.exec s.world).2.db =
          ((handleInvocation ctx inv caller).run Op.exec w₁).2.db :=
        congrArg (fun out => out.2.db) hserve
      rw [hstored] at hrow
      generalize ((handleInvocation ctx inv caller).run Op.exec w₁).1 = r at hhandled hanswer
      generalize ((handleInvocation ctx inv caller).run Op.exec w₁).2.db = db at hhandled hstored hrow
      cases hhandled with
      | refused e => exact .inl hrow
      | tested response route => exact .inl hrow
      | @recorded hook record recorded =>
        obtain hold | hnew := List.mem_append.mp hrow
        · exact .inl hold
        · obtain rfl := List.mem_singleton.mp hnew
          refine .inr (.run served meets hauth (fun key hcaller =>
            hreached.sound.caller_mem hauth hcaller) ?_ recorded (by rw [hanswer, served]; rfl)
            hstored)
          rintro rfl
          obtain ⟨-, -, named, hnamed, hguard⟩ :=
            invocationAuthMiddleware_keyless.mp (authenticate_invoke_ok.mp hauth)
          exact ⟨named, hnamed, served ▸ admitsKeyless_of_guardKeyless hguard⟩

/-- One step accounts for every record it leaves. -/
theorem Advances.enters : Ledger.Enters Service.Reached (Advances P) Service.HoldsRecord
    Execution.Ages (MakesRecord P) := by
  intro s t row hreached hstep hrow
  cases hstep with
  | @restarts state' w' start started =>
    have hsame := boot_agree (t := .executions) (by decide) started
    refine .inl ⟨row, ?_, .refl _ row⟩
    rwa [Service.HoldsRecord, show w'.db.executions = s.world.db.executions from hsame] at hrow
  | serves ctx clock req served meets =>
    cases req with
    | invoke inv =>
      obtain hold | hmade := serve_invoke_enters hreached served meets hrow
      · exact .inl ⟨row, hold, .refl _ row⟩
      · exact .inr hmade
    | admin http request =>
      exact .inl (Handler.run_noneNew (serve_admin_writes ctx clock http request)
        (insertExecution_notMem_writes request) s.world row hrow)
  | sweepsExecutions now =>
    exact .inl (Handler.run_noneNew (purgeExpiredExecutions_writes now _ (W := [.deleteExecutions])
      (by decide)) (by decide) s.world row hrow)
  | sweepsDeletedHooks now =>
    exact .inl (Handler.run_noneNew (purgeExpiredDeletedHooks_writes now _ (W := [.deleteHooks])
      (by decide)) (by decide) s.world row hrow)

end Provenance

/-! ### What records say -/

/-- What becomes of a process is something a supervised process can come to. -/
def Os.Supervises (os : Os) : Prop :=
  ∀ program args env timeoutSeconds maxOutputBytes, RunsTo os program maxOutputBytes
    (os.runProcess program args env timeoutSeconds maxOutputBytes)

/-- Status and exit code agree, and the duration fits its column. -/
structure ExecutionOutcome.Consistent (o : ExecutionOutcome) : Prop where
  success : o.status = .success → o.exitCode = some 0
  failed : o.status = .failed → o.exitCode ≠ some 0
  duration : 0 ≤ o.durationMs ∧ o.durationMs ≤ 2147483647

theorem Executor.RunsTo.consistent {os : Os} {program : String} {limit : Nat}
    {o : ExecutionOutcome} (h : RunsTo os program limit o) : o.Consistent := by
  cases h with
  | spawnFails e millis => exact ⟨by simp, by simp, elapsedMs_bounds millis⟩
  | finishes run done =>
    have hreports := run.sound.control
    rw [ControlSound, done] at hreports
    exact ⟨hreports.verdict.agree.1, hreports.verdict.agree.2, hreports.duration⟩

/-- Whatever requests the service served, in whatever order and over however many
starts, every record agrees with itself. -/
theorem records_consistent {s t : Service} {row : Execution}
    (hboot : Bootstrapped s.state s.world) (hlife : Lives (fun _ ctx _ _ => ctx.os.Supervises) s t)
    (hrow : row ∈ t.world.db.executions) : row.outcome.Consistent := by
  obtain ⟨record, hrecord, -⟩ | ⟨u, u', record, -, hmade, hages⟩ :=
    Advances.enters.run (Ledger.Fades.refl _) Execution.Ages.trans Advances.reachable
      hboot.reachable hlife hrow
  · exact absurd hrecord hboot.holdsNoRecord
  · have hsame : row.outcome = record.outcome := by
      obtain rfl | rfl := hages
      · rfl
      · rfl
    rw [hsame]
    cases hmade with
    | run served meets authenticated known keyless recorded answered stored =>
      obtain ⟨resolved, plan, -, rfl⟩ := recorded.made
      exact (meets plan.program plan.args plan.env _ _).consistent

/-! ### How records go -/

/-- The hook of a record was there, and is not any more. -/
def Execution.LosesHook (x : Execution) (before after : List Hook) : Prop :=
  ∃ hook ∈ before, hook.id = x.hookId ∧ hook ∉ after

/-- The steps that strike a record: somebody who manages its hook deletes it, the
master purges what is old or removes the hook, or a sweep does one or the other
by the configured window. -/
inductive StrikesRecord (P : RequestCondition) (s t : Service) (x : Execution) : Prop
  | erased {ctx : Context} {clock : AuthClock} {http : HttpRequest} {key : ApiKey} {hook : Hook}
      {w₁ : World}
      (authenticated : (authenticate ctx clock (.admin http (.deleteExecution x.id))).run Op.exec
        s.world = (.ok (.admin key (.deleteExecution x.id)), w₁))
      (mem : hook ∈ s.world.db.hooks) (about : hook.id = x.hookId)
      (may : hook.ownerKeyId = some key.id ∨ s.world.db.MayManage key hook.id)
  | purged {ctx : Context} {clock : AuthClock} {http : HttpRequest} {key : ApiKey}
      {query : PurgeQuery} {w₁ : World} {days : Int}
      (authenticated : (authenticate ctx clock (.admin http (.purgeExecutions query))).run Op.exec
        s.world = (.ok (.admin key (.purgeExecutions query)), w₁))
      (master : key.isMaster = true) (positive : 0 < days)
      (old : x.timestamp < ctx.draws.now 0 - days * nanosPerDay)
  | unhooked {ctx : Context} {clock : AuthClock} {http : HttpRequest} {key : ApiKey}
      {request : AdminRequest} {w₁ : World}
      (authenticated : (authenticate ctx clock (.admin http request)).run Op.exec s.world =
        (.ok (.admin key request), w₁))
      (master : key.isMaster = true) (loses : x.LosesHook s.world.db.hooks t.world.db.hooks)
  | expired {now : DateTime} (positive : 0 < s.state.config.logRetentionDays)
      (old : x.timestamp < now - s.state.config.logRetentionDays * nanosPerDay)
  | emptied {now : DateTime} (positive : 0 < s.state.config.deletedHookRetentionDays)
      (loses : x.LosesHook (s.world.db.hooks.filter fun hook => hook.trashedBefore
        (now - s.state.config.deletedHookRetentionDays * nanosPerDay)) t.world.db.hooks)

section Loss

variable {P : RequestCondition} {s t : Service} {ctx : Context} {key : ApiKey} {w : World}
  {x : Execution}

/-- What is deleted with its hook. -/
theorem Database.deleteHooks_leaves {db : Database} (c : HookCondition) (hx : x ∈ db.executions) :
    x ∈ (db.deleteHooks c).2.executions ∨
      x.LosesHook (db.hooks.filter c.holds) (db.deleteHooks c).2.hooks := by
  by_cases hgone : (db.hooks.any fun h => h.id == x.hookId && c.holds h) = true
  · obtain ⟨hook, hmem, hholds⟩ := List.any_eq_true.mp hgone
    rw [Bool.and_eq_true, beq_iff_eq] at hholds
    refine .inr ⟨hook, List.mem_filter.mpr ⟨hmem, hholds.2⟩, hholds.1, fun hkept => ?_⟩
    have hkept' := (List.mem_filter.mp hkept).2
    rw [hholds.2] at hkept'
    cases hkept'
  · exact .inl (List.mem_filter.mpr ⟨hx, by simpa using hgone⟩)

theorem Execution.LosesHook.mono {before before' after : List Hook}
    (h : x.LosesHook before after) (hsub : before ⊆ before') : x.LosesHook before' after := by
  obtain ⟨hook, hmem, hrest⟩ := h
  exact ⟨hook, hsub hmem, hrest⟩

theorem purgeThreshold_ok {now threshold : DateTime} {days : Int}
    (h : purgeThreshold now days = .ok threshold) : threshold = now - days * nanosPerDay := by
  unfold purgeThreshold at h
  dsimp only at h
  split at h
  · cases h
  · exact (Except.ok.inj h).symm

theorem purgeExpiredExecutions_leaves (now : DateTime) (days : Int) (hx : x ∈ w.db.executions) :
    x ∈ ((purgeExpiredExecutions now days).run Op.exec w).2.db.executions ∨
      0 < days ∧ x.timestamp < now - days * nanosPerDay := by
  unfold purgeExpiredExecutions
  split
  · exact .inl hx
  · rename_i hdays
    cases hthreshold : purgeThreshold now days with
    | error e => exact .inl hx
    | ok threshold =>
      obtain rfl := purgeThreshold_ok hthreshold
      by_cases hold : x.timestamp < now - days * nanosPerDay
      · exact .inr ⟨not_le.mp hdays, hold⟩
      · refine .inl (List.mem_filter.mpr ⟨hx, ?_⟩)
        simp [ExecutionCondition.holds, not_lt.mp hold]

theorem purgeExpiredDeletedHooks_leaves (now : DateTime) (days : Int) (hx : x ∈ w.db.executions) :
    x ∈ ((purgeExpiredDeletedHooks now days).run Op.exec w).2.db.executions ∨ 0 < days ∧
      x.LosesHook (w.db.hooks.filter fun hook => hook.trashedBefore (now - days * nanosPerDay))
        ((purgeExpiredDeletedHooks now days).run Op.exec w).2.db.hooks := by
  unfold purgeExpiredDeletedHooks
  split
  · exact .inl hx
  · rename_i hdays
    cases hthreshold : purgeThreshold now days with
    | error e => exact .inl hx
    | ok threshold =>
      obtain rfl := purgeThreshold_ok hthreshold
      obtain hkept | hloses := w.db.deleteHooks_leaves
        (.and (.isDeleted true) (.deletedBefore (now - days * nanosPerDay))) hx
      · exact .inl hkept
      · refine .inr ⟨not_le.mp hdays, hloses.mono fun hook hmem => ?_⟩
        simpa [HookCondition.holds, Hook.trashedBefore] using hmem

/-- What is still there after a statement is still there after the audit row. -/
theorem leaves_rest {α : Type} {p : Handler α} {v : World} (gone : List Hook → Prop)
    (hp : p.Emits (WritesAmong [.insertAuditLog])) (h : x ∈ v.db.executions ∨ gone v.db.hooks) :
    x ∈ (p.run Op.exec v).2.db.executions ∨ gone (p.run Op.exec v).2.db.hooks := by
  rw [Handler.run_hooks_eq hp (by decide), show (p.run Op.exec v).2.db.executions =
    v.db.executions from Handler.run_agree (t := .executions) hp (by decide) v]
  exact h

/-- Somebody who manages the hook of a record deleted it. -/
def Erased (key : ApiKey) (db : Database) (x : Execution) : Prop :=
  ∃ hook ∈ db.hooks, hook.id = x.hookId ∧
    (hook.ownerKeyId = some key.id ∨ db.MayManage key hook.id)

theorem deleteExecution_leaves (ctx : Context) (key : ApiKey) (id : Uuid)
    (hdistinct : w.db.DistinctExecutions) (hx : x ∈ w.db.executions) :
    x ∈ ((deleteExecution ctx key id).run Op.exec w).2.db.executions ∨
      x.id = id ∧ Erased key w.db x := by
  let K : World → Prop := fun t => x ∈ t.db.executions ∨ x.id = id ∧ Erased key w.db x
  refine Program.run_bind_read (K := K) (by simp) (.inl hx) fun found hfound => ?_
  refine Program.run_bind_read (K := K) (by simp) (.inl hx) fun model hmodel => ?_
  refine Program.run_bind_read (K := K) (by simp) (.inl hx) fun foundHook hfoundHook => ?_
  refine Program.run_bind_read (K := K) (by simp) (.inl hx) fun hook hhook => ?_
  refine Program.run_bind_read (K := K) (guardManage_snd _ _ _) (.inl hx) fun _ hguard => ?_
  refine Handler.bind_keep (K := fun db => x ∈ db.executions ∨ x.id = id ∧ Erased key w.db x) ?_
    fun _ _ h => leaves_rest (fun _ => x.id = id ∧ Erased key w.db x)
      (createAuditLog_writes (by decide) _ _ _ _ _ _) h
  rw [run_sql_snd]
  by_cases hid : x.id = id
  · subst hid
    rw [run_findExecutionById, hdistinct.find?_eq hx] at hfound
    cases hfound
    rw [run_orElse] at hmodel
    cases hmodel
    rw [run_findHookById] at hfoundHook
    cases hfoundHook
    rw [run_orElse] at hhook
    cases hnamed : w.db.hookWithId x.hookId with
    | none =>
      rw [hnamed] at hhook
      cases hhook
    | some found =>
      rw [hnamed] at hhook
      cases hhook
      obtain ⟨hmem, hid⟩ := Database.hookWithId_mem hnamed
      exact .inr ⟨rfl, hook, hmem, hid, (guardManage_ok.mp hguard).2⟩
  · exact .inl (List.mem_filter.mpr ⟨hx, by simp [ExecutionCondition.holds, hid]⟩)

theorem purgeExecutions_leaves (ctx : Context) (key : ApiKey) (query : PurgeQuery)
    (hx : x ∈ w.db.executions) :
    x ∈ ((purgeExecutions ctx key query).run Op.exec w).2.db.executions ∨
      key.isMaster = true ∧ ∃ days, 0 < days ∧
        x.timestamp < ctx.draws.now 0 - days * nanosPerDay := by
  let purged : Prop := key.isMaster = true ∧
    ∃ days, 0 < days ∧ x.timestamp < ctx.draws.now 0 - days * nanosPerDay
  let K : World → Prop := fun t => x ∈ t.db.executions ∨ purged
  refine Program.run_bind_read (K := K) (by simp) (.inl hx) fun _ hrequire => ?_
  refine Program.run_bind_read (K := K) (by simp) (.inl hx) fun days _ => ?_
  refine Handler.bind_keep (K := fun db => x ∈ db.executions ∨ purged) ?_ fun _ _ h =>
    leaves_rest (fun _ => purged) ((createAuditLog_writes (by decide) _ _ _ _ _ _).bind
      fun _ => trivial) h
  exact (purgeExpiredExecutions_leaves _ days hx).imp id fun hold =>
    ⟨isMaster_of_require hrequire, days, hold⟩

/-- The master removed the hook. -/
def Unhooked (key : ApiKey) (db : Database) (x : Execution) (hooks : List Hook) : Prop :=
  key.isMaster = true ∧ x.LosesHook db.hooks hooks

theorem deleteHook_leaves (ctx : Context) (key : ApiKey) (identifier : String)
    (query : DeleteHookQuery) (hx : x ∈ w.db.executions) :
    x ∈ ((deleteHook ctx key identifier query).run Op.exec w).2.db.executions ∨
      Unhooked key w.db x ((deleteHook ctx key identifier query).run Op.exec w).2.db.hooks := by
  let K : World → Prop := fun t => x ∈ t.db.executions ∨ Unhooked key w.db x t.db.hooks
  have hresolve : ((if query.hard.getD false then resolveHookIncludingDeleted identifier
      else resolveHook identifier).run Op.exec w).2 = w := by
    split <;> simp
  refine Program.run_bind_read (K := K) hresolve (.inl hx) fun model _ => ?_
  refine Program.run_bind_read (K := K) (guardManage_snd _ _ _) (.inl hx) fun _ _ => ?_
  refine Program.run_bind_read (K := K) (by simp) (.inl hx) fun _ _ => ?_
  refine Program.run_bind_read (K := K) (by simp) (.inl hx) fun _ _ => ?_
  cases query.hard.getD false with
  | true =>
    refine Program.run_bind_read (K := K) (by simp) (.inl hx) fun _ hrequire => ?_
    refine Handler.bind_keep (K := fun db => x ∈ db.executions ∨ Unhooked key w.db x db.hooks) ?_
      fun _ _ h => leaves_rest _ (.bind (Program.emits_require _ _) fun _ =>
        createAuditLog_writes (by decide) _ _ _ _ _ _) h
    rw [run_sql_snd]
    exact (w.db.deleteHooks_leaves (.idEq model.id) hx).imp id fun hloses =>
      ⟨isMaster_of_require hrequire, hloses.mono (List.filter_subset_self _)⟩
  | false =>
    refine Handler.bind_keep (K := fun db => x ∈ db.executions ∨ Unhooked key w.db x db.hooks) ?_
      fun _ _ h => leaves_rest _ (.bind (Program.emits_require _ _) fun _ =>
        createAuditLog_writes (by decide) _ _ _ _ _ _) h
    rw [run_sql_snd]
    refine .inl ?_
    rw [Stmt.exec_agree (t := .executions) _ w.db (by simp [Stmt.write?, Write.tables])]
    exact hx

theorem purgeDeletedHooks_leaves (ctx : Context) (key : ApiKey) (query : PurgeQuery)
    (hx : x ∈ w.db.executions) :
    x ∈ ((purgeDeletedHooks ctx key query).run Op.exec w).2.db.executions ∨
      Unhooked key w.db x ((purgeDeletedHooks ctx key query).run Op.exec w).2.db.hooks := by
  let K : World → Prop := fun t => x ∈ t.db.executions ∨ Unhooked key w.db x t.db.hooks
  refine Program.run_bind_read (K := K) (by simp) (.inl hx) fun _ hrequire => ?_
  refine Program.run_bind_read (K := K) (by simp) (.inl hx) fun days _ => ?_
  refine Handler.bind_keep (K := fun db => x ∈ db.executions ∨ Unhooked key w.db x db.hooks) ?_
    fun _ _ h => leaves_rest _ ((createAuditLog_writes (by decide) _ _ _ _ _ _).bind
      fun _ => trivial) h
  exact (purgeExpiredDeletedHooks_leaves _ days hx).imp id fun hloses =>
    ⟨isMaster_of_require hrequire, hloses.2.mono (List.filter_subset_self _)⟩

/-- What an administrative request strikes, and who makes it. -/
theorem handleAdmin_leaves (ctx : Context) (key : ApiKey) (request : AdminRequest)
    (hdistinct : w.db.DistinctExecutions) (hx : x ∈ w.db.executions) :
    (∃ y ∈ ((handleAdmin ctx key request).run Op.exec w).2.db.executions, x.Ages y) ∨
      request = .deleteExecution x.id ∧ Erased key w.db x ∨
      (∃ query, request = .purgeExecutions query) ∧ key.isMaster = true ∧
        (∃ days, 0 < days ∧ x.timestamp < ctx.draws.now 0 - days * nanosPerDay) ∨
      Unhooked key w.db x ((handleAdmin ctx key request).run Op.exec w).2.db.hooks := by
  by_cases hkept : .deleteExecutions ∈ request.writes ∨ .deleteHooks ∈ request.writes
  · cases request with
    | deleteExecution id =>
      rw [handleAdmin, Program.run_map]
      obtain hstill | ⟨hid, herased⟩ := deleteExecution_leaves ctx key id hdistinct hx
      · exact .inl ⟨x, hstill, .refl _ x⟩
      · exact .inr (.inl ⟨by rw [hid], herased⟩)
    | purgeExecutions query =>
      rw [handleAdmin, Program.run_map]
      obtain hstill | hpurged := purgeExecutions_leaves ctx key query hx
      · exact .inl ⟨x, hstill, .refl _ x⟩
      · exact .inr (.inr (.inl ⟨⟨query, rfl⟩, hpurged⟩))
    | deleteHook identifier query =>
      rw [handleAdmin, Program.run_map]
      obtain hstill | hunhooked := deleteHook_leaves ctx key identifier query hx
      · exact .inl ⟨x, hstill, .refl _ x⟩
      · exact .inr (.inr (.inr hunhooked))
    | purgeDeletedHooks query =>
      rw [handleAdmin, Program.run_map]
      obtain hstill | hunhooked := purgeDeletedHooks_leaves ctx key query hx
      · exact .inl ⟨x, hstill, .refl _ x⟩
      · exact .inr (.inr (.inr hunhooked))
    | _ => simp [AdminRequest.writes] at hkept
  · obtain ⟨hexecutions, hhooks⟩ := not_or.mp hkept
    exact .inl (Handler.run_noneLost (handleAdmin_writes ctx key request) hexecutions hhooks w x hx)

/-- One step accounts for every record it finds. -/
theorem Advances.leaves : Ledger.Leaves Service.Reached (Advances P) Service.HoldsRecord
    Execution.Ages (StrikesRecord P) := by
  intro s t x hreached hstep hx
  cases hstep with
  | @restarts state' w' start started =>
    have hsame := boot_agree (t := .executions) (by decide) started
    refine .inl ⟨x, ?_, .refl _ x⟩
    rwa [Service.HoldsRecord, show w'.db.executions = s.world.db.executions from hsame]
  | serves ctx clock req served meets =>
    cases req with
    | invoke inv =>
      exact .inl (Handler.run_noneLost (serve_invoke_writes ctx clock inv) (by decide) (by decide)
        s.world x hx)
    | admin http request =>
      cases hauth : (authenticate ctx clock (.admin http request)).run Op.exec s.world with
      | mk r w₁ =>
        have hdb : w₁.db = s.world.db := authenticate_db hauth
        cases r with
        | error e =>
          refine .inl ⟨x, ?_, .refl _ x⟩
          rw [Service.HoldsRecord, serve, Program.bind_eq, Program.run_bind_error hauth, hdb]
          exact hx
        | ok a =>
          obtain ⟨key, rfl⟩ := authenticated_admin hauth
          have hstored := congrArg (fun out => out.2.db) (run_serve_admin hauth)
          have hmem : x ∈ w₁.db.executions := by
            rw [hdb]
            exact hx
          have hleaves := handleAdmin_leaves ctx key request (hdb ▸ hreached.distinctExecutions) hmem
          rw [hdb] at hleaves
          obtain ⟨y, hy, hages⟩ | ⟨rfl, hook, hmem, hid, hmay⟩ |
            ⟨⟨query, rfl⟩, hmaster, days, hpositive, hold⟩ | ⟨hmaster, hloses⟩ := hleaves
          · exact .inl ⟨y, by rwa [Service.HoldsRecord, hstored], hages⟩
          · exact .inr (.erased hauth hmem hid hmay)
          · exact .inr (.purged hauth hmaster hpositive hold)
          · exact .inr (.unhooked hauth hmaster (by rwa [hstored]))
  | sweepsExecutions now =>
    obtain hstill | ⟨hpositive, hold⟩ :=
      purgeExpiredExecutions_leaves now s.state.config.logRetentionDays hx
    · exact .inl ⟨x, hstill, .refl _ x⟩
    · exact .inr (.expired hpositive hold)
  | sweepsDeletedHooks now =>
    obtain hstill | ⟨hpositive, hloses⟩ :=
      purgeExpiredDeletedHooks_leaves now s.state.config.deletedHookRetentionDays hx
    · exact .inl ⟨x, hstill, .refl _ x⟩
    · exact .inr (.emptied hpositive hloses)

end Loss

section Sample

open Sample

/-- The maker runs the hook it created. -/
def makerRuns : Request :=
  .invoke ⟨.execute, "deploy", deploy_isSegment, "POST", "/api/hooks/deploy/execute",
    ⟨[keyHeader parentKey]⟩, []⟩

def ranOnce : World := ((serve (ctx 3) clock makerRuns).run Op.exec withOwned).2

def makerRecord : Execution :=
  { id := 301
    hookId := 201
    apiKeyId := some 101
    status := .success
    exitCode := some 0
    stdout := ""
    stderr := ""
    parametersJson := "\x7b\x7d"
    durationMs := 1
    timestamp := epochSeconds * nanosPerSecond }

theorem ranOnce_executions : ranOnce.db.executions = [makerRecord] := by decide

theorem lives_ranOnce {P : RequestCondition} (hmint : P booted (ctx 1) clock mintMaker)
    (hmake : P withMaker (ctx 2) clock makeHook) (hrun : P withOwned (ctx 3) clock makerRuns) :
    Lives P ⟨Sample.state, booted⟩ ⟨Sample.state, ranOnce⟩ :=
  .tail (runs_withOwned hmint hmake).lives (.serves (ctx 3) clock makerRuns rfl hrun)

theorem makerRecord_mem : makerRecord ∈ ranOnce.db.executions := by
  rw [ranOnce_executions]
  exact List.mem_singleton_self _

/-- A script that writes nothing and exits with zero after a millisecond. -/
theorem os_supervises : Sample.os.Supervises := by
  intro program args env timeoutSeconds maxOutputBytes
  have hcloses : Supervised true maxOutputBytes _ := .tail .refl (.out (.closes rfl))
  have hends : Supervised true maxOutputBytes _ := .tail hcloses (.out (.ends rfl rfl rfl))
  have hcloses' : Supervised true maxOutputBytes _ := .tail hends (.err (.closes rfl))
  have hends' : Supervised true maxOutputBytes _ := .tail hcloses' (.err (.ends rfl rfl rfl))
  have hexits : Supervised true maxOutputBytes _ := .tail hends' (.exits (.exited 0) rfl)
  have hwaits : Supervised true maxOutputBytes _ := .tail hexits (.supervisor (.waits rfl rfl))
  have hjoins : Supervised true maxOutputBytes _ := .tail hwaits (.supervisor (.joinsOut rfl rfl))
  have hdone : Supervised true maxOutputBytes _ :=
    .tail hjoins (.supervisor (.joinsErr rfl rfl 1))
  refine .finishes hdone ?_
  have hempty : finishStream ⟨[], false⟩ = "" := by decide
  show Control.finished ⟨.success, some 0, finishStream ⟨[], false⟩, finishStream ⟨[], false⟩, 1⟩ =
    .finished ⟨.success, some 0, "", "", 1⟩
  rw [hempty]

theorem records_consistent_maker : makerRecord.outcome.Consistent :=
  records_consistent (s := ⟨Sample.state, booted⟩) (t := ⟨Sample.state, ranOnce⟩)
    ⟨start, boot_start⟩ (lives_ranOnce os_supervises os_supervises os_supervises) makerRecord_mem

/-- The master deletes the record. -/
def eraseRecord : Request :=
  .admin (bearer "/executions/00000000-0000-0000-0000-00000000012d" masterKey) (.deleteExecution 301)

def erasedOnce : World := ((serve (ctx 4) clock eraseRecord).run Op.exec ranOnce).2

theorem erasedOnce_executions : erasedOnce.db.executions = [] := by decide

end Sample

end HookExecutor
