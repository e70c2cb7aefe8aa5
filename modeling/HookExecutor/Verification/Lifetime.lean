import HookExecutor.Lib.Ledger
import HookExecutor.Verification.Runs

/-!
# The life of the service

The service advances by serving a request, by one sweep of its retention worker,
or by being started again over the database it left. Whatever it can come to from
its first start it comes to by such steps, so what is known of a step is known of
its whole life. As in a run, the requests may be asked to meet a condition.
-/

namespace HookExecutor

/-- A process between two requests. -/
structure Service where
  state : AppState
  world : World

/-- The service can come to this. -/
abbrev Service.Reached (s : Service) : Prop := Reachable s.state s.world

/-- One step of the service. -/
inductive Advances (P : RequestCondition) (s : Service) : Service → Prop
  | restarts {state' : AppState} {w' : World} (start : Startup)
      (started : (boot state' start).run Op.exec (startProcess state' start s.world.db) =
        (.ok (), w')) : Advances P s ⟨state', w'⟩
  | serves (ctx : Context) (clock : AuthClock) (req : Request) (served : ctx.state = s.state)
      (meets : P s.world ctx clock req) :
      Advances P s ⟨s.state, ((serve ctx clock req).run Op.exec s.world).2⟩
  | sweepsExecutions (now : DateTime) : Advances P s
      ⟨s.state, ((purgeExpiredExecutions now s.state.config.logRetentionDays).run Op.exec
        s.world).2⟩
  | sweepsDeletedHooks (now : DateTime) : Advances P s
      ⟨s.state, ((purgeExpiredDeletedHooks now s.state.config.deletedHookRetentionDays).run
        Op.exec s.world).2⟩

/-- Any number of steps. -/
def Lives (P : RequestCondition) : Service → Service → Prop :=
  Relation.ReflTransGen (Advances P)

variable {P : RequestCondition} {s t : Service}

theorem Advances.reachable (h : s.Reached) (hstep : Advances P s t) : t.Reached := by
  cases hstep with
  | restarts start started => exact h.restart start started
  | serves ctx clock req served meets => exact h.serve ctx clock req served
  | sweepsExecutions now => exact h.sweepExecutions now
  | sweepsDeletedHooks now => exact h.sweepDeletedHooks now

theorem Lives.reachable (hlife : Lives P s t) (h : s.Reached) : t.Reached :=
  Ledger.inv_of_run Advances.reachable hlife h

/-- The reachable worlds are what the service comes to from a first start. -/
theorem Reachable.lives {state : AppState} {w : World} (h : Reachable state w) :
    ∃ s : Service, Bootstrapped s.state s.world ∧ Lives (fun _ _ _ _ => True) s ⟨state, w⟩ := by
  induction h with
  | start start started => exact ⟨⟨_, _⟩, ⟨start, started⟩, .refl⟩
  | restart before start started ih =>
    obtain ⟨s, hboot, hlife⟩ := ih
    exact ⟨s, hboot, hlife.tail (.restarts start started)⟩
  | serve before ctx clock req served ih =>
    obtain ⟨s, hboot, hlife⟩ := ih
    exact ⟨s, hboot, hlife.tail (.serves ctx clock req served trivial)⟩
  | sweepExecutions before now ih =>
    obtain ⟨s, hboot, hlife⟩ := ih
    exact ⟨s, hboot, hlife.tail (.sweepsExecutions now)⟩
  | sweepDeletedHooks before now ih =>
    obtain ⟨s, hboot, hlife⟩ := ih
    exact ⟨s, hboot, hlife.tail (.sweepsDeletedHooks now)⟩

/-- A run of requests is part of a life. -/
theorem Runs.lives {state : AppState} {w w' : World} (hrun : Runs state P w w') :
    Lives P ⟨state, w⟩ ⟨state, w'⟩ := by
  induction hrun with
  | refl => exact .refl
  | tail _ hserved ih =>
    obtain ⟨ctx, clock, req, hstate, hP, rfl⟩ := hserved
    exact ih.tail (.serves ctx clock req hstate hP)

/-- What a start can do to a database: insert the master. -/
theorem boot_agree {state : AppState} {start : Startup} {v w : World} {t : Table}
    (ht : t ≠ .apiKeys) (hrun : (boot state start).run Op.exec v = (.ok (), w)) :
    Agree t v.db w.db := by
  have hkept := Handler.run_agree (t := t) (boot_writes state start)
    (by simpa [Write.tables] using ht) v
  rwa [hrun] at hkept

/-- There is no history before the first request. -/
theorem Bootstrapped.executions {state : AppState} {w : World} (h : Bootstrapped state w) :
    w.db.executions = [] := by
  obtain ⟨start, hstarted⟩ := h
  exact boot_agree (t := .executions) (by decide) hstarted

theorem Bootstrapped.auditLogs {state : AppState} {w : World} (h : Bootstrapped state w) :
    w.db.auditLogs = [] := by
  obtain ⟨start, hstarted⟩ := h
  exact boot_agree (t := .auditLogs) (by decide) hstarted

/-! ### The two halves of serving a request -/

/-- The middleware of the administrative routes hands on the request it was given. -/
theorem serve_admin_eq (ctx : Context) (clock : AuthClock) (http : HttpRequest)
    (request : AdminRequest) : serve ctx clock (.admin http request) =
      (authMiddleware ctx.state clock ctx.clientIp http).bind fun key =>
        .admin <$> handleAdmin ctx key request :=
  Program.bind_assoc _ _ _

theorem serve_invoke_eq (ctx : Context) (clock : AuthClock) (inv : Invocation) :
    serve ctx clock (.invoke inv) =
      (invocationAuthMiddleware ctx.state clock ctx.clientIp inv.toHttp).bind fun key =>
        .invocation <$> handleInvocation ctx inv key :=
  Program.bind_assoc _ _ _

theorem serve_admin_writes (ctx : Context) (clock : AuthClock) (http : HttpRequest)
    (request : AdminRequest) :
    (serve ctx clock (.admin http request)).Emits (WritesAmong request.writes) := by
  rw [serve_admin_eq]
  exact .bind (.bind (emits_orElse _ _) fun _ => authenticateBearerKey_writes _ _ _ _ _ _)
    fun key => .map _ (handleAdmin_writes ctx key request)

theorem serve_invoke_writes (ctx : Context) (clock : AuthClock) (inv : Invocation) :
    (serve ctx clock (.invoke inv)).Emits (WritesAmong [.insertExecution]) := by
  rw [serve_invoke_eq]
  exact (invocationAuthMiddleware_writes _ _ _ _).bind fun key =>
    .map _ (handleInvocation_writes ctx inv key)

/-- The middleware of the invocation routes hands on the invocation it was given. -/
theorem authenticated_invoke {ctx : Context} {clock : AuthClock} {inv : Invocation} {w w' : World}
    {a : Authenticated}
    (h : (authenticate ctx clock (.invoke inv)).run Op.exec w = (.ok a, w')) :
    ∃ caller, a = .invoke caller inv := by
  simp only [authenticate, Program.map_eq, Program.run_bind_eq_ok_iff, Program.run_pure] at h
  obtain ⟨caller, _, -, hret⟩ := h
  cases hret
  exact ⟨caller, rfl⟩

theorem authenticated_admin {ctx : Context} {clock : AuthClock} {http : HttpRequest}
    {request : AdminRequest} {w w' : World} {a : Authenticated}
    (h : (authenticate ctx clock (.admin http request)).run Op.exec w = (.ok a, w')) :
    ∃ key, a = .admin key request := by
  simp only [authenticate, Program.map_eq, Program.run_bind_eq_ok_iff, Program.run_pure] at h
  obtain ⟨key, _, -, hret⟩ := h
  cases hret
  exact ⟨key, rfl⟩

end HookExecutor
