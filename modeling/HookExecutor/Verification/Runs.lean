import HookExecutor.Verification.Reachability

/-!
# Runs of requests

A process that has been started serves requests one at a time, from anybody and
in any order. A run may be asked to meet a condition at every request, on the
request and on the world it is served in. What every such request keeps is kept
by the run.
-/

namespace HookExecutor

/-- A world a first start leaves: the master is minted and pinned. -/
def Bootstrapped (state : AppState) (w : World) : Prop :=
  ∃ start, (boot state start).run Op.exec (startProcess state start .empty) = (.ok (), w)

/-- A condition on one request and the world it is served in. -/
abbrev RequestCondition := World → Context → AuthClock → Request → Prop

/-- One request that meets the condition takes the process from one world to the
next. -/
def Served (state : AppState) (P : RequestCondition) (w w' : World) : Prop :=
  ∃ ctx clock req, ctx.state = state ∧ P w ctx clock req ∧
    ((serve ctx clock req).run Op.exec w).2 = w'

/-- Any number of requests, each of which meets the condition. -/
def Runs (state : AppState) (P : RequestCondition) : World → World → Prop :=
  Relation.ReflTransGen (Served state P)

variable {state : AppState} {P : RequestCondition} {w w' : World}

theorem Bootstrapped.reachable (h : Bootstrapped state w) : Reachable state w := by
  obtain ⟨start, hstarted⟩ := h
  exact .start start hstarted

theorem pinAtBoot_writes {W : List Write} : pinAtBoot.Emits (WritesAmong W) := by
  refine .bind resolveInner_writes fun found => ?_
  cases found with
  | error e => trivial
  | ok id => simp

theorem boot_writes (state : AppState) (start : Startup) :
    (boot state start).Emits (WritesAmong [.insertApiKey]) := by
  refine .bind (.bind (emits_read rfl) fun existing => ?_) fun _ => pinAtBoot_writes
  cases existing.isEmpty with
  | true => exact .bind (Program.emits_ofExcept _) fun _ => emits_write rfl (by decide)
  | false => trivial

/-- There are no hooks yet. -/
theorem Bootstrapped.hooks (h : Bootstrapped state w) : w.db.hooks = [] := by
  obtain ⟨start, hstarted⟩ := h
  have hkept := Handler.run_agree (t := .hooks) (boot_writes state start) (by decide)
    (startProcess state start .empty)
  rwa [hstarted] at hkept

theorem Runs.reachable (hrun : Runs state P w w') (h : Reachable state w) :
    Reachable state w' := by
  induction hrun with
  | refl => exact h
  | tail _ hstep ih =>
    obtain ⟨ctx, clock, req, hstate, -, rfl⟩ := hstep
    exact ih.serve ctx clock req hstate

/-- What each request that meets the condition keeps, a run of them keeps. -/
theorem Runs.invariant {J : World → Prop} (hrun : Runs state P w w') (h : Reachable state w)
    (hw : J w) (hstep : ∀ {w : World} {ctx : Context} {clock : AuthClock} {req : Request},
      Reachable state w → ctx.state = state → P w ctx clock req → J w →
      J ((serve ctx clock req).run Op.exec w).2) : J w' := by
  induction hrun with
  | refl => exact hw
  | tail hbefore hserved ih =>
    obtain ⟨ctx, clock, req, hstate, hP, rfl⟩ := hserved
    exact hstep (Runs.reachable hbefore h) hstate hP ih

/-- A request reaches no table but the executions, or is an administrative one
and does what its handler does. -/
theorem serve_agree_or_admin (ctx : Context) (clock : AuthClock) (req : Request) (w : World) :
    ((∀ key request w₁, (authenticate ctx clock req).run Op.exec w ≠
          (.ok (.admin key request), w₁)) ∧
        ∀ t ≠ Table.executions, Agree t w.db ((serve ctx clock req).run Op.exec w).2.db) ∨
      ∃ key request w₁, (authenticate ctx clock req).run Op.exec w =
          (.ok (.admin key request), w₁) ∧ w₁.db = w.db ∧
        ((serve ctx clock req).run Op.exec w).2.db =
          ((handleAdmin ctx key request).run Op.exec w₁).2.db := by
  cases hauth : (authenticate ctx clock req).run Op.exec w with
  | mk r w₁ =>
    have hdb : w₁.db = w.db := authenticate_db hauth
    cases r with
    | error e =>
      refine .inl ⟨by simp, fun t _ => ?_⟩
      rw [serve, Program.bind_eq, Program.run_bind_error hauth, ← hdb]
      exact agree_refl t _
    | ok a =>
      cases a with
      | admin key request =>
        refine .inr ⟨key, request, w₁, rfl, hdb, ?_⟩
        rw [run_serve hauth]
        exact congrArg (fun out : Except AppError Response × World => out.2.db)
          (Program.run_map Response.admin _ w₁)
      | invoke key inv =>
        refine .inl ⟨by simp, fun t ht => ?_⟩
        rw [run_serve hauth, ← hdb]
        exact Handler.run_agree (.map _ (handleInvocation_writes ctx inv key))
          (by simpa [Write.tables] using ht) w₁

end HookExecutor
