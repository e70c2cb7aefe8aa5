import HookExecutor.Verification.Keyless
import HookExecutor.Verification.Reachability
import HookExecutor.Verification.TwoWorlds

/-!
# The world without a hook

A hook is gone when its row is, and its parameters, permissions and executions
with it. What the middleware makes of a request does not depend on any of them,
save for the hook an invocation names.
-/

namespace HookExecutor

/-- As a hard delete of the hook leaves it. -/
def Database.withoutHook (db : Database) (id : Uuid) : Database :=
  { db with
    hooks := db.hooks.filter (·.id != id)
    hookParameters := db.hookParameters.filter (·.hookId != id)
    permissions := db.permissions.filter (·.hookId != id)
    executions := db.executions.filter (·.hookId != id) }

/-! ### What identifiers name -/

section Naming

variable {db : Database} {hook : Hook}

/-- No other hook has the hook's id for a name. -/
def Database.Unshadowed (db : Database) (hook : Hook) : Prop :=
  ∀ g ∈ db.hooks, Uuid.parseStr g.name = some hook.id → g.id = hook.id

/-- Where at most one row can be found, filtering first or last is the same. -/
theorem find?_filter_of_unique {α : Type} {l : List α} {p q : α → Bool}
    (hunique : ∀ a ∈ l, ∀ b ∈ l, q a = true → q b = true → a = b) :
    (l.filter p).find? q = (l.find? q).filter p := by
  have hfound : ∀ a, l.find? q = some a → a ∈ l ∧ q a = true := fun a ha =>
    ⟨List.mem_of_find?_eq_some ha, List.find?_some ha⟩
  cases hleft : (l.filter p).find? q with
  | some b =>
    obtain ⟨hb, hp⟩ := List.mem_filter.mp (List.mem_of_find?_eq_some hleft)
    have hq := List.find?_some hleft
    cases hright : l.find? q with
    | none => exact absurd hq (List.find?_eq_none.mp hright b hb)
    | some a =>
      obtain rfl := hunique a (hfound a hright).1 b hb (hfound a hright).2 hq
      rw [Option.filter_some, if_pos hp]
  | none =>
    cases hright : l.find? q with
    | none => rfl
    | some a =>
      have hlost : ¬p a = true := fun hp =>
        List.find?_eq_none.mp hleft a (List.mem_filter.mpr ⟨(hfound a hright).1, hp⟩)
          (hfound a hright).2
      rw [Option.filter_some, if_neg hlost]

theorem Database.withoutHook_hookWithId (hwf : db.WellFormed) (id j : Uuid) :
    (db.withoutHook id).hookWithId j = (db.hookWithId j).filter (·.id != id) :=
  find?_filter_of_unique fun a ha b hb hqa hqb => hwf.hook_eq_of_id ha hb <| by
    rw [beq_iff_eq.mp hqa, beq_iff_eq.mp hqb]

theorem Database.withoutHook_hookByName (hwf : db.WellFormed) (id : Uuid) (name : String) :
    (db.withoutHook id).hookByName name = (db.hookByName name).filter (·.id != id) :=
  find?_filter_of_unique fun a ha b hb hqa hqb => List.inj_on_of_nodup_map hwf.hookNames ha hb <| by
    rw [beq_iff_eq.mp hqa, beq_iff_eq.mp hqb]

/-- An identifier that named the hook names nothing, and every other what it
named. -/
theorem Database.withoutHook_resolve (hwf : db.WellFormed) (hfree : db.Unshadowed hook)
    (identifier : String) :
    (db.withoutHook hook.id).resolve identifier =
      (db.resolve identifier).filter (·.id != hook.id) := by
  unfold Database.resolve
  rw [Database.withoutHook_hookByName hwf]
  cases hparse : Uuid.parseStr identifier with
  | none => rfl
  | some j =>
    simp only [Option.bind_some, Database.withoutHook_hookWithId hwf]
    cases hfound : db.hookWithId j with
    | none => rfl
    | some g =>
      obtain ⟨-, rfl⟩ := Database.hookWithId_mem hfound
      rw [Option.some_or, Option.filter_some]
      by_cases hid : g.id = hook.id
      · rw [if_neg (by simpa using hid), Option.none_or]
        cases hname : db.hookByName identifier with
        | none => rfl
        | some other =>
          have hshadow : other.id = hook.id := by
            refine hfree other (List.mem_of_find?_eq_some hname) ?_
            rw [show other.name = identifier by simpa using List.find?_some hname, hparse, hid]
          rw [Option.filter_some, if_neg (by simpa using hshadow)]
      · rw [if_pos (by simpa using hid), Option.some_or]

theorem Database.withoutHook_resolveLive (hwf : db.WellFormed) (hfree : db.Unshadowed hook)
    (hhook : hook ∈ db.hooks) (htrashed : hook.isDeleted = true) (identifier : String) :
    (db.withoutHook hook.id).resolveLive identifier = db.resolveLive identifier := by
  unfold Database.resolveLive
  rw [Database.withoutHook_resolve hwf hfree]
  cases hres : db.resolve identifier with
  | none => rfl
  | some g =>
    rw [Option.filter_some]
    split
    · rfl
    · rename_i hid
      obtain rfl : g = hook :=
        hwf.hook_eq_of_id (Database.resolve_mem hres) hhook (by simpa using hid)
      rw [Option.filter_some, if_neg (by simp [htrashed])]
      rfl

end Naming

/-! ### Authentication looks at keys -/

/-- A query that looks at no table but the keys, and changes none. -/
def KeysOnly : ∀ β, Op β → Prop
  | _, .db (.selectApiKeys _ _) | _, .checkAndRecord _ _ _ | _, .pinnedMaster
  | _, .pinMaster _ => True
  | _, _ => False

section KeysOnly

variable {α : Type} {w : World} {db : Database}

/-- Such queries are answered alike over any database with the same keys. -/
theorem run_withDb_of_keysOnly {p : Handler α} (hp : p.Emits KeysOnly)
    (hkeys : db.apiKeys = w.db.apiKeys) :
    p.run Op.exec (w.withDb db) = ((p.run Op.exec w).1, (p.run Op.exec w).2.withDb db) := by
  let R : World → World → Prop := fun s t => t = s.withDb db ∧ db.apiKeys = s.db.apiKeys
  have hstep : ∀ β (q : Op β), KeysOnly β q → ∀ s t, R s t →
      (Op.exec β q s).1 = (Op.exec β q t).1 ∧ R (Op.exec β q s).2 (Op.exec β q t).2 := by
    rintro β q hq s _ ⟨rfl, hkeys⟩
    cases q with
    | db s =>
      cases s with
      | selectApiKeys c o =>
        refine ⟨?_, rfl, hkeys⟩
        simp [Op.exec, Stmt.exec, hkeys]
      | _ => exact hq.elim
    | tryAcquire keyId permits => exact hq.elim
    | release permit => exact hq.elim
    | _ => exact ⟨rfl, rfl, hkeys⟩
  have hsame := (hp.mono hstep).lockstep (s := w) (t := w.withDb db) ⟨rfl, hkeys⟩
  exact Prod.ext hsame.1.symm hsame.2.1

theorem resolveInner_keysOnly : resolveInner.Emits KeysOnly :=
  .bind (p := trySql _) ((emits_trySql _).mpr trivial) fun _ => trivial

theorem authenticatePin_keysOnly (key : ApiKey) : (authenticatePin key).Emits KeysOnly := by
  refine Program.emits_unless (.bind ?_ fun _ => trivial)
  refine .bind (p := .ask _) ⟨trivial, fun _ => trivial⟩ fun pinned => ?_
  cases pinned with
  | some id => trivial
  | none =>
    refine resolveInner_keysOnly.bind fun found => ?_
    cases found with
    | error e => trivial
    | ok id =>
      exact .bind (p := .ask _) ⟨trivial, fun _ => trivial⟩ fun _ => ⟨trivial, fun _ => trivial⟩

theorem checkSignature_keysOnly (state : AppState) (clock : AuthClock) (req : HttpRequest)
    (hook : Option Hook) (key : ApiKey) (presentedTimestamp : Option String) :
    (checkSignature state clock req hook key presentedTimestamp).Emits KeysOnly := by
  unfold checkSignature
  cases req.headers.getStr signatureHeader with
  | none => exact Program.emits_require _ _
  | some signature =>
    exact .bind (Program.emits_ofExcept _) fun _ =>
      .bind (p := .ask _) ⟨trivial, fun _ => trivial⟩ fun _ => Program.emits_require _ _

theorem authenticateBearerKey_keysOnly (state : AppState) (clock : AuthClock)
    (presentedKey : String) (clientIp : IpAddr) (hook : Option Hook) (req : HttpRequest) :
    (authenticateBearerKey state clock presentedKey clientIp hook req).Emits KeysOnly :=
  .bind (Program.emits_ofExcept _) fun _ => .bind (.map _ ((emits_sql _).mpr trivial)) fun _ =>
    .bind (emits_orElse _ _) fun _ => (authenticatePin_keysOnly _).bind fun _ =>
    (checkSignature_keysOnly _ _ _ _ _ _).bind fun _ => .bind (Program.emits_ofExcept _) fun _ =>
    trivial

/-- Whether and how an administrative request is let through depends on the keys
alone. -/
theorem authenticate_admin_withDb (ctx : Context) (clock : AuthClock) (http : HttpRequest)
    (request : AdminRequest) (hkeys : db.apiKeys = w.db.apiKeys) :
    (authenticate ctx clock (.admin http request)).run Op.exec (w.withDb db) =
      (((authenticate ctx clock (.admin http request)).run Op.exec w).1,
        ((authenticate ctx clock (.admin http request)).run Op.exec w).2.withDb db) :=
  run_withDb_of_keysOnly
    (.map _ (.bind (emits_orElse _ _) fun _ => authenticateBearerKey_keysOnly _ _ _ _ _ _)) hkeys

/-- That of an invocation, on the hook its path names besides. -/
theorem authenticate_invoke_withDb (ctx : Context) (clock : AuthClock) (inv : Invocation)
    (hkeys : db.apiKeys = w.db.apiKeys)
    (hlive : db.resolveLive inv.segment = w.db.resolveLive inv.segment) :
    (authenticate ctx clock (.invoke inv)).run Op.exec (w.withDb db) =
      (((authenticate ctx clock (.invoke inv)).run Op.exec w).1,
        ((authenticate ctx clock (.invoke inv)).run Op.exec w).2.withDb db) := by
  have hidentifier : hookIdentifierFromPath inv.toHttp.path = some inv.segment :=
    hookIdentifierFromPath_innerPath inv.route inv.isSegment
  cases hheader : inv.toHttp.headers.getStr apiKeyHeader with
  | some presentedKey =>
    have hrest : ∀ hook, (Authenticated.invoke · inv) <$> some <$> mapFailure
        (authenticateBearerKey ctx.state clock presentedKey ctx.clientIp hook inv.toHttp)
        uniformizeKeyedAuthFailure |>.Emits KeysOnly := fun hook =>
      .map _ (.map _ ((authenticateBearerKey_keysOnly _ _ _ _ _ _).attempt.bind fun _ =>
        Program.emits_ofExcept _))
    have hrun : ∀ v : World, (authenticate ctx clock (.invoke inv)).run Op.exec v =
        ((Authenticated.invoke · inv) <$> some <$> mapFailure
          (authenticateBearerKey ctx.state clock presentedKey ctx.clientIp
            (v.db.resolveLive inv.segment) inv.toHttp) uniformizeKeyedAuthFailure).run Op.exec
              v := by
      intro v
      have hlookup : (Except.toOption <$> (resolveHook inv.segment).attempt : Handler _).run
          Op.exec v = (.ok (v.db.resolveLive inv.segment), v) := by
        cases hlive : v.db.resolveLive inv.segment <;> simp [Program.run_bind, hlive,
          Except.toOption]
      have hprogram : authenticate ctx clock (.invoke inv) =
          (Except.toOption <$> (resolveHook inv.segment).attempt : Handler _).bind fun hook =>
            (Authenticated.invoke · inv) <$> some <$> mapFailure
              (authenticateBearerKey ctx.state clock presentedKey ctx.clientIp hook inv.toHttp)
              uniformizeKeyedAuthFailure := by
        simp only [authenticate, invocationAuthMiddleware, hidentifier, hheader, Program.bind_eq,
          Program.map_eq, Program.bind_assoc]
        rfl
      rw [hprogram, Program.run_bind_ok hlookup]
    rw [hrun, hrun, World.withDb_db, hlive]
    exact run_withDb_of_keysOnly (hrest _) hkeys
  | none =>
    have hrun : ∀ v : World, (authenticate ctx clock (.invoke inv)).run Op.exec v =
        ((v.db.resolveLive inv.segment).elim (.error invocationUnauthorized) fun target =>
          (guardKeyless ctx.state target inv.toHttp).map fun _ => .invoke none inv, v) := by
      intro v
      simp only [authenticate, invocationAuthMiddleware, hidentifier, hheader, Program.bind_eq,
        Program.map_eq, mapFailure, Program.run_bind, run_orElse, Option.elim_some,
        Program.run_attempt, run_resolveHook, Program.run_ofExcept]
      cases v.db.resolveLive inv.segment with
      | none => rfl
      | some target =>
        simp only [Option.elim_some, Except.mapError]
        cases guardKeyless ctx.state target inv.toHttp <;> rfl
    rw [hrun, hrun, World.withDb_db, hlive]

end KeysOnly

end HookExecutor
