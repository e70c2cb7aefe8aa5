import HookExecutor.Verification.ExecutionOracle
import HookExecutor.Verification.HookAbsence

/-!
# A trashed hook looks gone

Every route but three resolves live hooks only, so what it answers about a hook
in the trash is what it answers about one that never was. Restoring and the view
of the trash refuse a caller that is not the master before they look; the hard
delete looks first. And the rows a caller has on a hook outlive its deletion:
they are what lets it address the permission routes, and see other keys there.
-/

namespace HookExecutor

section Handlers

variable {ctx : Context} {key : ApiKey} {w : World} {identifier : String}

/-- The requests that name a hook by this identifier. -/
def AdminRequest.Names (identifier : String) : AdminRequest → Prop
  | .getHook i _ | .updateHook i _ | .deleteHook i _ | .restoreHook i | .listHookParameters i
  | .createHookParameter i _ | .updateHookParameter i _ _ | .deleteHookParameter i _
  | .revokeKeyHookPermission _ i => i = identifier
  | .updateKeyHookPermissions _ payload =>
    payload.hookId = some identifier ∨ payload.hookName = some identifier
  | .listExecutions query => nonEmpty query.hook = some identifier
  | _ => False

theorem grantIdentifier_of_names {payload : HookPermInput} {found : String}
    (hnames : payload.hookId = some identifier ∨ payload.hookName = some identifier)
    (hok : grantIdentifier payload = .ok found) : found = identifier := by
  unfold grantIdentifier at hok
  rcases hnames with hid | hname
  · rw [hid] at hok
    cases hname : payload.hookName with
    | none =>
      rw [hname] at hok
      exact (Except.ok.inj hok).symm
    | some _ =>
      rw [hname] at hok
      cases hok
  · rw [hname] at hok
    cases hid : payload.hookId with
    | none =>
      rw [hid] at hok
      exact (Except.ok.inj hok).symm
    | some _ =>
      rw [hid] at hok
      cases hok

/-- What is bound to a lookup of what is not there is not reached. -/
theorem run_resolveHook_bind {α : Type} {f : Hook → Handler α}
    (hnone : w.db.resolveLive identifier = none) :
    ((resolveHook identifier).bind f).run Op.exec w = (.error .notFound, w) := by
  rw [Program.run_bind, run_resolveHook, hnone]
  rfl

/-- The requests that look for a live hook before anything else about it. -/
def AdminRequest.LooksForLive : AdminRequest → Prop
  | .getHook _ query => query.includeDeleted.getD false = false
  | .deleteHook _ query => query.hard.getD false = false
  | .updateHook _ _ | .listHookParameters _ | .createHookParameter _ _ | .updateHookParameter _ _ _
  | .deleteHookParameter _ _ | .listExecutions _ => True
  | _ => False

theorem handleAdmin_unresolved {request : AdminRequest} (hlooks : request.LooksForLive)
    (hnames : request.Names identifier) (hnone : w.db.resolveLive identifier = none) :
    ((handleAdmin ctx key request).run Op.exec w).1 = .error .notFound := by
  have hmap : ∀ {α β : Type} {p : Handler α} (f : α → β), p.run Op.exec w = (.error .notFound, w) →
      ((f <$> p).run Op.exec w).1 = .error .notFound := by
    intro α β p f hp
    rw [Program.run_map, hp]
    rfl
  cases request with
  | getHook i query =>
    obtain rfl := hnames
    refine hmap _ ?_
    rw [getHook, show query.includeDeleted.getD false = false from hlooks]
    exact run_resolveHook_bind hnone
  | deleteHook i query =>
    obtain rfl := hnames
    refine hmap _ ?_
    rw [deleteHook, show query.hard.getD false = false from hlooks]
    exact run_resolveHook_bind hnone
  | updateHook i payload =>
    obtain rfl := hnames
    exact hmap _ (run_resolveHook_bind hnone)
  | listHookParameters i =>
    obtain rfl := hnames
    exact hmap _ (run_resolveHook_bind hnone)
  | createHookParameter i payload =>
    obtain rfl := hnames
    exact hmap _ (run_resolveHook_bind hnone)
  | updateHookParameter i paramId payload =>
    obtain rfl := hnames
    exact hmap _ (run_resolveHook_bind hnone)
  | deleteHookParameter i paramId =>
    obtain rfl := hnames
    exact hmap _ (run_resolveHook_bind hnone)
  | listExecutions query =>
    refine hmap _ ?_
    have hfilters : w.db.executionFilters ctx key query = .error .notFound := by
      rw [Database.executionFilters, optionalAnswer, show nonEmpty query.hook = some identifier
        from hnames]
      simp only [hnone]
      rfl
    rw [listExecutions, Program.bind_eq, Program.run_bind, run_executionFilters, hfilters]
  | _ => exact hlooks.elim

/-- The hard delete of what is not there. -/
theorem deleteHook_hard_unresolved {query : DeleteHookQuery} (hhard : query.hard.getD false = true)
    (hnone : w.db.resolve identifier = none) :
    (deleteHook ctx key identifier query).run Op.exec w = (.error .notFound, w) := by
  unfold deleteHook
  simp only [hhard, if_true, Program.bind_eq, Program.run_bind, run_resolveHookIncludingDeleted,
    hnone, Option.elim_none]

/-- The hard delete by a caller that is not the master: who owns the hook or has
a row on it is refused, anybody else finds nothing. -/
theorem deleteHook_hard_refused {query : DeleteHookQuery} {hook : Hook}
    (hkey : key.isMaster = false) (hhard : query.hard.getD false = true)
    (hfound : w.db.resolve identifier = some hook) :
    if hook.ownerKeyId = some key.id ∨ w.db.permissionOf key.id hook.id ≠ none then
      ∃ message, ((deleteHook ctx key identifier query).run Op.exec w).1 =
        .error (.forbidden message)
    else ((deleteHook ctx key identifier query).run Op.exec w).1 = .error .notFound := by
  unfold deleteHook
  simp only [hhard, if_true, Program.bind_eq, Program.run_bind, run_resolveHookIncludingDeleted,
    hfound, Option.elim_some, run_guardManage, hkey, Bool.false_or]
  by_cases howner : hook.ownerKeyId = some key.id
  · -- the owner passes every guard in front of the master's
    rw [if_pos (.inl howner)]
    simp only [howner, beq_self_eq_true, Database.conjunctionUnless, if_true, Program.run_ofExcept,
      guardLifecycleAuthority, hkey, Bool.false_or, guardMasterForPrivilegedHook,
      Bool.false_eq_true, if_false]
    cases Executor.effectiveRunAsUser hook.runAsUser with
    | none => exact ⟨_, rfl⟩
    | some user => exact ⟨_, rfl⟩
  · have hstranger : (hook.ownerKeyId == some key.id) = false := by simpa using howner
    simp only [hstranger, Database.conjunctionUnless, Bool.false_eq_true, if_false,
      Database.conjunction]
    cases hrow : w.db.permissionOf key.id hook.id with
    | none =>
      rw [if_neg (by simp [howner])]
      rfl
    | some row =>
      rw [if_pos (.inr (Option.some_ne_none _))]
      by_cases hmay : key.canManageKeys = true ∧ row.canManage = true
      · simp only [hmay, and_self, if_true, Except.map, Program.run_ofExcept,
          guardLifecycleAuthority, hkey, hstranger, Bool.or_self, Bool.false_eq_true, if_false]
        exact ⟨_, rfl⟩
      · simp only [hmay, if_false, Except.map]
        exact ⟨_, rfl⟩

theorem revokeKeyHookPermission_unresolved (id : Uuid)
    (hnone : w.db.resolveLive identifier = none) :
    ((revokeKeyHookPermission ctx key id identifier).run Op.exec w).1 =
      .error (if w.db.standing key then .notFound else .forbidden "Permission denied") := by
  unfold revokeKeyHookPermission
  simp only [Program.bind_eq, Program.run_bind, run_hasPermissionAdminStanding, Program.run_require]
  cases w.db.standing key with
  | false => rfl
  | true =>
    simp only [if_true, run_resolveHook, hnone]
    rfl

/-- What a grant on a hook that is not there is answered. -/
def Database.unresolvedGrant (db : Database) (key : ApiKey) (id : Uuid) (payload : HookPermInput) :
    AppError :=
  if db.standing key = false then .forbidden "Permission denied"
  else match db.apiKeyById id with
    | none => .notFound
    | some target =>
      if db.visibility key target = none then .notFound
      else if target.isMaster then .invalidInput "Cannot configure M:N permissions on a master key"
      else match grantIdentifier payload with
        | .error e => e
        | .ok _ => .notFound

theorem updateKeyHookPermissions_unresolved (id : Uuid) (payload : HookPermInput)
    (hnone : ∀ i, grantIdentifier payload = .ok i → w.db.resolveLive i = none) :
    ((updateKeyHookPermissions ctx key id payload).run Op.exec w).1 =
      .error (w.db.unresolvedGrant key id payload) := by
  unfold updateKeyHookPermissions Database.unresolvedGrant
  simp only [Program.bind_eq, Program.run_bind, run_hasPermissionAdminStanding,
    Program.run_require]
  cases w.db.standing key with
  | false => rfl
  | true =>
    simp only [if_true, run_findApiKeyById, run_orElse, Bool.true_eq_false, if_false]
    cases w.db.apiKeyById id with
    | none => rfl
    | some target =>
      simp only [Option.elim_some, run_keyVisibility]
      cases w.db.visibility key target with
      | none => rfl
      | some visibility =>
        simp only [Option.isSome_some, if_true, reduceCtorEq, if_false]
        cases target.isMaster with
        | true => rfl
        | false =>
          simp only [if_true, Bool.false_eq_true, if_false, Program.run_ofExcept]
          cases hgrant : grantIdentifier payload with
          | error e => rfl
          | ok identifier => simp only [run_resolveHook, hnone identifier hgrant, Option.elim_none]

end Handlers

/-! ### With the hook and without it -/

section Compare

variable {db : Database} {key : ApiKey} {hook : Hook}

theorem Database.withoutHook_managedHooks (id keyId : Uuid) :
    (db.withoutHook id).managedHooks keyId = (db.managedHooks keyId).filter (· != id) := by
  unfold Database.managedHooks Database.withoutHook
  rw [List.filter_map, List.filter_filter, List.filter_filter]
  congr 1
  exact List.filter_congr fun p _ => Bool.and_comm _ _

theorem Database.standing_of_withoutHook {id : Uuid}
    (h : (db.withoutHook id).standing key = true) : db.standing key = true := by
  unfold Database.standing at h ⊢
  rw [Database.withoutHook_managedHooks] at h
  simp only [Bool.or_eq_true, Bool.and_eq_true, Bool.not_eq_true', List.isEmpty_eq_false_iff] at h ⊢
  exact h.imp_right fun h => ⟨h.1, fun hnil => h.2 (by rw [hnil]; rfl)⟩

theorem Database.visibility_of_withoutHook {id : Uuid} {target : ApiKey}
    (h : db.visibility key target = none) : (db.withoutHook id).visibility key target = none := by
  have hsubtree : (db.withoutHook id).descendants key.id = db.descendants key.id := rfl
  unfold Database.visibility at h ⊢
  rw [hsubtree]
  split at h
  · cases h
  · rename_i houtside
    rw [if_neg houtside]
    split at h
    · cases h
    · rename_i hunshared
      rw [if_neg]
      simp only [List.any_eq_true, Bool.and_eq_true, not_exists, not_and] at hunshared ⊢
      intro p hp htarget hmanaged
      rw [Database.withoutHook_managedHooks] at hmanaged
      refine hunshared p (List.mem_of_mem_filter hp) htarget ?_
      exact List.contains_iff_mem.mpr (List.mem_of_mem_filter (List.contains_iff_mem.mp hmanaged))

/-- A request about a trashed hook that is answered as if there were none: the
hard delete of a caller with nothing to do with the hook, and grants and
revocations of a caller whose standing, and whose view of the target, do not
rest on that hook. -/
def Database.AnswersAsGone (db : Database) (key : ApiKey) (hook : Hook) : AdminRequest → Prop
  | .deleteHook _ query => query.hard.getD false = true →
    hook.ownerKeyId ≠ some key.id ∧ db.permissionOf key.id hook.id = none
  | .revokeKeyHookPermission _ _ =>
    db.standing key = true → (db.withoutHook hook.id).standing key = true
  | .updateKeyHookPermissions id payload => db.standing key = true →
    (db.withoutHook hook.id).standing key = true ∧
      ∀ target, db.apiKeyById id = some target → db.visibility key target ≠ none →
        (db.withoutHook hook.id).visibility key target = none →
        target.isMaster = false ∧ ∃ identifier, grantIdentifier payload = .ok identifier
  | _ => True

theorem grantIdentifier_status {payload : HookPermInput} {e : AppError}
    (h : grantIdentifier payload = .error e) : e.status = 400 := by
  unfold grantIdentifier at h
  split at h <;> cases h <;> rfl

theorem unresolvedGrant_withoutHook {α : Type} (id : Uuid) (payload : HookPermInput) :
    shown (.error (db.unresolvedGrant key id payload) : Except AppError α) =
        shown (.error ((db.withoutHook hook.id).unresolvedGrant key id payload)) ↔
      db.AnswersAsGone key hook (.updateKeyHookPermissions id payload) := by
  have hdiffer : ∀ {e e' : AppError}, e.status ≠ e'.status →
      shown (.error e : Except AppError α) ≠ shown (.error e') :=
    fun hne hsame => hne (status_of_shown hsame)
  have hkeys : (db.withoutHook hook.id).apiKeyById id = db.apiKeyById id := rfl
  unfold Database.AnswersAsGone Database.unresolvedGrant
  rw [hkeys]
  cases hstanding : db.standing key with
  | false =>
    have hnone : (db.withoutHook hook.id).standing key = false := by
      rw [← Bool.not_eq_true]
      exact fun h => Bool.false_ne_true (hstanding.symm.trans (Database.standing_of_withoutHook h))
    rw [hnone]
    exact iff_of_true rfl nofun
  | true =>
    cases hstands : (db.withoutHook hook.id).standing key with
    | false =>
      -- with the hook the request comes to be looked at, without it it does not
      refine iff_of_false (hdiffer ?_) fun h => Bool.false_ne_true (h rfl).1
      simp only [Bool.true_eq_false, if_false, if_true]
      cases db.apiKeyById id with
      | none => exact (by decide : AppError.status .notFound ≠ 403)
      | some target =>
        dsimp only
        split
        · decide
        · split
          · decide
          · cases hgrant : grantIdentifier payload with
            | error e =>
              dsimp only
              rw [grantIdentifier_status hgrant]
              decide
            | ok _ => exact (by decide : AppError.status .notFound ≠ 403)
    | true =>
      simp only [Bool.true_eq_false, if_false, true_and, forall_const]
      cases db.apiKeyById id with
      | none => exact iff_of_true rfl fun _ hnone => by cases hnone
      | some target =>
        dsimp only
        by_cases hseen : db.visibility key target = none
        · rw [if_pos hseen, if_pos (Database.visibility_of_withoutHook hseen)]
          refine iff_of_true rfl fun target' htarget' hvisible => ?_
          cases htarget'
          exact absurd hseen hvisible
        · rw [if_neg hseen]
          by_cases hsees : (db.withoutHook hook.id).visibility key target = none
          · rw [if_pos hsees]
            have hcondition : (∀ target', some target = some target' →
                db.visibility key target' ≠ none →
                (db.withoutHook hook.id).visibility key target' = none →
                target'.isMaster = false ∧ ∃ identifier, grantIdentifier payload = .ok identifier) ↔
                target.isMaster = false ∧ ∃ identifier, grantIdentifier payload = .ok identifier :=
              ⟨fun h => h target rfl hseen hsees, fun h _ heq _ _ => Option.some.inj heq ▸ h⟩
            rw [hcondition]
            cases target.isMaster with
            | true =>
              refine iff_of_false (hdiffer ?_) fun h => Bool.false_ne_true h.1.symm
              exact (by decide : (400 : Nat) ≠ 404)
            | false =>
              simp only [Bool.false_eq_true, if_false, true_and]
              cases hgrant : grantIdentifier payload with
              | ok identifier => exact iff_of_true rfl ⟨identifier, rfl⟩
              | error e =>
                refine iff_of_false (hdiffer ?_) nofun
                dsimp only
                rw [grantIdentifier_status hgrant]
                decide
          · rw [if_neg hsees]
            refine iff_of_true rfl fun target' htarget' _ hunseen => ?_
            cases htarget'
            exact absurd hunseen hsees

/-- What the handlers answer about a trashed hook, and what they answer where it
is not there. -/
theorem handleAdmin_trashed (ctx : Context) {w w₁ : World} {request : AdminRequest}
    {identifier : String} (hkey : key.isMaster = false)
    (hwf : w.db.WellFormed) (hfree : w.db.Unshadowed hook) (htrashed : hook.isDeleted = true)
    (hdb : w₁.db = w.db) (hnames : request.Names identifier)
    (hresolve : w.db.resolve identifier = some hook) :
    shown (((handleAdmin ctx key request).run Op.exec w₁).1.map Response.admin) =
        shown (((handleAdmin ctx key request).run Op.exec
          (w₁.withDb (w.db.withoutHook hook.id))).1.map Response.admin) ↔
      w.db.AnswersAsGone key hook request := by
  have hnone : w₁.db.resolveLive identifier = none := by
    rw [hdb, Database.resolveLive, hresolve, Option.filter_some, if_neg (by simp [htrashed])]
  have hgone : (w.db.withoutHook hook.id).resolve identifier = none := by
    rw [Database.withoutHook_resolve hwf hfree, hresolve, Option.filter_some, if_neg (by simp)]
  have hgoneLive : (w₁.withDb (w.db.withoutHook hook.id)).db.resolveLive identifier = none := by
    rw [World.withDb_db, Database.resolveLive, hgone]
    rfl
  have hlooks : request.LooksForLive → w.db.AnswersAsGone key hook request →
      (shown (((handleAdmin ctx key request).run Op.exec w₁).1.map Response.admin) =
        shown (((handleAdmin ctx key request).run Op.exec
          (w₁.withDb (w.db.withoutHook hook.id))).1.map Response.admin) ↔
      w.db.AnswersAsGone key hook request) := by
    intro hlooks hanswers
    rw [handleAdmin_unresolved hlooks hnames hnone, handleAdmin_unresolved hlooks hnames hgoneLive]
    exact iff_of_true rfl hanswers
  cases request with
  | getHook i query =>
    cases hdeleted : query.includeDeleted.getD false with
    | false => exact hlooks hdeleted trivial
    | true =>
      refine iff_of_true ?_ trivial
      simp only [handleAdmin, Program.run_map, getHook, hdeleted, guardMasterForDeletedView, hkey,
        Program.bind_eq, Program.run_bind, Program.run_ofExcept]
      rfl
  | deleteHook i query =>
    cases hhard : query.hard.getD false with
    | false => exact hlooks hhard fun h => by cases hhard.symm.trans h
    | true =>
      obtain rfl := hnames
      have hfound : w₁.db.resolve i = some hook := hdb ▸ hresolve
      have hrefused := @deleteHook_hard_refused ctx key w₁ i query hook hkey hhard hfound
      simp only [handleAdmin, Program.run_map, deleteHook_hard_unresolved hhard
        (show (w₁.withDb (w.db.withoutHook hook.id)).db.resolve i = none from hgone)]
      rw [hdb] at hrefused
      unfold Database.AnswersAsGone
      split at hrefused
      · rename_i hrelated
        obtain ⟨message, hrun⟩ := hrefused
        rw [hrun]
        refine iff_of_false (fun hsame => absurd (status_of_shown hsame)
          (by decide : (403 : Nat) ≠ 404)) fun h => ?_
        exact hrelated.elim (h hhard).1 fun hrow => hrow (h hhard).2
      · rename_i hstranger
        rw [hrefused]
        push Not at hstranger
        exact iff_of_true rfl fun _ => hstranger
  | restoreHook i =>
    refine iff_of_true ?_ trivial
    simp only [handleAdmin, Program.run_map, restoreHook, hkey, Program.bind_eq, Program.run_bind,
      Program.run_require]
    rfl
  | revokeKeyHookPermission id i =>
    obtain rfl := hnames
    have hstanding : ∀ {v : World}, v.db.resolveLive i = none →
        ((handleAdmin ctx key (.revokeKeyHookPermission id i)).run Op.exec v).1.map Response.admin =
          .error (if v.db.standing key then .notFound else .forbidden "Permission denied") := by
      intro v hv
      simp only [handleAdmin, Program.run_map, revokeKeyHookPermission_unresolved id hv]
      rfl
    rw [hstanding hnone, hstanding hgoneLive, hdb, World.withDb_db]
    unfold Database.AnswersAsGone
    cases hstands : (w.db.withoutHook hook.id).standing key with
    | true => simp [Database.standing_of_withoutHook hstands]
    | false =>
      cases w.db.standing key with
      | false => exact iff_of_true rfl (by rintro ⟨⟩)
      | true =>
        refine iff_of_false (fun hsame => absurd (status_of_shown hsame) (by decide)) fun h => ?_
        exact Bool.false_ne_true (h rfl)
  | updateKeyHookPermissions id payload =>
    have hgrant : ∀ {v : World}, v.db.resolveLive identifier = none →
        ((handleAdmin ctx key (.updateKeyHookPermissions id payload)).run Op.exec v).1.map
          Response.admin =
          .error (v.db.unresolvedGrant key id payload) := by
      intro v hv
      simp only [handleAdmin, Program.run_map, updateKeyHookPermissions_unresolved id payload
        fun i hi => grantIdentifier_of_names hnames hi ▸ hv]
      rfl
    rw [hgrant hnone, hgrant hgoneLive, hdb, World.withDb_db]
    exact unresolvedGrant_withoutHook id payload
  | updateHook i payload => exact hlooks trivial trivial
  | listHookParameters i => exact hlooks trivial trivial
  | createHookParameter i payload => exact hlooks trivial trivial
  | updateHookParameter i paramId payload => exact hlooks trivial trivial
  | deleteHookParameter i paramId => exact hlooks trivial trivial
  | listExecutions query => exact hlooks trivial trivial
  | _ => exact hnames.elim

end Compare

/-- A caller that an administrative request was let through for. -/
theorem exists_of_authenticate_admin {ctx : Context} {clock : AuthClock} {http : HttpRequest}
    {request : AdminRequest} {w w₁ : World} {a : Authenticated}
    (hauth : (authenticate ctx clock (.admin http request)).run Op.exec w = (.ok a, w₁)) :
    ∃ key, a = .admin key request := by
  rw [authenticate, Program.run_map] at hauth
  cases hkey : ((authMiddleware ctx.state clock ctx.clientIp http).run Op.exec w).1 with
  | error e =>
    rw [hkey] at hauth
    cases (Prod.mk.inj hauth).1
  | ok key =>
    rw [hkey] at hauth
    exact ⟨key, (Except.ok.inj (Prod.mk.inj hauth).1).symm⟩

/-- The caller, or the lack of one, that an invocation was let through for. -/
theorem exists_of_authenticate_invoke {ctx : Context} {clock : AuthClock} {inv : Invocation}
    {w w₁ : World} {a : Authenticated}
    (hauth : (authenticate ctx clock (.invoke inv)).run Op.exec w = (.ok a, w₁)) :
    ∃ caller, a = .invoke caller inv := by
  rw [authenticate, Program.run_map] at hauth
  cases hcaller : ((invocationAuthMiddleware ctx.state clock ctx.clientIp inv.toHttp).run
      Op.exec w).1 with
  | error e =>
    rw [hcaller] at hauth
    cases (Prod.mk.inj hauth).1
  | ok caller =>
    rw [hcaller] at hauth
    exact ⟨caller, (Except.ok.inj (Prod.mk.inj hauth).1).symm⟩

/-- An invocation of what is not there. -/
theorem handleInvocation_unresolved {ctx : Context} {inv : Invocation} {caller : Option ApiKey}
    {identifier : String} {w : World} (hdecodes : decodeIdentifier inv.segment = .ok identifier)
    (hnone : w.db.resolveLive identifier = none) :
    ((handleInvocation ctx inv caller).run Op.exec w).1 =
      (extractBody inv.body).bind fun _ => .error .notFound := by
  have hrun : ∀ body, ((runHookRequest ctx caller identifier body).run Op.exec w).1 =
        .error .notFound ∧
      ((testHook ctx caller identifier body).run Op.exec w).1 = .error .notFound := by
    intro body
    have hauthorize : (authorizeInvocation caller identifier).run Op.exec w =
        (.error .notFound, w) := run_resolveHook_bind hnone
    rw [runHookRequest, testHook, Program.bind_eq, Program.bind_eq,
      Program.run_bind_error hauthorize, Program.run_bind_error hauthorize]
    exact ⟨rfl, rfl⟩
  unfold handleInvocation
  simp only [hdecodes, Program.bind_eq, Program.run_bind, Program.run_ofExcept]
  cases extractBody inv.body with
  | error e => rfl
  | ok body =>
    cases inv.route with
    | test =>
      simp only [Program.run_map, (hrun body).2]
      rfl
    | _ =>
      simp only [Program.run_map, (hrun body).1]
      rfl

/-- The requests that are about a hook. -/
def Request.IsAbout (db : Database) (hook : Hook) : Request → Prop
  | .admin _ request => ∃ identifier, request.Names identifier ∧ db.resolve identifier = some hook
  | .invoke inv => ∃ identifier, decodeIdentifier inv.segment = .ok identifier ∧
      db.resolve identifier = some hook

section Sample

open Sample

/-- The maker moves its hook into the trash. -/
def discardOwned : Request :=
  .admin (bearer "/hooks/deploy" parentKey) (.deleteHook "deploy" {})

def discardedHook : Hook := (trashUpdate maker (epochSeconds * nanosPerSecond)).apply makerHook

/-- The maker with its hook in the trash. -/
def discardedByOwner : World :=
  { withOwned with db := { withOwned.db with
      hooks := [discardedHook]
      auditLogs := makerAudits.take 2 ++ [auditRowOf 302 maker "HOOK_DELETE" "deploy"
        ("Moved hook 'deploy' (00000000...) to the trash; it is recoverable until purged " ++
          "after 30 days")] } }

theorem serveAt_discardOwned : serveAt 3 discardOwned withOwned = discardedByOwner := by
  decide +kernel

theorem reachable_discardedByOwner : Reachable Sample.state discardedByOwner :=
  reachable_serveAt reachable_withOwned 3 discardOwned serveAt_discardOwned

set_option maxRecDepth 4000 in
theorem authenticate_owner (request : AdminRequest) :
    (authenticate (ctx 4) clock (.admin (bearer "/hooks/deploy" parentKey) request)).run Op.exec
      discardedByOwner = (.ok (.admin maker request), discardedByOwner) :=
  authenticate_bearer 4 _ _ (by decide) (by decide) rfl nofun rfl
    (by decide)

theorem discardedHook_unshadowed : discardedByOwner.db.Unshadowed discardedHook := by
  intro g hg _
  rw [List.mem_singleton.mp hg]

theorem owner_isMaster {request : AdminRequest} {key : ApiKey} {request' : AdminRequest}
    {w₁ : World} (hauth : (authenticate (ctx 4) clock
      (.admin (bearer "/hooks/deploy" parentKey) request)).run Op.exec discardedByOwner =
        (.ok (.admin key request'), w₁)) : key.isMaster = false := by
  cases (authenticate_owner request).symm.trans hauth
  rfl

end Sample

end HookExecutor
