import HookExecutor.Verification.Amplification
import HookExecutor.Verification.Sample

/-!
# Two ways to revoke

A key's verbs on a hook are taken away by writing them all to false or by
deleting its row, and R6 asks both routes to stand for the same thing. What they
leave behind agrees. Who may use them does not: the writing route keeps two
guards of its own, one for keys that are the master and one for hooks that run
as another account.
-/

namespace HookExecutor

/-- The request got past every refusal: what it answers is a result, or a
failure of the database under it. -/
def Authorised {α : Type} (answer : Except AppError α) : Prop :=
  ∀ e, answer = .error e → e.status = 500

instance {α : Type} (answer : Except AppError α) : Decidable (Authorised answer) :=
  match answer with
  | .ok _ => .isTrue nofun
  | .error e => decidable_of_iff (e.status = 500) (by simp [Authorised])

/-- The permission rows that are not the one of this key on this hook. -/
def Database.otherPermissions (db : Database) (keyId hookId : Uuid) : List Permission :=
  db.permissions.filter fun p => !(p.apiKeyId == keyId && p.hookId == hookId)

/-- From one database to the next, a key has lost every verb on a hook, and no
other row has changed. -/
structure Database.Revoked (db after : Database) (keyId hookId : Uuid) : Prop where
  nothing : ∀ v, ¬after.Holds keyId v hookId
  others : after.otherPermissions keyId hookId = db.otherPermissions keyId hookId

/-- The payload addresses one hook and turns every verb off. -/
structure HookPermInput.TurnsOff (payload : HookPermInput) (identifier : String) : Prop where
  names : grantIdentifier payload = .ok identifier
  execute : payload.canExecute = false
  manage : payload.canManage = false
  view : payload.canViewExecution = false

section Parity

variable {state : AppState} {w : World} {ctx : Context} {key target : ApiKey} {hook : Hook}
  {payload : HookPermInput} {identifier : String}

theorem authorised_ok {α : Type} (a : α) : Authorised (.ok a : Except AppError α) := nofun

/-- A refusal is not let through, whatever that would have meant. -/
theorem authorised_refused {e : AppError} {P Q : Prop} (hstatus : e.status ≠ 500) (hP : ¬P) :
    (Authorised (.error e : Except AppError Unit) ↔ P) ∧
      (Authorised (.error e : Except AppError Unit) → Q) := by
  have hno : ¬Authorised (.error e : Except AppError Unit) := fun h => hstatus (h e rfl)
  exact ⟨iff_of_false hno hP, fun h => absurd h hno⟩

theorem authorised_map {α β : Type} (f : α → β) {answer : Except AppError α} :
    Authorised (answer.map f) ↔ Authorised answer := by
  cases answer with
  | ok a => exact iff_of_true nofun nofun
  | error e => simp [Authorised, Except.map]

/-- An audit row is written or not; nobody is refused for it. -/
theorem authorised_createAuditLog (ctx : Context) (key : ApiKey) (draw : Nat) (action : String)
    (target details : Option String) (w : World) :
    Authorised ((createAuditLog ctx key draw action target details).run Op.exec w).1 := by
  rw [createAuditLog, Handler.exec_sql]
  cases (Stmt.exec (.insertAuditLog (auditRow ctx key draw action target details)) w.db).1 with
  | ok a => exact authorised_ok a
  | error e =>
    rintro _ ⟨⟩
    rfl

theorem createAuditLog_permissions (ctx : Context) (key : ApiKey) (draw : Nat) (action : String)
    (target details : Option String) (w : World) :
    ((createAuditLog ctx key draw action target details).run Op.exec w).2.db.permissions =
      w.db.permissions :=
  Handler.run_agree (W := [.insertAuditLog]) (t := .permissions)
    (createAuditLog_writes (by decide) _ _ _ _ _ _) (by decide) w

/-- Who manages a hook has standing. -/
theorem Database.standing_of_mayManage {db : Database} {hookId : Uuid}
    (h : db.MayManage key hookId) : db.standing key = true := by
  rcases h with hmaster | ⟨hkeys, row, hrow, hmanage⟩
  · simp [standing, hmaster]
  · obtain ⟨hmem, hkey, -⟩ := permissionOf_mem hrow
    have hmanaged : row.hookId ∈ db.managedHooks key.id :=
      List.mem_map_of_mem (List.mem_filter.mpr ⟨hmem, by simp [PermissionCondition.holds, *]⟩)
    have hsome : db.managedHooks key.id ≠ [] := List.ne_nil_of_mem hmanaged
    simp [standing, hkeys, hsome]

/-- Without R2 the answer is a refusal. -/
theorem Database.conjunctionUnless_refused {db : Database} {hookId : Uuid}
    (h : ¬db.MayManage key hookId) :
    ∃ e, db.conjunctionUnless key.isMaster key hookId = .error e ∧ e.status ≠ 500 := by
  cases hanswer : db.conjunctionUnless key.isMaster key hookId with
  | ok u => exact absurd (conjunctionUnless_ok.mp hanswer) h
  | error e =>
    refine ⟨e, rfl, ?_⟩
    unfold conjunctionUnless conjunction at hanswer
    split at hanswer
    · cases hanswer
    · cases hrow : db.permissionOf key.id hookId with
      | none =>
        simp only [hrow, Except.map, Except.error.injEq] at hanswer
        rw [← hanswer]
        decide
      | some row =>
        by_cases hmay : key.canManageKeys = true ∧ row.canManage = true
        · simp [hrow, hmay, Except.map] at hanswer
        · simp only [hrow, if_neg hmay, Except.map, Except.error.injEq] at hanswer
          rw [← hanswer]
          simp [AppError.status]

/-- The row a grant writes. -/
def grantRow (ctx : Context) (id hookId : Uuid) (payload : HookPermInput) : Permission :=
  { id := ctx.draws.uuid 0
    apiKeyId := id
    hookId := hookId
    canExecute := payload.canExecute
    canManage := payload.canManage
    canViewExecution := payload.canViewExecution
    createdAt := ctx.draws.now 0 }

/-- Turning verbs off is judged like a revocation. -/
theorem HookPermInput.TurnsOff.guard (h : payload.TurnsOff identifier) (id : Uuid)
    (existing : Option Permission) :
    guardPermissionWrite key id hook existing payload = guardRevocation key hook := by
  simp [guardPermissionWrite, guardRevocation, isPermissionReduction, h.execute, h.manage, h.view]

/-- Writing a row's verbs to false leaves no verb. -/
theorem Database.revoked_upsertPermission {db : Database} {row : Permission} {held : Permission}
    (hheld : held ∈ db.permissions) (hkey : held.apiKeyId = row.apiKeyId)
    (hhook : held.hookId = row.hookId) (hoff : ∀ v, row.has v = false) :
    ∃ after, db.upsertPermission row [.canExecute, .canManage, .canViewExecution] =
        (.ok (), after) ∧ db.Revoked after row.apiKeyId row.hookId := by
  have hany : (db.permissions.any fun p =>
      p.apiKeyId == row.apiKeyId && p.hookId == row.hookId) = true :=
    List.any_eq_true.mpr ⟨held, hheld, by simp [hkey, hhook]⟩
  refine ⟨_, by rw [upsertPermission, if_pos hany], ?_, ?_⟩
  · rintro v ⟨q, hq, hqkey, hqhook, hv⟩
    obtain ⟨p, hp, rfl⟩ := List.mem_map.mp hq
    split at hv
    · have hrow : (overwritePermission [.canExecute, .canManage, .canViewExecution] row p).has v =
          row.has v := by cases v <;> rfl
      rw [hrow, hoff v] at hv
      cases hv
    · rename_i hother
      rw [if_neg hother] at hqkey hqhook
      exact hother (by simp [hqkey, hqhook])
  · set same := fun p : Permission => p.apiKeyId == row.apiKeyId && p.hookId == row.hookId
    set written := fun p : Permission =>
      if same p then overwritePermission [.canExecute, .canManage, .canViewExecution] row p else p
    have hsame : (fun p => !same p) ∘ written = fun p => !same p := by
      funext p
      dsimp only [Function.comp_apply, written]
      split <;> rfl
    change ((db.permissions.map written).filter fun p => !same p) =
      db.permissions.filter fun p => !same p
    rw [List.filter_map, hsame]
    refine (List.map_congr_left (g := id) fun p hp => ?_).trans (List.map_id _)
    have hother : same p = false := by simpa using (List.mem_filter.mp hp).2
    simp [written, hother]

/-- Deleting a row leaves no verb. -/
theorem Database.revoked_deletePermissions (db : Database) (keyId hookId : Uuid) :
    db.Revoked (db.deletePermissions (.and (.apiKeyIdEq keyId) (.hookIdEq hookId))).2 keyId
      hookId := by
  constructor
  · rintro v ⟨p, hp, hkey, hhook, -⟩
    have hkept := (List.mem_filter.mp hp).2
    simp [PermissionCondition.holds, hkey, hhook] at hkept
  · change (db.permissions.filter _).filter _ = db.permissions.filter _
    rw [List.filter_filter]
    simp [PermissionCondition.holds]

theorem guardMasterForPrivilegedHook_answer (key : ApiKey) (hook : Hook) (action : String) :
    guardMasterForPrivilegedHook key hook action = .ok () ∧
        (key.isMaster = true ∨ ¬hook.Privileged) ∨
      (∃ msg, guardMasterForPrivilegedHook key hook action = .error (.forbidden msg)) ∧
        ¬(key.isMaster = true ∨ ¬hook.Privileged) := by
  unfold guardMasterForPrivilegedHook Hook.Privileged
  by_cases hmaster : key.isMaster = true
  · exact .inl ⟨if_pos hmaster, .inl hmaster⟩
  · rw [if_neg hmaster]
    cases Executor.effectiveRunAsUser hook.runAsUser with
    | none => simp
    | some user => exact .inr ⟨⟨_, rfl⟩, by simp [hmaster]⟩

/-- What an audit row follows is let through, and the row leaves it as it is. -/
theorem Database.Revoked.audited {db after : Database} {keyId hookId : Uuid}
    (h : db.Revoked after keyId hookId) (ctx : Context) (key : ApiKey) (draw : Nat)
    (action : String) (target details : Option String) (w : World) :
    let outcome := (createAuditLog ctx key draw action target details).run Op.exec
      { w with db := after }
    Authorised outcome.1 ∧ db.Revoked outcome.2.db keyId hookId := by
  have hkept := createAuditLog_permissions ctx key draw action target details { w with db := after }
  refine ⟨authorised_createAuditLog _ _ _ _ _ _ _, fun v => ?_, ?_⟩
  · rw [Holds, hkept]
    exact h.nothing v
  · rw [otherPermissions, hkept]
    exact h.others

/-- What the writing route asks for, and what it leaves. -/
theorem updateKeyHookPermissions_off (ctx : Context) (hoff : payload.TurnsOff identifier)
    (hfound : w.db.apiKeyById target.id = some target)
    (hvisible : w.db.visibility key target ≠ none)
    (hhook : w.db.resolveLive identifier = some hook)
    (hheld : ∃ p ∈ w.db.permissions, p.apiKeyId = target.id ∧ p.hookId = hook.id) :
    let outcome := (updateKeyHookPermissions ctx key target.id payload).run Op.exec w
    (Authorised outcome.1 ↔ w.db.MayManage key hook.id ∧ target.isMaster = false ∧
        (key.isMaster = true ∨ ¬hook.Privileged)) ∧
      (Authorised outcome.1 → w.db.Revoked outcome.2.db target.id hook.id) := by
  have hsome : (w.db.visibility key target).isSome = true := Option.isSome_iff_ne_none.mpr hvisible
  dsimp only
  by_cases hmay : w.db.MayManage key hook.id
  · have hstanding := Database.standing_of_mayManage hmay
    have hguard : w.db.conjunctionUnless key.isMaster key hook.id = .ok () :=
      Database.conjunctionUnless_ok.mpr hmay
    by_cases hmaster : target.isMaster = true
    · have hrun : (updateKeyHookPermissions ctx key target.id payload).run Op.exec w =
          (.error (.invalidInput "Cannot configure M:N permissions on a master key"), w) := by
        simp [updateKeyHookPermissions, Program.run_bind, hstanding, hfound, hsome, hmaster]
      rw [hrun]
      exact authorised_refused (by simp [AppError.status]) (by simp [hmaster])
    · rcases guardMasterForPrivilegedHook_answer key hook "grant permissions on" with
        ⟨hprivileged, hpass⟩ | ⟨⟨msg, hprivileged⟩, hstop⟩
      · obtain ⟨held, hmem, hkey, hid⟩ := hheld
        obtain ⟨after, hupsert, hrevoked⟩ := @Database.revoked_upsertPermission w.db
          (grantRow ctx target.id hook.id payload) held hmem hkey hid
          (fun v => by cases v <;> simp [Permission.has, grantRow, hoff.execute, hoff.manage,
            hoff.view])
        have hrun : (updateKeyHookPermissions ctx key target.id payload).run Op.exec w =
            (createAuditLog ctx key 1 "KEY_PERM_UPDATE" (some hook.name)
              (some s!"Updated permissions for key {formatReference target.name target.id}")).run
              Op.exec { w with db := after } := by
          rw [grantRow] at hupsert
          simp [updateKeyHookPermissions, Program.run_bind, hstanding, hfound, hsome, hmaster,
            hoff.names, hhook, hoff.guard, hguard, hprivileged, Stmt.exec, hupsert, Except.mapError]
        obtain ⟨hlet, hleft⟩ := hrevoked.audited ctx key 1 "KEY_PERM_UPDATE" (some hook.name)
          (some s!"Updated permissions for key {formatReference target.name target.id}") w
        rw [hrun]
        exact ⟨iff_of_true hlet ⟨hmay, by simpa using hmaster, hpass⟩, fun _ => hleft⟩
      · have hrun : (updateKeyHookPermissions ctx key target.id payload).run Op.exec w =
            (.error (.forbidden msg), w) := by
          simp [updateKeyHookPermissions, Program.run_bind, hstanding, hfound, hsome, hmaster,
            hoff.names, hhook, hoff.guard, hguard, hprivileged]
        rw [hrun]
        exact authorised_refused (by simp [AppError.status]) fun h => hstop h.2.2
  · obtain ⟨e, hguard, hstatus⟩ := Database.conjunctionUnless_refused hmay
    have hrun : ∃ e, e.status ≠ 500 ∧
        (updateKeyHookPermissions ctx key target.id payload).run Op.exec w = (.error e, w) := by
      by_cases hstanding : w.db.standing key = true
      · by_cases hmaster : target.isMaster = true
        · refine ⟨.invalidInput "Cannot configure M:N permissions on a master key", by
            simp [AppError.status], ?_⟩
          simp [updateKeyHookPermissions, Program.run_bind, hstanding, hfound, hsome, hmaster]
        · refine ⟨e, hstatus, ?_⟩
          simp [updateKeyHookPermissions, Program.run_bind, hstanding, hfound, hsome, hmaster,
            hoff.names, hhook, hoff.guard, hguard]
      · refine ⟨.forbidden "Permission denied", by simp [AppError.status], ?_⟩
        simp [updateKeyHookPermissions, Program.run_bind, hstanding]
    obtain ⟨e, hstatus, hrun⟩ := hrun
    rw [hrun]
    exact authorised_refused hstatus fun h => hmay h.1

/-- What the deleting route asks for, and what it leaves. -/
theorem revokeKeyHookPermission_row (ctx : Context) (key : ApiKey)
    (hfound : w.db.apiKeyById target.id = some target)
    (hhook : w.db.resolveLive identifier = some hook)
    (hheld : ∃ p ∈ w.db.permissions, p.apiKeyId = target.id ∧ p.hookId = hook.id) :
    let outcome := (revokeKeyHookPermission ctx key target.id identifier).run Op.exec w
    (Authorised outcome.1 ↔ w.db.MayManage key hook.id) ∧
      (Authorised outcome.1 → w.db.Revoked outcome.2.db target.id hook.id) := by
  dsimp only
  by_cases hmay : w.db.MayManage key hook.id
  · have hstanding := Database.standing_of_mayManage hmay
    have hguard : w.db.conjunctionUnless key.isMaster key hook.id = .ok () :=
      Database.conjunctionUnless_ok.mpr hmay
    obtain ⟨held, hmem, hkey, hid⟩ := hheld
    have hremoved : ∃ p ∈ w.db.permissions,
        (PermissionCondition.and (.apiKeyIdEq target.id) (.hookIdEq hook.id)).holds p = true :=
      ⟨held, hmem, by simp [PermissionCondition.holds, hkey, hid]⟩
    have hkept : (w.db.deletePermissions
        (.and (.apiKeyIdEq target.id) (.hookIdEq hook.id))).2.apiKeyById target.id = some target :=
      hfound
    have hrun : (revokeKeyHookPermission ctx key target.id identifier).run Op.exec w =
        (createAuditLog ctx key 0 "KEY_PERM_REVOKE" (some hook.name)
          (some s!"Revoked permissions for key {formatReference target.name target.id}")).run
          Op.exec { w with db := (w.db.deletePermissions
            (.and (.apiKeyIdEq target.id) (.hookIdEq hook.id))).2 } := by
      simp [revokeKeyHookPermission, Program.run_bind, hstanding, hhook, hguard, Stmt.exec,
        Except.mapError, Database.deletePermissions, hremoved] at hkept ⊢
      rw [hkept]
      rfl
    obtain ⟨hlet, hleft⟩ := (w.db.revoked_deletePermissions target.id hook.id).audited ctx key 0
      "KEY_PERM_REVOKE" (some hook.name)
      (some s!"Revoked permissions for key {formatReference target.name target.id}") w
    rw [hrun]
    exact ⟨iff_of_true hlet hmay, fun _ => hleft⟩
  · obtain ⟨e, hguard, hstatus⟩ := Database.conjunctionUnless_refused hmay
    have hrun : ∃ e, e.status ≠ 500 ∧
        (revokeKeyHookPermission ctx key target.id identifier).run Op.exec w = (.error e, w) := by
      by_cases hstanding : w.db.standing key = true
      · refine ⟨e, hstatus, ?_⟩
        simp [revokeKeyHookPermission, Program.run_bind, hstanding, hhook, hguard]
      · refine ⟨.forbidden "Permission denied", by simp [AppError.status], ?_⟩
        simp [revokeKeyHookPermission, Program.run_bind, hstanding]
    obtain ⟨e, hstatus, hrun⟩ := hrun
    rw [hrun]
    exact authorised_refused hstatus hmay

/-- Over one hook on which a visible key holds a row, the two routes let the same
callers through and leave the same behind exactly if every caller that manages
the hook is the master or the hook runs as no account of its own, and the key is
not the master. -/
theorem revocation_parity (hw : Reachable state w) {ctx' : Context} {identifier' : String}
    (htarget : target ∈ w.db.apiKeys) (hvisible : w.db.visibility key target ≠ none)
    (hoff : payload.TurnsOff identifier) (hhook : w.db.resolveLive identifier = some hook)
    (hhook' : w.db.resolveLive identifier' = some hook)
    (hheld : ∃ p ∈ w.db.permissions, p.apiKeyId = target.id ∧ p.hookId = hook.id) :
    let post := (handleAdmin ctx key (.updateKeyHookPermissions target.id payload)).run Op.exec w
    let delete := (handleAdmin ctx' key (.revokeKeyHookPermission target.id identifier')).run
      Op.exec w
    ((Authorised post.1 ↔ Authorised delete.1) ∧
        (Authorised post.1 → w.db.Revoked post.2.db target.id hook.id) ∧
        (Authorised delete.1 → w.db.Revoked delete.2.db target.id hook.id)) ↔
      (w.db.MayManage key hook.id →
        target.isMaster = false ∧ (key.isMaster = true ∨ ¬hook.Privileged)) := by
  have hfound : w.db.apiKeyById target.id = some target :=
    hw.sound.wellFormed.apiKeyById_eq htarget
  obtain ⟨hpost, hpostLeft⟩ := updateKeyHookPermissions_off ctx hoff hfound hvisible hhook hheld
  obtain ⟨hdelete, hdeleteLeft⟩ := revokeKeyHookPermission_row ctx' key hfound hhook' hheld
  simp only [handleAdmin, Program.run_map, authorised_map]
  rw [hpost, hdelete]
  constructor
  · rintro ⟨hsame, -, -⟩ hmay
    exact (hsame.mpr hmay).2
  · intro hagree
    exact ⟨⟨And.left, fun hmay => ⟨hmay, hagree hmay⟩⟩, fun h => hpostLeft (hpost.mpr h),
      fun h => hdeleteLeft (hdelete.mpr h)⟩

end Parity

section Sample

open Sample

/-- The hook, running as another account. -/
def hardenedHook : Hook := { deployHook with runAsUser := some "backup" }

/-- The deployment once the parent manages the hook and the master lets the hook
run as another account. -/
def hardened : World :=
  { entrusted with db := { entrusted.db with
      hooks := [hardenedHook]
      auditLogs := entrusted.db.auditLogs ++
        [auditRowOf 502 Sample.masterRow "HOOK_UPDATE" "deploy"
          "Updated hook 'deploy' (00000000...) [runs as 'backup' via sudo]"] } }

theorem reachable_hardened : Reachable Sample.state hardened := by
  refine reachable_master reachable_entrusted 5 "/hooks/deploy"
    (.updateHook "deploy" { runAsUser := some "backup" }) rfl rfl ?_
  decide +kernel

def turnedOff : HookPermInput :=
  { hookName := some "deploy", canExecute := false, canManage := false }

theorem turnedOff_turnsOff : turnedOff.TurnsOff "deploy" := ⟨rfl, rfl, rfl, rfl⟩

theorem resolveLive_hardened : hardened.db.resolveLive "deploy" = some hardenedHook := by
  decide

theorem visibility_hardened : hardened.db.visibility parentRow parentRow ≠ none := by
  simp [Database.visibility]

theorem parentRow_mem_hardened : parentRow ∈ hardened.db.apiKeys :=
  List.mem_cons_of_mem _ List.mem_cons_self

theorem held_hardened :
    ∃ p ∈ hardened.db.permissions, p.apiKeyId = parentRow.id ∧ p.hookId = hardenedHook.id :=
  ⟨parentPermission, List.mem_cons_of_mem _ List.mem_cons_self, rfl, rfl⟩

theorem mayManage_hardened : hardened.db.MayManage parentRow hardenedHook.id :=
  .inr ⟨rfl, parentPermission, rfl, rfl⟩

theorem privileged_hardened : hardenedHook.Privileged := by
  unfold Hook.Privileged
  decide

theorem revocation_parity_hardened :
    let post := (handleAdmin (ctx 6) parentRow
      (.updateKeyHookPermissions 101 turnedOff)).run Op.exec hardened
    let delete := (handleAdmin (ctx 6) parentRow
      (.revokeKeyHookPermission 101 "deploy")).run Op.exec hardened
    ((Authorised post.1 ↔ Authorised delete.1) ∧
        (Authorised post.1 → hardened.db.Revoked post.2.db 101 301) ∧
        (Authorised delete.1 → hardened.db.Revoked delete.2.db 101 301)) ↔
      (hardened.db.MayManage parentRow 301 →
        parentRow.isMaster = false ∧ (parentRow.isMaster = true ∨ ¬hardenedHook.Privileged)) :=
  @revocation_parity state hardened (ctx 6) parentRow parentRow hardenedHook turnedOff "deploy"
    reachable_hardened (ctx 6) "deploy" parentRow_mem_hardened visibility_hardened
    turnedOff_turnsOff resolveLive_hardened resolveLive_hardened held_hardened

/-- A key that may delete its own row may not write the row's verbs to false. -/
theorem revocation_routes_differ :
    ¬∀ {state : AppState} {w : World} {ctx ctx' : Context} {key target : ApiKey} {hook : Hook}
      {payload : HookPermInput} {identifier identifier' : String}, Reachable state w →
      key ∈ w.db.apiKeys → target ∈ w.db.apiKeys → w.db.visibility key target ≠ none →
      payload.TurnsOff identifier → w.db.resolveLive identifier = some hook →
      w.db.resolveLive identifier' = some hook →
      (∃ p ∈ w.db.permissions, p.apiKeyId = target.id ∧ p.hookId = hook.id) →
      (Authorised ((handleAdmin ctx key
          (.updateKeyHookPermissions target.id payload)).run Op.exec w).1 ↔
        Authorised ((handleAdmin ctx' key
          (.revokeKeyHookPermission target.id identifier')).run Op.exec w).1) := by
  intro hclaim
  have hsame := @hclaim state hardened (ctx 6) (ctx 6) parentRow parentRow hardenedHook turnedOff
    "deploy" "deploy" reachable_hardened parentRow_mem_hardened parentRow_mem_hardened
    visibility_hardened
    turnedOff_turnsOff resolveLive_hardened resolveLive_hardened held_hardened
  have hfound : hardened.db.apiKeyById parentRow.id = some parentRow := rfl
  simp only [handleAdmin, Program.run_map, authorised_map] at hsame
  rw [(updateKeyHookPermissions_off (ctx 6) turnedOff_turnsOff hfound visibility_hardened
      resolveLive_hardened held_hardened).1,
    (revokeKeyHookPermission_row (ctx 6) parentRow hfound resolveLive_hardened held_hardened).1]
    at hsame
  rcases (hsame.mpr mayManage_hardened).2.2 with hmaster | hplain
  · cases hmaster
  · exact hplain privileged_hardened

end Sample

end HookExecutor
