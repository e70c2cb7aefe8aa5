import HookExecutor.Router

/-!
# What the reads answer

The lookups and guards of the handlers, as functions of the database they are
run against. Each of them leaves the world as it found it, and the lemmas here
say exactly what it answers, or exactly when it lets its caller through. Proofs
about handlers cite these and never unfold a lookup again.
-/

namespace HookExecutor

namespace Database

variable (db : Database)

def apiKeyById (id : Uuid) : Option ApiKey := db.apiKeys.find? (·.id == id)

def hookByName (name : String) : Option Hook := db.hooks.find? (·.name == name)

/-- The row a key holds on a hook. -/
def permissionOf (keyId hookId : Uuid) : Option Permission :=
  db.permissions.find? fun p => p.apiKeyId == keyId && p.hookId == hookId

/-- The hook an identifier names: by id first, then by name. -/
def resolve (identifier : String) : Option Hook :=
  ((Uuid.parseStr identifier).bind db.hookWithId).or (db.hookByName identifier)

/-- The hook an identifier names, unless it is in the trash. -/
def resolveLive (identifier : String) : Option Hook :=
  (db.resolve identifier).filter fun hook => !hook.isDeleted

/-- The keys created by any of `parents`. -/
def childrenOf (parents : List Uuid) : List Uuid :=
  (db.apiKeys.filter (ApiKeyCondition.parentKeyIdIn parents).holds).map (·.id)

def descendants (root : Uuid) : List Uuid :=
  Walk.levels (m := Id) db.childrenOf root maxLevels [] [root]

def managedHooks (keyId : Uuid) : List Uuid :=
  (db.permissions.filter
    (PermissionCondition.and (.apiKeyIdEq keyId) .canManage).holds).map (·.hookId)

/-- Whether a caller may address the permission routes at all. -/
def standing (key : ApiKey) : Bool :=
  key.isMaster || key.canManageKeys && !(db.managedHooks key.id).isEmpty

/-- How much of a key a caller sees. -/
def visibility (caller target : ApiKey) : Option KeyVisibility :=
  if caller.isMaster || caller.id == target.id ||
      (db.descendants caller.id).contains target.id then some .full
  else if db.permissions.any fun p =>
      p.apiKeyId == target.id && (db.managedHooks caller.id).contains p.hookId then some .minimal
  else none

/-- R2's answer to a caller about a hook: what it refuses with depends on whether
there is a row at all. -/
def conjunction (key : ApiKey) (hookId : Uuid) : Except AppError Permission :=
  match db.permissionOf key.id hookId with
  | none => .error .notFound
  | some row =>
    if key.canManageKeys = true ∧ row.canManage = true then .ok row
    else .error (.forbidden "Permission denied: You do not have manage access to this hook")

/-- R2 for callers that nothing exempts from it. -/
def conjunctionUnless (exempt : Bool) (key : ApiKey) (hookId : Uuid) : Except AppError Unit :=
  if exempt then .ok () else (db.conjunction key hookId).map fun _ => ()

/-- Whether a caller may see a hook: any verb will do, and so will owning it. -/
def seesHook (key : ApiKey) (hook : Hook) : Bool :=
  key.isMaster || hook.ownerKeyId == some key.id ||
    (db.permissionOf key.id hook.id).any fun p => p.canExecute || p.canManage || p.canViewExecution

/-- R2 as the database has it: the scope and a `can_manage` row. -/
def ManagesHook (key : ApiKey) (hookId : Uuid) : Prop :=
  key.canManageKeys = true ∧ ∃ row, db.permissionOf key.id hookId = some row ∧
    row.canManage = true

theorem apiKeyById_mem {db : Database} {id : Uuid} {key : ApiKey}
    (h : db.apiKeyById id = some key) : key ∈ db.apiKeys ∧ key.id = id :=
  ⟨List.mem_of_find?_eq_some h, by simpa using List.find?_some h⟩

theorem hookWithId_mem {db : Database} {id : Uuid} {hook : Hook}
    (h : db.hookWithId id = some hook) : hook ∈ db.hooks ∧ hook.id = id :=
  ⟨List.mem_of_find?_eq_some h, by simpa using List.find?_some h⟩

theorem permissionOf_mem {db : Database} {keyId hookId : Uuid} {row : Permission}
    (h : db.permissionOf keyId hookId = some row) :
    row ∈ db.permissions ∧ row.apiKeyId = keyId ∧ row.hookId = hookId :=
  ⟨List.mem_of_find?_eq_some h, by simpa using List.find?_some h⟩

theorem resolve_mem {db : Database} {identifier : String} {hook : Hook}
    (h : db.resolve identifier = some hook) : hook ∈ db.hooks := by
  rw [resolve, Option.or_eq_some_iff] at h
  rcases h with h | ⟨-, h⟩
  · obtain ⟨id, -, hid⟩ := Option.bind_eq_some_iff.mp h
    exact (hookWithId_mem hid).1
  · exact List.mem_of_find?_eq_some h

theorem resolveLive_mem {db : Database} {identifier : String} {hook : Hook}
    (h : db.resolveLive identifier = some hook) : hook ∈ db.hooks ∧ hook.isDeleted = false := by
  obtain ⟨hres, hlive⟩ := Option.filter_eq_some_iff.mp h
  exact ⟨resolve_mem hres, by simpa using hlive⟩

end Database

section Lookups

variable (w : World)

@[simp] theorem run_orElse {α : Type} (found : Option α) (e : AppError) :
    (orElse found e).run Op.exec w = (found.elim (.error e) .ok, w) := by
  cases found <;> rfl

@[simp] theorem run_findApiKeyById (id : Uuid) :
    (findApiKeyById id).run Op.exec w = (.ok (w.db.apiKeyById id), w) := by
  simp [findApiKeyById, Program.run_bind, Stmt.exec, Except.mapError, Database.orderApiKeys,
    List.head?_filter, Database.apiKeyById]
  rfl

@[simp] theorem run_findHookById (id : Uuid) :
    (findHookById id).run Op.exec w = (.ok (w.db.hookWithId id), w) := by
  simp [findHookById, Program.run_bind, Stmt.exec, Except.mapError, Database.orderHooks,
    List.head?_filter, Database.hookWithId]
  rfl

@[simp] theorem run_findHookByName (name : String) :
    (findHookByName name).run Op.exec w = (.ok (w.db.hookByName name), w) := by
  simp [findHookByName, Program.run_bind, Stmt.exec, Except.mapError, Database.orderHooks,
    List.head?_filter, Database.hookByName]
  rfl

@[simp] theorem run_hookPermission (keyId hookId : Uuid) :
    (hookPermission keyId hookId).run Op.exec w = (.ok (w.db.permissionOf keyId hookId), w) := by
  simp [hookPermission, Program.run_bind, Stmt.exec, Except.mapError, List.head?_filter,
    Database.permissionOf]
  rfl

@[simp] theorem run_resolveHookIncludingDeleted (identifier : String) :
    (resolveHookIncludingDeleted identifier).run Op.exec w =
      ((w.db.resolve identifier).elim (.error .notFound) .ok, w) := by
  cases hid : Uuid.parseStr identifier with
  | none => simp [resolveHookIncludingDeleted, Program.run_bind, hid, Database.resolve]
  | some id =>
    cases hfound : w.db.hookWithId id with
    | none => simp [resolveHookIncludingDeleted, Program.run_bind, hid, hfound, Database.resolve]
    | some hook =>
      simp [resolveHookIncludingDeleted, Program.run_bind, hid, hfound, Database.resolve]

@[simp] theorem run_resolveHook (identifier : String) :
    (resolveHook identifier).run Op.exec w =
      ((w.db.resolveLive identifier).elim (.error .notFound) .ok, w) := by
  cases hres : w.db.resolve identifier with
  | none => simp [resolveHook, Program.run_bind, hres, Database.resolveLive]
  | some hook =>
    by_cases hlive : hook.isDeleted = false
    · simp [resolveHook, Program.run_bind, hres, hlive, Database.resolveLive, Option.filter]
    · simp [resolveHook, Program.run_bind, hres, hlive, Database.resolveLive, Option.filter]

theorem run_resolveHook_ok {identifier : String} {hook : Hook} {w w' : World} :
    (resolveHook identifier).run Op.exec w = (.ok hook, w') ↔
      w' = w ∧ w.db.resolveLive identifier = some hook := by
  rw [run_resolveHook]
  cases w.db.resolveLive identifier <;> simp [eq_comm, and_comm]

@[simp] theorem run_childKeyIds (parents : List Uuid) :
    (childKeyIds parents).run Op.exec w = (.ok (w.db.childrenOf parents), w) := by
  simp [childKeyIds, Program.run_bind, Stmt.exec, Except.mapError, Database.orderApiKeys,
    Database.childrenOf]

@[simp] theorem run_descendantKeyIds (root : Uuid) :
    (descendantKeyIds root).run Op.exec w = (.ok (w.db.descendants root), w) :=
  Walk.run_levels (run_childKeyIds w) root maxLevels [] [root]

@[simp] theorem run_managedHookIds (keyId : Uuid) :
    (managedHookIds keyId).run Op.exec w = (.ok (w.db.managedHooks keyId), w) := by
  simp [managedHookIds, Program.run_bind, Stmt.exec, Except.mapError, Database.managedHooks]

@[simp] theorem run_hasPermissionAdminStanding (key : ApiKey) :
    (hasPermissionAdminStanding key).run Op.exec w = (.ok (w.db.standing key), w) := by
  unfold hasPermissionAdminStanding Database.standing
  by_cases hmaster : key.isMaster = true
  · simp [hmaster]
  · by_cases hkeys : key.canManageKeys = true
    · simp [hmaster, hkeys, managesAnyHook, Program.run_bind, Stmt.exec, Except.mapError,
        Database.managedHooks]
    · simp [hmaster, hkeys]

@[simp] theorem run_keyVisibility (caller target : ApiKey) :
    (keyVisibility caller target).run Op.exec w = (.ok (w.db.visibility caller target), w) := by
  unfold keyVisibility Database.visibility
  by_cases hself : caller.isMaster = true ∨ caller.id = target.id
  · simp [hself]
  · obtain ⟨hmaster, hid⟩ := not_or.mp hself
    by_cases hbelow : target.id ∈ w.db.descendants caller.id
    · simp [hmaster, hid, Program.run_bind, hbelow]
    · by_cases hmanaged : w.db.managedHooks caller.id = []
      · simp [hmaster, hid, Program.run_bind, hbelow, hmanaged]
      · by_cases hshared : ∃ p ∈ w.db.permissions,
            p.apiKeyId = target.id ∧ p.hookId ∈ w.db.managedHooks caller.id
        · have hrows : ¬∀ p ∈ w.db.permissions, ((PermissionCondition.apiKeyIdEq target.id).and
              (.hookIdIn (w.db.managedHooks caller.id))).holds p = false := by
            simpa [PermissionCondition.holds] using hshared
          simp [hmaster, hid, Program.run_bind, hbelow, hmanaged, Stmt.exec, Except.mapError,
            hshared, hrows]
        · have hrows : ∀ p ∈ w.db.permissions, ((PermissionCondition.apiKeyIdEq target.id).and
              (.hookIdIn (w.db.managedHooks caller.id))).holds p = false := by
            simpa [PermissionCondition.holds] using hshared
          simp [hmaster, hid, Program.run_bind, hbelow, hmanaged, Stmt.exec, Except.mapError,
            hshared]
          exact hrows

@[simp] theorem run_guardHookManageConjunction (key : ApiKey) (hookId : Uuid) :
    (guardHookManageConjunction key hookId).run Op.exec w =
      (w.db.conjunction key hookId, w) := by
  unfold Database.conjunction
  cases hrow : w.db.permissionOf key.id hookId with
  | none => simp [guardHookManageConjunction, Program.run_bind, hrow]
  | some held =>
    by_cases hmay : key.canManageKeys = true ∧ held.canManage = true
    · simp [guardHookManageConjunction, Program.run_bind, hrow, hmay]
    · simp [guardHookManageConjunction, Program.run_bind, hrow, hmay]

theorem run_conjunctionUnless (exempt : Bool) (key : ApiKey) (hookId : Uuid) :
    (do if exempt then pure ()
        else
          let _ ← guardHookManageConjunction key hookId
          pure () : Handler Unit).run Op.exec w =
      (w.db.conjunctionUnless exempt key hookId, w) := by
  cases exempt with
  | true => rfl
  | false =>
    simp only [Bool.false_eq_true, if_false, Program.bind_eq, Program.run_bind,
      run_guardHookManageConjunction, Database.conjunctionUnless]
    cases w.db.conjunction key hookId <;> rfl

@[simp] theorem run_guardRevocation (key : ApiKey) (hook : Hook) :
    (guardRevocation key hook).run Op.exec w =
      (w.db.conjunctionUnless key.isMaster key hook.id, w) :=
  run_conjunctionUnless w _ key hook.id

@[simp] theorem run_guardDispatchConfiguration (key : ApiKey) (hook : Hook) :
    (guardDispatchConfiguration key hook).run Op.exec w =
      (w.db.conjunctionUnless key.isMaster key hook.id, w) :=
  run_conjunctionUnless w _ key hook.id

@[simp] theorem run_guardManage (key : ApiKey) (hook : Hook) :
    (guardManage key hook).run Op.exec w =
      (w.db.conjunctionUnless (key.isMaster || hook.ownerKeyId == some key.id) key hook.id, w) :=
  run_conjunctionUnless w _ key hook.id

@[simp] theorem run_guardVisibility (key : ApiKey) (hook : Hook) :
    (guardVisibility key hook).run Op.exec w =
      (if w.db.seesHook key hook then .ok () else .error .notFound, w) := by
  unfold guardVisibility Database.seesHook
  by_cases hexempt : (key.isMaster || hook.ownerKeyId == some key.id) = true
  · simp [hexempt]
  · simp [hexempt, Program.run_bind]

end Lookups

/-! ### When a guard lets its caller through -/

section Guards

variable {w w' : World} {key : ApiKey} {hook : Hook}

theorem Database.conjunction_ok {db : Database} {hookId : Uuid} {row : Permission} :
    db.conjunction key hookId = .ok row ↔
      db.permissionOf key.id hookId = some row ∧ key.canManageKeys = true ∧
        row.canManage = true := by
  unfold Database.conjunction
  cases db.permissionOf key.id hookId with
  | none => simp
  | some held =>
    by_cases hmay : key.canManageKeys = true ∧ held.canManage = true
    · simp only [if_pos hmay, Except.ok.injEq, Option.some.injEq]
      exact ⟨fun heq => ⟨heq, heq ▸ hmay⟩, And.left⟩
    · simp only [if_neg hmay, Option.some.injEq, reduceCtorEq, false_iff]
      rintro ⟨rfl, hheld⟩
      exact hmay hheld

theorem Database.conjunctionUnless_ok {db : Database} {exempt : Bool} {hookId : Uuid} :
    db.conjunctionUnless exempt key hookId = .ok () ↔
      exempt = true ∨ db.ManagesHook key hookId := by
  unfold Database.conjunctionUnless
  cases exempt with
  | true => simp
  | false =>
    simp only [Bool.false_eq_true, if_false, false_or, Database.ManagesHook]
    constructor
    · intro h
      cases hrow : db.conjunction key hookId with
      | error e => simp [hrow, Except.map] at h
      | ok row =>
        obtain ⟨hheld, hkeys, hmanage⟩ := conjunction_ok.mp hrow
        exact ⟨hkeys, row, hheld, hmanage⟩
    · rintro ⟨hkeys, row, hheld, hmanage⟩
      rw [conjunction_ok.mpr ⟨hheld, hkeys, hmanage⟩]
      rfl

theorem guardHookManageConjunction_ok {hookId : Uuid} {row : Permission} :
    (guardHookManageConjunction key hookId).run Op.exec w = (.ok row, w') ↔
      w' = w ∧ w.db.permissionOf key.id hookId = some row ∧ key.canManageKeys = true ∧
        row.canManage = true := by
  rw [run_guardHookManageConjunction, Prod.mk.injEq, Database.conjunction_ok, and_comm, eq_comm]

/-- R2 with the master above it. -/
def Database.MayManage (db : Database) (key : ApiKey) (hookId : Uuid) : Prop :=
  key.isMaster = true ∨ db.ManagesHook key hookId

theorem guardDispatchConfiguration_ok :
    (guardDispatchConfiguration key hook).run Op.exec w = (.ok (), w') ↔
      w' = w ∧ w.db.MayManage key hook.id := by
  rw [run_guardDispatchConfiguration, Prod.mk.injEq, Database.conjunctionUnless_ok, and_comm,
    eq_comm, Database.MayManage]

theorem guardRevocation_ok :
    (guardRevocation key hook).run Op.exec w = (.ok (), w') ↔
      w' = w ∧ w.db.MayManage key hook.id := by
  rw [run_guardRevocation, Prod.mk.injEq, Database.conjunctionUnless_ok, and_comm, eq_comm,
    Database.MayManage]

theorem guardManage_ok :
    (guardManage key hook).run Op.exec w = (.ok (), w') ↔
      w' = w ∧ (hook.ownerKeyId = some key.id ∨ w.db.MayManage key hook.id) := by
  rw [run_guardManage, Prod.mk.injEq, Database.conjunctionUnless_ok, and_comm, eq_comm,
    Database.MayManage, Bool.or_eq_true, beq_iff_eq, or_comm (a := key.isMaster = true), or_assoc]

theorem guardExecute_ok {hookId : Uuid} :
    (guardExecute key hookId).run Op.exec w = (.ok (), w') ↔
      w' = w ∧ (key.isMaster = true ∨
        ∃ row, w.db.permissionOf key.id hookId = some row ∧ row.canExecute = true) := by
  by_cases hmaster : key.isMaster = true
  · simp [guardExecute, hmaster]
    exact eq_comm
  · cases hrow : w.db.permissionOf key.id hookId with
    | none => simp [guardExecute, hmaster, Program.run_bind, hrow]
    | some row =>
      by_cases hmay : row.canExecute = true
      · simp [guardExecute, hmaster, Program.run_bind, hrow, hmay]
        exact eq_comm
      · simp [guardExecute, hmaster, Program.run_bind, hrow, hmay]

/-- The callers a key is fully visible to. -/
def Database.SeesInFull (db : Database) (caller target : ApiKey) : Prop :=
  caller.isMaster = true ∨ caller.id = target.id ∨ target.id ∈ db.descendants caller.id

theorem keyVisibility_full {caller target : ApiKey} :
    (keyVisibility caller target).run Op.exec w = (.ok (some .full), w') ↔
      w' = w ∧ w.db.SeesInFull caller target := by
  by_cases hself : caller.isMaster = true ∨ caller.id = target.id
  · have hsees : w.db.SeesInFull caller target := hself.imp_right .inl
    simp [keyVisibility, hself, hsees]
    exact eq_comm
  · obtain ⟨hmaster, hid⟩ := not_or.mp hself
    by_cases hbelow : target.id ∈ w.db.descendants caller.id
    · have hsees : w.db.SeesInFull caller target := .inr (.inr hbelow)
      simp [keyVisibility, hmaster, hid, Program.run_bind, hbelow, hsees]
      exact eq_comm
    · have hhidden : ¬w.db.SeesInFull caller target := by
        simp [Database.SeesInFull, hmaster, hid, hbelow]
      simp only [hhidden, and_false, iff_false]
      simp only [keyVisibility, hmaster, Bool.false_or, beq_eq_false_iff_ne.mpr hid]
      by_cases hmanaged : w.db.managedHooks caller.id = []
      · simp [Program.run_bind, hbelow, hmanaged]
      · simp [Program.run_bind, hbelow, hmanaged, Stmt.exec, Except.mapError]

theorem run_keyVisibility_snd (caller target : ApiKey) (w : World) :
    ((keyVisibility caller target).run Op.exec w).2 = w := by
  rw [run_keyVisibility]

theorem run_hasPermissionAdminStanding_snd (key : ApiKey) (w : World) :
    ((hasPermissionAdminStanding key).run Op.exec w).2 = w := by
  rw [run_hasPermissionAdminStanding]

theorem loadAdministrableKey_ok {caller target : ApiKey} {id : Uuid} :
    (loadAdministrableKey caller id).run Op.exec w = (.ok target, w') ↔
      w' = w ∧ w.db.apiKeyById id = some target ∧ w.db.SeesInFull caller target := by
  simp only [loadAdministrableKey, Program.bind_eq, Program.pure_eq, Program.run_bind_eq_ok_iff,
    run_findApiKeyById, run_orElse, Program.run_require, Program.run_pure]
  constructor
  · rintro ⟨_, _, hfind, found, _, hfound, visibility, _, hvis, _, _, hfull, hret⟩
    cases hfind
    cases hkey : w.db.apiKeyById id with
    | none => simp [hkey] at hfound
    | some k =>
      simp only [hkey, Option.elim_some, Prod.mk.injEq, Except.ok.injEq] at hfound
      obtain ⟨rfl, rfl⟩ := hfound
      by_cases hv : visibility = some .full
      · subst hv
        obtain ⟨rfl, hsees⟩ := keyVisibility_full.mp hvis
        simp only [if_true, Prod.mk.injEq] at hfull
        obtain ⟨-, rfl⟩ := hfull
        simp only [Prod.mk.injEq, Except.ok.injEq] at hret
        obtain ⟨rfl, rfl⟩ := hret
        exact ⟨rfl, rfl, hsees⟩
      · simp [hv] at hfull
  · rintro ⟨rfl, hkey, hsees⟩
    exact ⟨_, _, rfl, target, _, by simp [hkey], some .full, _, keyVisibility_full.mpr ⟨rfl, hsees⟩,
      (), _, by simp, rfl⟩

end Guards

end HookExecutor
