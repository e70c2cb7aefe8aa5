import HookExecutor.Lib.Spelling
import HookExecutor.Verification.Runs

/-!
# What the endpoints let into a contract

Every parameter that is stored was declared under an identifier, and no hook has
a NUL in its script path or in its account: each statement that could write one
comes after the check that refuses it.
-/

namespace HookExecutor

open Text

/-- A text without the character the operating system ends its strings with. -/
def NulFree (text : String) : Prop := Char.ofNat 0 ∉ text.toList

/-- What holds of every row. -/
structure Database.Validated (db : Database) : Prop where
  keys : ∀ p ∈ db.hookParameters, Executor.isValidParamKey p.paramKey = true
  paths : ∀ h ∈ db.hooks, NulFree h.scriptPath
  accounts : ∀ h ∈ db.hooks, ∀ user ∈ h.runAsUser, NulFree user

/-- An edit that sets a path or an account only to one without a NUL. -/
structure HookUpdate.Validated (u : HookUpdate) : Prop where
  path : ∀ path ∈ u.scriptPath, NulFree path
  account : ∀ user, u.runAsUser = some (some user) → NulFree user

def StoresValidated : ∀ β, Op β → Prop
  | _, .db (.insertHook row) => NulFree row.scriptPath ∧ ∀ user ∈ row.runAsUser, NulFree user
  | _, .db (.updateHook _ u) => u.Validated
  | _, .db (.updateHooks _ u) => u.Validated
  | _, .db (.insertHookParameter row) => Executor.isValidParamKey row.paramKey = true
  | _, _ => True

section Statements

variable {db : Database} {α : Type}

theorem HookUpdate.Validated.apply {u : HookUpdate} (hu : u.Validated) {h : Hook}
    (hpath : NulFree h.scriptPath) (haccount : ∀ user ∈ h.runAsUser, NulFree user) :
    NulFree (u.apply h).scriptPath ∧ ∀ user ∈ (u.apply h).runAsUser, NulFree user := by
  constructor
  · change NulFree (u.scriptPath.getD h.scriptPath)
    cases hset : u.scriptPath with
    | none => exact hpath
    | some path => exact hu.path path hset
  · change ∀ user ∈ u.runAsUser.getD h.runAsUser, NulFree user
    cases hset : u.runAsUser with
    | none => exact haccount
    | some account =>
      intro user huser
      exact hu.account user (by rw [hset, ← show account = some user from huser])

/-- An edit of some of the hooks. -/
theorem Database.Validated.editHooks (hdb : db.Validated) {u : HookUpdate} (hu : u.Validated)
    (p : Hook → Bool) :
    ({ db with hooks := db.hooks.map fun h => if p h then u.apply h else h } :
      Database).Validated := by
  have hrow : ∀ h ∈ db.hooks.map fun h => if p h then u.apply h else h,
      NulFree h.scriptPath ∧ ∀ user ∈ h.runAsUser, NulFree user := by
    intro g hg
    obtain ⟨h, hh, rfl⟩ := List.mem_map.mp hg
    by_cases hp : p h = true
    · rw [if_pos hp]
      exact hu.apply (hdb.paths h hh) (hdb.accounts h hh)
    · rw [if_neg hp]
      exact ⟨hdb.paths h hh, hdb.accounts h hh⟩
  exact ⟨hdb.keys, fun h hh => (hrow h hh).1, fun h hh => (hrow h hh).2⟩

/-- Rows taken away. -/
theorem Database.Validated.of_subset {db' : Database} (hdb : db.Validated)
    (hhooks : db'.hooks ⊆ db.hooks) (hparams : db'.hookParameters ⊆ db.hookParameters) :
    db'.Validated :=
  ⟨fun p hp => hdb.keys p (hparams hp), fun h hh => hdb.paths h (hhooks hh),
    fun h hh => hdb.accounts h (hhooks hh)⟩

/-- One statement. -/
theorem StoresValidated.exec {β : Type} {q : Op β} (hq : StoresValidated β q) {w : World}
    (hdb : w.db.Validated) : (Op.exec β q w).2.db.Validated := by
  rw [Op.exec_db]
  cases q with
  | db s =>
    cases s with
    | insertHook row =>
      change (w.db.insertHook row).2.Validated
      unfold Database.insertHook
      split
      · exact hdb
      · refine ⟨hdb.keys, fun h hh => ?_, fun h hh => ?_⟩
        · obtain hold | hnew := List.mem_append.mp hh
          · exact hdb.paths h hold
          · obtain rfl := List.mem_singleton.mp hnew
            exact hq.1
        · obtain hold | hnew := List.mem_append.mp hh
          · exact hdb.accounts h hold
          · obtain rfl := List.mem_singleton.mp hnew
            exact hq.2
    | updateHook id u =>
      change (w.db.updateHook id u).2.Validated
      unfold Database.updateHook
      split
      · exact hdb
      · split
        · exact hdb
        · exact hdb.editHooks hq _
    | updateHooks c u =>
      change (w.db.updateHooks c u).2.Validated
      unfold Database.updateHooks
      dsimp only
      split
      · exact hdb.editHooks hq _
      · exact hdb
    | deleteHooks c =>
      exact hdb.of_subset (fun _ => List.mem_of_mem_filter) (fun _ => List.mem_of_mem_filter)
    | insertHookParameter row =>
      change (w.db.insertHookParameter row).2.Validated
      unfold Database.insertHookParameter
      split
      · exact hdb
      · split
        · refine ⟨fun p hp => ?_, hdb.paths, hdb.accounts⟩
          obtain hold | hnew := List.mem_append.mp hp
          · exact hdb.keys p hold
          · obtain rfl := List.mem_singleton.mp hnew
            exact hq
        · exact hdb
    | updateHookParameter id u =>
      change (w.db.updateHookParameter id u).2.Validated
      unfold Database.updateHookParameter
      split
      · exact hdb
      · refine ⟨fun p hp => ?_, hdb.paths, hdb.accounts⟩
        obtain ⟨param, hparam, rfl⟩ := List.mem_map.mp hp
        have hkey := hdb.keys param hparam
        by_cases hid : (param.id == id) = true
        · rw [if_pos hid]
          exact hkey
        · rw [if_neg hid]
          exact hkey
    | deleteHookParameter id =>
      exact hdb.of_subset (fun _ h => h) (fun _ => List.mem_of_mem_filter)
    | _ =>
      refine hdb.of_subset (fun _ hh => ?_) (fun _ hp => ?_)
      · rwa [Stmt.exec_agree (t := .hooks) _ _ (by simp [Stmt.write?, Write.tables])] at hh
      · rwa [Stmt.exec_agree (t := .hookParameters) _ _ (by simp [Stmt.write?, Write.tables])] at hp
  | _ => exact hdb

theorem validated_run {p : Handler α} (hp : p.Emits StoresValidated) {w : World}
    (hdb : w.db.Validated) : (p.run Op.exec w).2.db.Validated :=
  (hp.mono fun _ _ hq _ hw => hq.exec hw).run_inv (J := fun w : World => w.db.Validated) hdb

/-- Statements that write neither a hook nor a new parameter. -/
theorem storesValidated_of_writes {W : List Write} {p : Handler α} (hp : p.Emits (WritesAmong W))
    (hW : .insertHook ∉ W ∧ .updateHook ∉ W ∧ .updateHooks ∉ W ∧ .insertHookParameter ∉ W) :
    p.Emits StoresValidated := by
  refine hp.mono fun β q hq => ?_
  cases q with
  | db s =>
    cases s with
    | insertHook row => exact absurd (hq .insertHook rfl) hW.1
    | updateHook id u => exact absurd (hq .updateHook rfl) hW.2.1
    | updateHooks c u => exact absurd (hq .updateHooks rfl) hW.2.2.1
    | insertHookParameter row => exact absurd (hq .insertHookParameter rfl) hW.2.2.2
    | _ => trivial
  | _ => trivial

end Statements

/-! ### What the checks let through -/

theorem validateScriptPath_nulFree {path : String} {roots : List String}
    (h : Executor.validateScriptPath path roots = .ok ()) : NulFree path := by
  intro hnul
  rw [Executor.validateScriptPath, if_pos (List.contains_iff_mem.mpr hnul)] at h
  cases h

/-- Neither in a name nor around it. -/
theorem validateRunAsUser_nulFree {user : String} (h : Executor.validateRunAsUser user = .ok ()) :
    NulFree user := by
  have hbody : ∀ c rest, Char.ofNat 0 ∈ c :: rest →
      (Executor.isAsciiAlphabetic c || c == '_') = true →
      ¬((Executor.usernameBody rest).all fun c =>
        Executor.isAsciiAlphanumeric c || c == '_' || c == '-') = true := by
    intro c rest hnul hfirst hall
    obtain rfl | hrest := List.mem_cons.mp hnul
    · exact absurd hfirst (by decide)
    · have hmem : Char.ofNat 0 ∈ Executor.usernameBody rest := by
        unfold Executor.usernameBody
        split
        · next hlast =>
          obtain ⟨front, rfl⟩ := List.getLast?_eq_some_iff.mp hlast
          rw [List.dropLast_concat]
          exact (List.mem_append.mp hrest).resolve_right (by decide)
        · exact hrest
      exact absurd (List.all_eq_true.mp hall _ hmem) (by decide)
  have htrimmed : Char.ofNat 0 ∉ (trim user).toList := by
    intro hnul
    unfold Executor.validateRunAsUser at h
    dsimp only at h
    split at h
    · cases h
    · split at h
      · cases h
      · cases hchars : (trim user).toList with
        | nil => simp [hchars] at hnul
        | cons c rest =>
          rw [hchars] at h hnul
          dsimp only at h
          split at h
          · cases h
          · next hfirst =>
            split at h
            · cases h
            · next hall =>
              rw [Bool.not_eq_true', Bool.not_eq_false] at hfirst hall
              exact hbody c rest hnul hfirst hall
  obtain ⟨before, after, hsplit, hbefore, hafter⟩ := exists_trimChars user.toList
  intro hnul
  rw [hsplit, List.mem_append, List.mem_append] at hnul
  obtain (hnul | hnul) | hnul := hnul
  · exact absurd (hbefore _ hnul) (by decide)
  · exact htrimmed (by rwa [trim, String.toList_ofList])
  · exact absurd (hafter _ hnul) (by decide)

theorem normalizeRunAsUser_nulFree {key : ApiKey} {requested : Option String}
    {stored : Option String} (h : normalizeRunAsUser key requested = .ok stored) :
    ∀ user ∈ stored, NulFree user := by
  unfold normalizeRunAsUser at h
  cases hasked : Executor.effectiveRunAsUser requested with
  | none =>
    simp only [hasked] at h
    obtain rfl := Except.ok.inj h
    intro user huser
    cases huser
  | some asked =>
    simp only [hasked] at h
    split at h
    · cases h
    · obtain ⟨u, hvalid, rfl⟩ := Except.map_eq_ok_iff.mp h
      intro user huser
      obtain rfl := Option.some.inj huser
      exact validateRunAsUser_nulFree (Except.mapError_eq_ok_iff.mp hvalid)

theorem validateParamKeys_ok {declared : List ParameterInput}
    (h : validateParamKeys declared = .ok ()) :
    ∀ param ∈ declared, Executor.isValidParamKey param.paramKey = true := by
  unfold validateParamKeys at h
  split at h
  · cases h
  · next hnone => simpa using List.find?_eq_none.mp hnone

theorem validateCreateHook_contract {ctx : Context} {key : ApiKey} {payload : CreateHookPayload}
    {checked : CheckedHook} (h : validateCreateHook ctx key payload = .ok checked) :
    NulFree payload.scriptPath ∧ (∀ user ∈ checked.runAsUser, NulFree user) ∧
      (∀ param ∈ checked.declared, Executor.isValidParamKey param.paramKey = true) ∧
      validateArgsTemplateMatchesParameters payload.argsTemplate
        (checked.declared.map (·.paramKey)) = .ok () := by
  simp only [validateCreateHook, Except.bind_eq_ok_iff] at h
  obtain ⟨_, -, runAsUser, haccount, _, -, _, hpath, _, -, _, hkeys, _, -, _, -, _, htemplate,
    hchecked⟩ := h
  obtain rfl := Except.ok.inj hchecked
  exact ⟨validateScriptPath_nulFree (Except.mapError_eq_ok_iff.mp hpath),
    normalizeRunAsUser_nulFree haccount, validateParamKeys_ok hkeys, htemplate⟩

/-! ### The handlers that write hooks and parameters -/

section Handlers

variable {ctx : Context} {key : ApiKey} {α : Type}

/-- Whatever is not a hook or a new parameter may be written. -/
theorem storesValidated_rest {p : Handler α}
    (hp : p.Emits (WritesAmong [.insertAuditLog, .upsertPermission, .deleteHooks, .deleteApiKeys])) :
    p.Emits StoresValidated :=
  storesValidated_of_writes hp (by decide)

theorem insertDeclared_storesValidated (hookId : Uuid) {declared : List ParameterInput}
    (hvalid : ∀ param ∈ declared, Executor.isValidParamKey param.paramKey = true) (draw : Nat) :
    (insertDeclared ctx hookId draw declared).Emits StoresValidated := by
  induction declared generalizing draw with
  | nil => trivial
  | cons param rest ih =>
    obtain ⟨hparam, hrest⟩ := List.forall_mem_cons.mp hvalid
    refine .bind (.bind (p := trySql _) ⟨hparam, fun _ => trivial⟩ fun inserted => ?_) fun _ =>
      ih hrest _
    cases inserted with
    | ok _ => trivial
    | error err => cases err <;> trivial

theorem createHook_storesValidated (payload : CreateHookPayload) :
    (createHook ctx key payload).Emits StoresValidated := by
  refine Program.emits_ofExcept_bind fun checked hchecked => ?_
  obtain ⟨hpath, haccount, hkeys, -⟩ := validateCreateHook_contract hchecked
  refine .bind ?_ fun _ => .bind (insertDeclared_storesValidated _ hkeys _) fun _ => ?_
  · refine .bind (p := trySql _) ⟨⟨hpath, haccount⟩, fun _ => trivial⟩ fun inserted => ?_
    cases inserted with
    | ok _ => trivial
    | error err =>
      cases err with
      | uniqueConstraintViolation =>
        exact storesValidated_rest (.bind (.map _ (emits_read rfl)) fun _ => trivial)
      | _ => trivial
  · exact storesValidated_rest (.bind (emits_write rfl (by decide)) fun _ =>
      .bind (createAuditLog_writes (by decide) _ _ _ _ _ _) fun _ =>
      .bind (findHookById_writes _) fun _ => .bind (emits_orElse _ _) fun _ =>
      buildHookDetail_writes _ _)

theorem writeHookUpdate_storesValidated (id : Uuid) {u : HookUpdate} (hu : u.Validated) :
    (writeHookUpdate id u).Emits StoresValidated := by
  refine .bind (p := trySql _) ⟨hu, fun _ => trivial⟩ fun updated => ?_
  cases updated with
  | ok _ => trivial
  | error err => cases err <;> trivial

/-- The account the payload asks for has been checked when the guards return it. -/
theorem guardUpdateHook_bind {model : Hook} {payload : UpdateHookPayload}
    {f : Option (Option String) → Handler α}
    (hf : ∀ runAsUser, normalizeRequestedRunAsUser key payload.runAsUser = .ok runAsUser →
      (f runAsUser).Emits StoresValidated) :
    ((guardUpdateHook key model payload).bind f).Emits StoresValidated := by
  simp only [guardUpdateHook, Program.bind_eq, Program.bind_assoc]
  refine .bind (storesValidated_rest (guardManage_writes _ _)) fun _ => .bind ?_ fun _ =>
    .bind (Program.emits_ofExcept _) fun _ => Program.emits_ofExcept_bind fun runAsUser hasked =>
    .bind ?_ fun _ => .bind (storesValidated_rest (requestedOwner_writes _ _)) fun _ =>
    hf runAsUser hasked
  · cases touchesDispatch payload with
    | true => exact storesValidated_rest (guardDispatchConfiguration_writes _ _)
    | false => trivial
  · cases payload.name.isSome with
    | true => exact Program.emits_ofExcept _
    | false => trivial

theorem hookChanges_validated {payload : UpdateHookPayload} {runAsUser : Option (Option String)}
    (haccount : normalizeRequestedRunAsUser key payload.runAsUser = .ok runAsUser)
    (hfields : validateHookFields ctx payload = .ok ()) (hmacSecret : Option String)
    (now : DateTime) : (hookChanges payload runAsUser hmacSecret now).Validated := by
  refine ⟨fun path hpath => ?_, fun user huser => ?_⟩
  · obtain ⟨_, hchecked, -⟩ := Except.bind_eq_ok_iff.mp hfields
    rw [show payload.scriptPath = some path from hpath] at hchecked
    exact validateScriptPath_nulFree (Except.mapError_eq_ok_iff.mp hchecked)
  · obtain rfl : runAsUser = some (some user) := huser
    unfold normalizeRequestedRunAsUser at haccount
    cases hasked : payload.runAsUser with
    | none => simp [hasked] at haccount
    | some raw =>
      simp only [hasked] at haccount
      obtain ⟨stored, hstored, hout⟩ := Except.map_eq_ok_iff.mp haccount
      obtain rfl := Option.some.inj hout
      exact normalizeRunAsUser_nulFree hstored user rfl

theorem updateHook_storesValidated (identifier : String) (payload : UpdateHookPayload) :
    (updateHook ctx key identifier payload).Emits StoresValidated := by
  refine .bind (storesValidated_rest (resolveHook_writes _)) fun model =>
    guardUpdateHook_bind fun runAsUser haccount =>
    Program.emits_ofExcept_bind fun _ hfields => .bind (Program.emits_ofExcept _) fun hmacSecret =>
    .bind (storesValidated_rest (loadParameters_writes _)) fun _ =>
    .bind (Program.emits_ofExcept _) fun _ =>
    .bind (writeHookUpdate_storesValidated _ (hookChanges_validated haccount hfields _ _)) fun _ =>
    storesValidated_rest ((createAuditLog_writes (by decide) _ _ _ _ _ _).bind fun _ =>
      buildHookDetail_writes _ _)

theorem HookUpdate.validated_of_none {u : HookUpdate} (hpath : u.scriptPath = none)
    (haccount : u.runAsUser = none) : u.Validated := by
  refine ⟨fun path hset => ?_, fun user hset => ?_⟩
  · rw [hpath] at hset
    cases hset
  · rw [haccount] at hset
    cases hset

theorem deleteHook_storesValidated (identifier : String) (query : DeleteHookQuery) :
    (deleteHook ctx key identifier query).Emits StoresValidated := by
  refine .bind (storesValidated_rest (resolveEither_writes _ _)) fun model =>
    .bind (storesValidated_rest (guardManage_writes _ _)) fun _ =>
    .bind (Program.emits_ofExcept _) fun _ => .bind (Program.emits_ofExcept _) fun _ => ?_
  cases query.hard.getD false with
  | true =>
    exact storesValidated_rest (.bind (Program.emits_require _ _) fun _ =>
      .bind (emits_write rfl (by decide)) fun _ => .bind (Program.emits_require _ _) fun _ =>
      createAuditLog_writes (by decide) _ _ _ _ _ _)
  | false =>
    exact .bind (p := sql _) (emits_sql _ |>.mpr (HookUpdate.validated_of_none rfl rfl)) fun _ =>
      storesValidated_rest (.bind (Program.emits_require _ _) fun _ =>
        createAuditLog_writes (by decide) _ _ _ _ _ _)

theorem restoreHook_storesValidated (identifier : String) :
    (restoreHook ctx key identifier).Emits StoresValidated :=
  .bind (Program.emits_require _ _) fun _ =>
    .bind (storesValidated_rest (resolveHookIncludingDeleted_writes _)) fun _ =>
    .bind (Program.emits_require _ _) fun _ =>
    .bind (p := sql _) (emits_sql _ |>.mpr (HookUpdate.validated_of_none rfl rfl)) fun _ =>
    storesValidated_rest ((createAuditLog_writes (by decide) _ _ _ _ _ _).bind fun _ =>
      (findHookById_writes _).bind fun _ => .bind (emits_orElse _ _) fun _ =>
      buildHookDetail_writes _ _)

theorem createHookParameter_storesValidated (identifier : String) (payload : ParameterInput) :
    (createHookParameter ctx key identifier payload).Emits StoresValidated := by
  refine .bind (storesValidated_rest (resolveHook_writes _)) fun _ =>
    .bind (storesValidated_rest (guardManage_writes _ _)) fun _ =>
    .bind (Program.emits_ofExcept _) fun _ => ?_
  by_cases hkey : Executor.isValidParamKey payload.paramKey = true
  · refine .bind (Program.emits_require _ _) fun _ => .bind (.bind (p := trySql _)
      ⟨hkey, fun _ => trivial⟩ fun inserted => ?_) fun _ => storesValidated_rest
      ((createAuditLog_writes (by decide) _ _ _ _ _ _).bind fun _ =>
        .bind (emits_read rfl) fun _ => emits_orElse _ _)
    cases inserted with
    | ok _ => trivial
    | error err => cases err <;> trivial
  · rw [Program.require, if_neg hkey]
    trivial

theorem applyResolutions_storesValidated (now : DateTime)
    (resolutions : List (Uuid × EntityResolution)) (counts : ResolutionCounts) :
    (applyResolutions key now resolutions counts).Emits StoresValidated := by
  induction resolutions generalizing counts with
  | nil => trivial
  | cons entry rest ih =>
    refine .bind (storesValidated_rest (findHookById_writes _)) fun found => ?_
    cases found with
    | none => exact ih _
    | some hook =>
      have hu : (resolutionUpdate key now entry.2).Validated := by
        cases entry.2 with
        | delete => exact HookUpdate.validated_of_none rfl rfl
        | reassign target => exact HookUpdate.validated_of_none rfl rfl
      exact .bind (p := sql _) (emits_sql _ |>.mpr hu) fun _ => ih _

theorem deleteApiKey_storesValidated (id : Uuid) (payload : DeleteApiKeyPayload) :
    (deleteApiKey ctx key id payload).Emits StoresValidated :=
  .bind (Program.emits_ofExcept _) fun _ => .bind (Program.emits_require _ _) fun _ =>
    .bind (storesValidated_rest (loadAdministrableKey_writes _ _)) fun _ =>
    .bind (Program.emits_ofExcept _) fun _ => .bind (Program.emits_ofExcept _) fun _ =>
    .bind (storesValidated_rest (collectSubtreeInventory_writes _)) fun _ =>
    .bind (Program.emits_ofExcept _) fun _ =>
    .bind (storesValidated_rest (validateReassignments_writes _ _)) fun _ =>
    .bind (applyResolutions_storesValidated _ _ _) fun _ =>
    storesValidated_rest (.bind (emits_write rfl (by decide)) fun _ =>
      .bind (Program.emits_require _ _) fun _ => createAuditLog_writes (by decide) _ _ _ _ _ _)

theorem handleAdmin_storesValidated (request : AdminRequest) :
    (handleAdmin ctx key request).Emits StoresValidated := by
  have hother : (Write.insertHook ∉ request.writes ∧ .updateHook ∉ request.writes ∧
      .updateHooks ∉ request.writes ∧ .insertHookParameter ∉ request.writes) →
      (handleAdmin ctx key request).Emits StoresValidated :=
    storesValidated_of_writes (handleAdmin_writes ctx key request)
  cases request with
  | createHook payload => exact .map _ (createHook_storesValidated _)
  | updateHook identifier payload => exact .map _ (updateHook_storesValidated _ _)
  | deleteHook identifier query => exact .map _ (deleteHook_storesValidated _ _)
  | restoreHook identifier => exact .map _ (restoreHook_storesValidated _)
  | createHookParameter identifier payload => exact .map _ (createHookParameter_storesValidated _ _)
  | deleteApiKey id payload => exact .map _ (deleteApiKey_storesValidated _ _)
  | _ => exact hother (by simp [AdminRequest.writes])

end Handlers

theorem Database.validated_empty : empty.Validated :=
  ⟨fun _ hp => absurd hp List.not_mem_nil, fun _ hh => absurd hh List.not_mem_nil,
    fun _ hh => absurd hh List.not_mem_nil⟩

/-- However the database came about. -/
theorem Reachable.validated {state : AppState} {w : World} (h : Reachable state w) :
    w.db.Validated := by
  have hboot : ∀ {state : AppState} {start : Startup} {db : Database} {w : World},
      (boot state start).run Op.exec (startProcess state start db) = (.ok (), w) →
      db.Validated → w.db.Validated := by
    intro state start db w started hdb
    have hafter := validated_run (storesValidated_of_writes (boot_writes state start) (by decide))
      (w := startProcess state start db) hdb
    rwa [started] at hafter
  have hpurge : ∀ {p : Handler Nat} {w : World}, p.Emits (WritesAmong [.deleteExecutions,
      .deleteHooks]) → w.db.Validated → (p.run Op.exec w).2.db.Validated :=
    fun hp hw => validated_run (storesValidated_of_writes hp (by decide)) hw
  induction h with
  | start start started => exact hboot started Database.validated_empty
  | restart _ start started ih => exact hboot started ih
  | @serve _ w _ ctx clock req _ ih =>
    obtain ⟨-, hagree⟩ | ⟨key, request, w₁, -, hdb, hafter⟩ :=
      serve_agree_or_admin ctx clock req w
    · refine ih.of_subset (fun h hh => ?_) (fun p hp => ?_)
      · exact (hagree .hooks (by decide) : _ = _) ▸ hh
      · exact (hagree .hookParameters (by decide) : _ = _) ▸ hp
    · rw [hafter]
      exact validated_run (handleAdmin_storesValidated request) (hdb ▸ ih)
  | sweepExecutions _ now ih => exact hpurge (purgeExpiredExecutions_writes _ _ (by decide)) ih
  | sweepDeletedHooks _ now ih => exact hpurge (purgeExpiredDeletedHooks_writes _ _ (by decide)) ih

end HookExecutor
