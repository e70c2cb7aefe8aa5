import HookExecutor.Verification.Amplification
import HookExecutor.Verification.Sample

/-!
# Creating a hook

A hook is created by a sequence of inserts with every check in front of them.
What no check looks at is whether the payload declares one parameter twice; the
database does, in the middle of the sequence, and by then the hook and the
parameters before the repeated one are there to stay.
-/

namespace HookExecutor

open Text

/-- No row is named by this identifier, or belongs to a hook that is. -/
structure Database.Unseen (db : Database) (id : Uuid) : Prop where
  hooks : ∀ h ∈ db.hooks, h.id ≠ id
  parameters : ∀ p ∈ db.hookParameters, p.id ≠ id ∧ p.hookId ≠ id
  permissions : ∀ p ∈ db.permissions, p.id ≠ id ∧ p.hookId ≠ id
  auditLogs : ∀ l ∈ db.auditLogs, l.id ≠ id

/-- The first identifiers a request draws are all different, and new. -/
structure Draws.FreshFor (draws : Draws) (count : Nat) (db : Database) : Prop where
  distinct : ∀ i < count, ∀ j < count, draws.uuid i = draws.uuid j → i = j
  unseen : ∀ i < count, db.Unseen (draws.uuid i)

def CreateHookPayload.declared (payload : CreateHookPayload) : List ParameterInput :=
  payload.parameters.getD []

/-! ### The inserts -/

section Inserts

variable {ctx : Context} {key : ApiKey} {w : World}

/-- A parameter with a new identifier is refused for its key or added. -/
theorem insertParameter_run {row : HookParameter} (duplicate : AppError)
    (hhook : w.db.hasHook row.hookId = true) (hid : ∀ p ∈ w.db.hookParameters, p.id ≠ row.id) :
    ((∀ p ∈ w.db.hookParameters, p.hookId = row.hookId → p.paramKey ≠ row.paramKey) ∧
        (insertParameter row duplicate).run Op.exec w = (.ok (), { w with db := { w.db with
          hookParameters := w.db.hookParameters ++ [row] } })) ∨
      ((∃ p ∈ w.db.hookParameters, p.hookId = row.hookId ∧ p.paramKey = row.paramKey) ∧
        (insertParameter row duplicate).run Op.exec w = (.error duplicate, w)) := by
  by_cases htaken : ∃ p ∈ w.db.hookParameters, p.hookId = row.hookId ∧ p.paramKey = row.paramKey
  · obtain ⟨p, hp, hsame⟩ := htaken
    have hcollides : (w.db.hookParameters.any fun p =>
        p.id == row.id || (p.hookId == row.hookId && p.paramKey == row.paramKey)) = true :=
      List.any_eq_true.mpr ⟨p, hp, by simp [hsame]⟩
    refine .inr ⟨⟨p, hp, hsame⟩, ?_⟩
    simp [insertParameter, Program.run_bind, Stmt.exec, Database.insertHookParameter, hcollides]
  · have hfree : ¬(w.db.hookParameters.any fun p =>
        p.id == row.id || (p.hookId == row.hookId && p.paramKey == row.paramKey)) = true := by
      simp only [List.any_eq_true, Bool.or_eq_true, beq_iff_eq, Bool.and_eq_true]
      rintro ⟨p, hp, hpid | hsame⟩
      · exact hid p hp hpid
      · exact htaken ⟨p, hp, hsame⟩
    refine .inl ⟨fun p hp hphook hpkey => htaken ⟨p, hp, hphook, hpkey⟩, ?_⟩
    simp [insertParameter, Program.run_bind, Stmt.exec, Database.insertHookParameter, hfree, hhook]

/-- The rows the declared parameters become. -/
def parameterRows (ctx : Context) (hookId : Uuid) (draw : Nat) :
    List ParameterInput → List HookParameter
  | [] => []
  | param :: rest => parameterRow ctx draw hookId param :: parameterRows ctx hookId (draw + 1) rest

theorem parameterRows_declared (ctx : Context) (hookId : Uuid) (draw : Nat)
    (declared : List ParameterInput) :
    List.Forall₂ (fun param row => row.hookId = hookId ∧ row.paramKey = param.paramKey ∧
        row.description = param.description ∧ row.defaultValue = param.defaultValue ∧
        row.isRequired = param.isRequired.getD true)
      declared (parameterRows ctx hookId draw declared) := by
  induction declared generalizing draw with
  | nil => exact .nil
  | cons param rest ih => exact .cons ⟨rfl, rfl, rfl, rfl, rfl⟩ (ih (draw + 1))

/-- A hook's parameters and those still to be declared for it share no key. -/
def Database.KeysFree (db : Database) (hookId : Uuid) (declared : List ParameterInput) : Prop :=
  ∀ p ∈ db.hookParameters, p.hookId = hookId → ∀ param ∈ declared, p.paramKey ≠ param.paramKey

/-- The identifiers drawn from here on name no parameter, and differ. -/
structure Draws.ParametersFresh (draws : Draws) (draw count : Nat) (db : Database) : Prop where
  distinct : ∀ i < count, ∀ j < count, draws.uuid (draw + i) = draws.uuid (draw + j) → i = j
  unseen : ∀ i < count, ∀ p ∈ db.hookParameters, p.id ≠ draws.uuid (draw + i)

theorem Draws.ParametersFresh.tail {draws : Draws} {draw count : Nat} {db : Database}
    (h : draws.ParametersFresh draw (count + 1) db) {row : HookParameter}
    (hrow : row.id = draws.uuid draw) :
    draws.ParametersFresh (draw + 1) count
      { db with hookParameters := db.hookParameters ++ [row] } := by
  have hshift : ∀ i, draw + 1 + i = draw + (i + 1) := fun i => by omega
  constructor
  · intro i hi j hj heq
    rw [hshift, hshift] at heq
    have := h.distinct (i + 1) (by omega) (j + 1) (by omega) heq
    omega
  · intro i hi p hp
    rw [hshift]
    rcases List.mem_append.mp hp with hp | hp
    · exact h.unseen (i + 1) (by omega) p hp
    · rw [List.mem_singleton.mp hp, hrow]
      intro heq
      have := h.distinct 0 (by omega) (i + 1) (by omega) heq
      omega

/-- The parameters are all declared if their keys are distinct and new to the
hook. Otherwise some key ends the sequence. -/
theorem insertDeclared_run {hookId : Uuid} (declared : List ParameterInput) (draw : Nat)
    (hhook : w.db.hasHook hookId = true)
    (hfresh : ctx.draws.ParametersFresh draw declared.length w.db) :
    (w.db.KeysFree hookId declared ∧ (declared.map (·.paramKey)).Nodup ∧
        (insertDeclared ctx hookId draw declared).run Op.exec w =
          (.ok (), { w with db := { w.db with hookParameters :=
            w.db.hookParameters ++ parameterRows ctx hookId draw declared } })) ∨
      (¬(w.db.KeysFree hookId declared ∧ (declared.map (·.paramKey)).Nodup) ∧
        ∃ e w', (insertDeclared ctx hookId draw declared).run Op.exec w = (.error e, w')) := by
  induction declared generalizing w draw with
  | nil => exact .inl ⟨fun _ _ _ _ h => absurd h List.not_mem_nil, List.nodup_nil,
      by simp [insertDeclared, parameterRows]⟩
  | cons param rest ih =>
    set row := parameterRow ctx draw hookId param
    set duplicate : AppError := .conflict s!"Duplicate parameter '{param.paramKey}' for this hook"
    have hinsert := insertParameter_run duplicate (show w.db.hasHook row.hookId = true
      from hhook) (hfresh.unseen 0 (by simp))
    rcases hinsert with ⟨hnew, hrun⟩ | ⟨⟨p, hp, hid, hkey⟩, hrun⟩
    · set t : World := { w with db := { w.db with
        hookParameters := w.db.hookParameters ++ [row] } } with ht
      -- what is free after the first insert is what is free and not the first key
      have hfree : t.db.KeysFree hookId rest ∧ (rest.map (·.paramKey)).Nodup ↔
          w.db.KeysFree hookId (param :: rest) ∧ ((param :: rest).map (·.paramKey)).Nodup := by
        rw [List.map_cons, List.nodup_cons]
        constructor
        · rintro ⟨hkeys, hnodup⟩
          refine ⟨fun p hp hid other hother => ?_, fun hmem => ?_, hnodup⟩
          · rcases List.mem_cons.mp hother with rfl | hother
            · exact hnew p hp hid
            · exact hkeys p (List.mem_append_left _ hp) hid other hother
          · obtain ⟨other, hother, heq⟩ := List.mem_map.mp hmem
            exact hkeys row (List.mem_append_right _ (List.mem_singleton_self _)) rfl other hother
              heq.symm
        · rintro ⟨hkeys, hfirst, hnodup⟩
          refine ⟨fun p hp hid other hother => ?_, hnodup⟩
          rcases List.mem_append.mp hp with hp | hp
          · exact hkeys p hp hid other (List.mem_cons_of_mem _ hother)
          · rw [List.mem_singleton.mp hp]
            exact fun heq => hfirst (List.mem_map.mpr ⟨other, hother, heq.symm⟩)
      rw [insertDeclared, Program.bind_eq, Program.run_bind_ok hrun]
      rcases ih (w := t) (draw + 1) hhook (hfresh.tail rfl) with
        ⟨hkeys, hnodup, hrest⟩ | ⟨htaken, hrest⟩
      · obtain ⟨hkeys, hnodup⟩ := hfree.mp ⟨hkeys, hnodup⟩
        refine .inl ⟨hkeys, hnodup, hrest.trans ?_⟩
        simp [ht, parameterRows, row]
      · exact .inr ⟨fun h => htaken (hfree.mpr h), hrest⟩
    · refine .inr ⟨fun h => h.1 p hp hid param List.mem_cons_self hkey, ?_⟩
      rw [insertDeclared]
      exact ⟨_, _, Program.run_bind_error hrun⟩

/-- The row of a key on a hook that has none yet. -/
theorem grantFullHookPermission_run {draw : Nat} {hookId : Uuid}
    (hkey : w.db.hasApiKey key.id = true) (hhook : w.db.hasHook hookId = true)
    (hnew : ∀ p ∈ w.db.permissions, p.id ≠ ctx.draws.uuid draw ∧ p.hookId ≠ hookId) :
    (grantFullHookPermission ctx draw key.id hookId).run Op.exec w =
      (.ok (), { w with db := { w.db with permissions :=
        w.db.permissions ++ [fullPermission ctx draw key.id hookId] } }) := by
  have hsame : ¬(w.db.permissions.any fun p =>
      p.apiKeyId == key.id && p.hookId == hookId) = true := by
    simpa using fun p hp _ => (hnew p hp).2
  have hid : ¬(w.db.permissions.any fun p => p.id == ctx.draws.uuid draw) = true := by
    simpa using fun p hp => (hnew p hp).1
  simp [grantFullHookPermission, Stmt.exec, Database.upsertPermission, fullPermission, hsame, hid,
    hkey, hhook, Except.mapError]

theorem buildHookDetail_run (key : ApiKey) (model : Hook) (w : World) :
    ∃ detail, (buildHookDetail key model).run Op.exec w = (.ok detail, w) := by
  by_cases hmaster : key.isMaster = true
  · simp [buildHookDetail, loadParameters, Program.run_bind, Stmt.exec, Except.mapError, hmaster]
  · simp [buildHookDetail, loadParameters, Program.run_bind, Stmt.exec, Except.mapError, hmaster]

end Inserts

/-! ### The request -/

section Creation

variable {ctx : Context} {key : ApiKey} {payload : CreateHookPayload} {w : World}

theorem validateCreateHook_ok {checked : CheckedHook}
    (h : validateCreateHook ctx key payload = .ok checked) :
    checked.name = trim payload.name ∧ checked.declared = payload.declared := by
  simp only [validateCreateHook, Except.bind_eq_ok_iff] at h
  obtain ⟨_, -, _, -, _, -, _, -, _, -, _, -, _, -, _, -, _, -, h⟩ := h
  cases h
  exact ⟨rfl, rfl⟩

/-- What a successful creation adds, and all that it changes. -/
def HookCreated (key : ApiKey) (payload : CreateHookPayload) (before after : Database) : Prop :=
  ∃ row params permission audit,
    after = { before with
      hooks := before.hooks ++ [row]
      hookParameters := before.hookParameters ++ params
      permissions := before.permissions ++ [permission]
      auditLogs := before.auditLogs ++ [audit] } ∧
    (row.name = trim payload.name ∧ row.ownerKeyId = some key.id ∧ row.isDeleted = false) ∧
    List.Forall₂ (fun param stored => stored.hookId = row.id ∧
        stored.paramKey = param.paramKey ∧ stored.description = param.description ∧
        stored.defaultValue = param.defaultValue ∧
        stored.isRequired = param.isRequired.getD true) payload.declared params ∧
    (permission.apiKeyId = key.id ∧ permission.hookId = row.id ∧ permission.canExecute = true ∧
      permission.canManage = true ∧ permission.canViewExecution = true) ∧
    audit.action = "HOOK_CREATE" ∧ audit.apiKeyId = some key.id ∧
      audit.targetResource = some row.name

/-- Everything or nothing: the tables a creation writes are as they were if it
is answered with an error. -/
def AllOrNothing (ctx : Context) (key : ApiKey) (payload : CreateHookPayload) (w : World) : Prop :=
  let out := (createHook ctx key payload).run Op.exec w
  match out.1 with
  | .ok _ => HookCreated key payload w.db out.2.db
  | .error _ => out.2.db.hooks = w.db.hooks ∧ out.2.db.hookParameters = w.db.hookParameters ∧
      out.2.db.permissions = w.db.permissions ∧ out.2.db.auditLogs = w.db.auditLogs

/-- The request does not come as far as an insert that takes effect. -/
def RefusedOutright (ctx : Context) (key : ApiKey) (payload : CreateHookPayload)
    (db : Database) : Prop :=
  (∃ e, validateCreateHook ctx key payload = .error e) ∨
    ∃ h ∈ db.hooks, h.name = trim payload.name

/-- What a creation is given: a creator that exists, and identifiers no row has. -/
structure CanCreate (ctx : Context) (key : ApiKey) (payload : CreateHookPayload)
    (db : Database) : Prop where
  creator : key ∈ db.apiKeys
  fresh : ctx.draws.FreshFor (3 + payload.declared.length) db

/-- A refusal before the first insert leaves nothing behind. -/
theorem createHook_refused (h : RefusedOutright ctx key payload w.db) :
    ∃ e, (createHook ctx key payload).run Op.exec w = (.error e, w) := by
  cases hvalid : validateCreateHook ctx key payload with
  | error e => exact ⟨e, Program.run_bind_error (by simp [hvalid])⟩
  | ok checked =>
    obtain ⟨g, hg, hname⟩ : ∃ g ∈ w.db.hooks, g.name = trim payload.name := by
      simpa [RefusedOutright, hvalid] using h
    have hchecked : (Program.ofExcept (validateCreateHook ctx key payload) :
        Handler CheckedHook).run Op.exec w = (.ok checked, w) := by simp [hvalid]
    rcases insertNewHook_run (newHook ctx key payload checked) w with
      ⟨hfree, -⟩ | ⟨-, trashed, hrun⟩
    · exact absurd (hname.trans (validateCreateHook_ok hvalid).1.symm) (hfree g hg).2
    · rw [createHook, Program.bind_eq, Program.run_bind_ok hchecked]
      exact ⟨_, Program.run_bind_error hrun⟩

/-- Past the checks and the insert of the hook, the parameters decide. -/
theorem createHook_inserted (hcan : CanCreate ctx key payload w.db)
    (hok : ¬RefusedOutright ctx key payload w.db) :
    ((payload.declared.map (·.paramKey)).Nodup ∧ ∃ detail w',
        (createHook ctx key payload).run Op.exec w = (.ok detail, w') ∧
          HookCreated key payload w.db w'.db) ∨
      (¬(payload.declared.map (·.paramKey)).Nodup ∧ ∃ e w' row,
        (createHook ctx key payload).run Op.exec w = (.error e, w') ∧
          w'.db.hooks = w.db.hooks ++ [row]) := by
  obtain ⟨hvalid, hname⟩ := not_or.mp hok
  cases hchecks : validateCreateHook ctx key payload with
  | error e => exact absurd ⟨e, hchecks⟩ hvalid
  | ok checked =>
    obtain ⟨hcheckedName, hdeclared⟩ := validateCreateHook_ok hchecks
    have hchecked : (Program.ofExcept (validateCreateHook ctx key payload) :
        Handler CheckedHook).run Op.exec w = (.ok checked, w) := by simp [hchecks]
    have hunseen : ∀ i < 3 + payload.declared.length, w.db.Unseen (ctx.draws.uuid i) :=
      hcan.fresh.unseen
    rw [createHook, Program.bind_eq, Program.run_bind_ok hchecked]
    set row := newHook ctx key payload checked with hrow
    rcases insertNewHook_run row w with ⟨-, hinsert⟩ | ⟨⟨g, hg, hcollides⟩, -⟩
    · set w₁ : World := { w with db := { w.db with hooks := w.db.hooks ++ [row] } } with hw₁
      have hhook : w₁.db.hasHook row.id = true := by simp [hw₁, Database.hasHook]
      have hcreator : w₁.db.hasApiKey key.id = true :=
        List.any_eq_true.mpr ⟨key, hcan.creator, by simp⟩
      have hparams : ctx.draws.ParametersFresh 3 checked.declared.length w₁.db := by
        rw [hdeclared]
        constructor
        · intro i hi j hj heq
          have := hcan.fresh.distinct (3 + i) (by omega) (3 + j) (by omega) heq
          omega
        · exact fun i hi p hp => ((hunseen (3 + i) (by omega)).parameters p hp).1
      have hfree : w₁.db.KeysFree row.id checked.declared := fun p hp hid =>
        absurd hid ((hunseen 0 (by omega)).parameters p hp).2
      rw [Program.bind_eq, Program.run_bind_ok hinsert]
      rcases insertDeclared_run checked.declared 3 hhook hparams with
        ⟨-, hnodup, hdeclare⟩ | ⟨htaken, e, w', hdeclare⟩
      · set params := parameterRows ctx row.id 3 checked.declared with hparamRows
        have hpermissions : ∀ p ∈ w₁.db.permissions, p.id ≠ ctx.draws.uuid 1 ∧ p.hookId ≠ row.id :=
          fun p hp => ⟨((hunseen 1 (by omega)).permissions p hp).1,
            ((hunseen 0 (by omega)).permissions p hp).2⟩
        have hfound : (w.db.hooks ++ [row]).find? (·.id == row.id) = some row := by
          have hold : ∀ g ∈ w.db.hooks, ¬(g.id == row.id) = true := fun g hg =>
            beq_iff_eq.not.mpr ((hunseen 0 (by omega)).hooks g hg)
          rw [List.find?_append, List.find?_eq_none.mpr hold]
          simp
        set w₂ : World := { w₁ with db := { w₁.db with
          hookParameters := w₁.db.hookParameters ++ params } }
        set w₃ : World := { w₂ with db := { w₂.db with permissions :=
          w₂.db.permissions ++ [fullPermission ctx 1 key.id row.id] } }
        rw [Program.bind_eq, Program.run_bind_ok hdeclare, Program.bind_eq, Program.run_bind_ok
          (grantFullHookPermission_run (w := w₂) hcreator hhook hpermissions), Program.bind_eq,
          Program.run_bind_ok (createAuditLog_run (w := w₃) hcreator
            (hunseen 2 (by omega)).auditLogs),
          Program.bind_eq, Program.run_bind_ok (run_findHookById _ _), Program.bind_eq,
          Program.run_bind_ok (a := row) (by rw [run_orElse, Database.hookWithId, hfound]; rfl)]
        obtain ⟨detail, hdetail⟩ := buildHookDetail_run key row _
        refine .inl ⟨hdeclared ▸ hnodup, detail, _, hdetail, row, params, _, _, rfl,
          ⟨hcheckedName, rfl, rfl⟩, ?_, ⟨rfl, rfl, rfl, rfl, rfl⟩, rfl, rfl, rfl⟩
        rw [← hdeclared]
        exact parameterRows_declared ctx row.id 3 checked.declared
      · refine .inr ⟨hdeclared ▸ fun hnodup => htaken ⟨hfree, hnodup⟩, e, w', row,
          Program.run_bind_error hdeclare, ?_⟩
        have hkept : w'.db.hooks = w₁.db.hooks := by
          have := Handler.run_agree (t := .hooks) (insertDeclared_writes
            (W := [.insertHookParameter]) (by decide) ctx row.id checked.declared 3)
            (by decide) w₁
          rw [hdeclare] at this
          exact this
        exact hkept
    · rcases hcollides with hid | hsame
      · exact absurd hid ((hunseen 0 (by omega)).hooks g hg)
      · exact absurd ⟨g, hg, hsame.trans hcheckedName⟩ hname

/-- A creation is all or nothing exactly if no parameter is declared twice, or
the request does not get as far as an insert. -/
theorem allOrNothing_iff (hcan : CanCreate ctx key payload w.db) :
    AllOrNothing ctx key payload w ↔
      (payload.declared.map (·.paramKey)).Nodup ∨ RefusedOutright ctx key payload w.db := by
  by_cases hrefused : RefusedOutright ctx key payload w.db
  · obtain ⟨e, hrun⟩ := createHook_refused hrefused
    simp [AllOrNothing, hrun, hrefused]
  · rcases createHook_inserted hcan hrefused with
      ⟨hnodup, detail, w', hrun, hcreated⟩ | ⟨htwice, e, w', row, hrun, hleft⟩
    · simp [AllOrNothing, hrun, hnodup, hcreated]
    · simp [AllOrNothing, hrun, hrefused, htwice, hleft]

end Creation

section Sample

open Sample

/-- A hook the master declares, with parameters of these keys. -/
def declaring (keys : List String) : CreateHookPayload :=
  { name := "deploy"
    scriptPath := "/opt/deploy.sh"
    parameters := some (keys.map fun paramKey => { paramKey := paramKey }) }

theorem canCreate_booted (keys : List String) (h : keys.length = 2) :
    CanCreate (ctx 3) Sample.masterRow (declaring keys) booted.db := by
  have hlength : (declaring keys).declared.length = 2 := by
    simp [declaring, CreateHookPayload.declared, h]
  refine ⟨List.mem_singleton_self _, ?_⟩
  rw [hlength]
  refine ⟨by decide, fun i _ => ?_⟩
  constructor <;> simp [booted, worldOf, Database.empty]

theorem allOrNothing_iff_deploy :
    AllOrNothing (ctx 3) Sample.masterRow (declaring ["tag", "env"]) booted ↔
      ((declaring ["tag", "env"]).declared.map (·.paramKey)).Nodup ∨
        RefusedOutright (ctx 3) Sample.masterRow (declaring ["tag", "env"]) booted.db :=
  allOrNothing_iff (canCreate_booted _ rfl)

/-- Declaring `tag` twice: the master is answered with a conflict, and the hook
is there, without a row that lets anybody but the master use it. -/
theorem half_created :
    CanCreate (ctx 3) Sample.masterRow (declaring ["tag", "tag"]) booted.db ∧
      ¬AllOrNothing (ctx 3) Sample.masterRow (declaring ["tag", "tag"]) booted := by
  have hrun : ((createHook (ctx 3) Sample.masterRow (declaring ["tag", "tag"])).run Op.exec
        booted).1.toOption.isNone = true ∧
      ((createHook (ctx 3) Sample.masterRow (declaring ["tag", "tag"])).run Op.exec
        booted).2.db.hooks ≠ booted.db.hooks := by decide
  refine ⟨canCreate_booted _ rfl, fun h => ?_⟩
  unfold AllOrNothing at h
  cases hout : (createHook (ctx 3) Sample.masterRow (declaring ["tag", "tag"])).run Op.exec
    booted with
  | mk r t =>
    rw [hout] at h hrun
    cases r with
    | ok _ => simp [Except.toOption] at hrun
    | error e => exact hrun.2 h.1

end Sample

end HookExecutor
