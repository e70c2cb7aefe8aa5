import HookExecutor.Verification.Reachability
import HookExecutor.Verification.TwoWorlds
import HookExecutor.Verification.Sample

/-!
# What an unreadable execution gives away

A caller that may not read a record is to be answered as if it had never been
written. Reading it and listing the history are. Deleting it is refused in two
ways, and a caller that holds any row on the record's hook is told that the
record exists.
-/

namespace HookExecutor

namespace Database

/-- Executions have identifiers of their own. -/
def DistinctExecutions (db : Database) : Prop := (db.executions.map (·.id)).Nodup

/-- The database without one record. -/
def withoutExecution (db : Database) (id : Uuid) : Database :=
  { db with executions := db.executions.filter (·.id != id) }

/-- Whether a caller may read a record. -/
def mayRead (db : Database) (key : ApiKey) (execution : Execution) : Bool :=
  key.isMaster || execution.apiKeyId == some key.id ||
    (db.hookWithId execution.hookId).any (fun h => h.ownerKeyId == some key.id) ||
    (db.permissionOf key.id execution.hookId).any fun p => p.canViewExecution || p.canManage

end Database

theorem Stmt.exec_distinctExecutions {β : Type} (s : Stmt β) {db : Database}
    (h : db.DistinctExecutions) : (s.exec db).2.DistinctExecutions := by
  have hsub : ∀ {rows : List Execution}, rows.Sublist db.executions →
      (rows.map (·.id)).Nodup := fun hrows => h.sublist (hrows.map _)
  have hother : (∀ k ∈ s.write?, Table.executions ∉ k.tables) →
      (s.exec db).2.DistinctExecutions := fun hs => by
    rw [Database.DistinctExecutions, show _ = db.executions from s.exec_agree db hs]
    exact h
  cases s with
  | insertExecution row =>
    change (db.insertExecution row).2.DistinctExecutions
    unfold Database.insertExecution
    split
    · exact h
    · rename_i hfree
      split
      · simp only [Database.DistinctExecutions, List.map_append, List.map_cons, List.map_nil]
        refine List.Nodup.append h (List.nodup_singleton _) ?_
        intro id hid hrow
        obtain ⟨x, hx, rfl⟩ := List.mem_map.mp hid
        exact hfree (List.any_eq_true.mpr ⟨x, hx, by simp [List.mem_singleton.mp hrow]⟩)
      · exact h
  | deleteExecutions c => exact hsub List.filter_sublist
  | deleteHooks c => exact hsub List.filter_sublist
  | deleteApiKeys c =>
    have hids : ((db.deleteApiKeys c).2.executions.map (·.id)) = db.executions.map (·.id) := by
      simp only [Database.deleteApiKeys, List.map_map]
      refine List.map_congr_left fun x _ => ?_
      simp only [Function.comp_apply]
      split <;> rfl
    change ((db.deleteApiKeys c).2.executions.map (·.id)).Nodup
    rw [hids]
    exact h
  | _ => exact hother (by simp [Stmt.write?, Write.tables])

theorem Reachable.distinctExecutions {state : AppState} {w : World} (h : Reachable state w) :
    w.db.DistinctExecutions :=
  h.database (J := Database.DistinctExecutions) List.nodup_nil Stmt.exec_distinctExecutions

section Reading

variable {w : World} {db : Database} {key : ApiKey} {X : Execution}

@[simp] theorem run_mayReadExecution (w : World) (key : ApiKey) (execution : Execution) :
    (mayReadExecution key execution).run Op.exec w = (.ok (w.db.mayRead key execution), w) := by
  unfold mayReadExecution Database.mayRead
  by_cases hown : (key.isMaster || execution.apiKeyId == some key.id) = true
  · simp [hown]
  · by_cases howner :
        ((w.db.hookWithId execution.hookId).any fun h => h.ownerKeyId == some key.id) = true
    · simp [hown, howner, Program.run_bind]
    · simp [hown, howner, Program.run_bind]

@[simp] theorem run_findExecutionById (w : World) (id : Uuid) :
    (findExecutionById id).run Op.exec w = (.ok (w.db.executions.find? (·.id == id)), w) := by
  simp [findExecutionById, Program.run_bind, Stmt.exec, Except.mapError, List.head?_filter]
  rfl

/-- A record found by its identifier is the record with it. -/
theorem Database.DistinctExecutions.find?_eq (h : db.DistinctExecutions)
    (hX : X ∈ db.executions) : db.executions.find? (·.id == X.id) = some X := by
  cases hfound : db.executions.find? (·.id == X.id) with
  | none => simpa using List.find?_eq_none.mp hfound X hX
  | some x =>
    have hid : x.id = X.id := by simpa using List.find?_some hfound
    exact congrArg some (List.inj_on_of_nodup_map h (List.mem_of_find?_eq_some hfound) hX hid)

@[simp] theorem Database.withoutExecution_find? (db : Database) (id : Uuid) :
    (db.withoutExecution id).executions.find? (·.id == id) = none := by
  simp [withoutExecution]

theorem Database.mayRead_false (h : db.mayRead key X = false) :
    key.isMaster = false ∧ X.apiKeyId ≠ some key.id ∧
      (∀ hook, db.hookWithId X.hookId = some hook → hook.ownerKeyId ≠ some key.id) ∧
      ∀ row, db.permissionOf key.id X.hookId = some row →
        row.canViewExecution = false ∧ row.canManage = false := by
  simp only [mayRead, Bool.or_eq_false_iff, beq_eq_false_iff_ne] at h
  obtain ⟨⟨⟨hmaster, hauthor⟩, howner⟩, hrow⟩ := h
  refine ⟨hmaster, hauthor, fun hook hhook => ?_, fun row hheld => ?_⟩
  · simpa [hhook] using howner
  · simpa [hheld] using hrow

/-- A record the caller may not read is not there to be read. -/
theorem getExecution_hidden (ctx : Context) (hdistinct : w.db.DistinctExecutions)
    (hX : X ∈ w.db.executions) (hhidden : w.db.mayRead key X = false) :
    ((getExecution ctx key X.id).run Op.exec w).1 = .error .notFound := by
  simp [getExecution, Program.run_bind, hdistinct.find?_eq hX, hhidden]

theorem getExecution_absent (ctx : Context) (key : ApiKey) {id : Uuid}
    (habsent : w.db.executions.find? (·.id == id) = none) :
    ((getExecution ctx key id).run Op.exec w).1 = .error .notFound := by
  simp [getExecution, Program.run_bind, habsent]

/-- R2 words its refusal like any other missing verb. -/
theorem verbDenied_manage (row : Permission) :
    verbDenied (some row) "manage" =
      .forbidden "Permission denied: You do not have manage access to this hook" := by
  rfl

/-- Nor to be deleted, except that a caller with a row on the hook is told it
may not. -/
theorem deleteExecution_hidden (ctx : Context) (hwf : w.db.WellFormed)
    (hdistinct : w.db.DistinctExecutions) (hX : X ∈ w.db.executions)
    (hhidden : w.db.mayRead key X = false) :
    ((deleteExecution ctx key X.id).run Op.exec w).1 =
      .error (verbDenied (w.db.permissionOf key.id X.hookId) "manage") := by
  obtain ⟨hmaster, -, howner, hrow⟩ := Database.mayRead_false hhidden
  cases hhook : w.db.hookWithId X.hookId with
  | none =>
    have hnone : w.db.permissionOf key.id X.hookId = none := by
      by_contra hsome
      obtain ⟨row, hheld⟩ := Option.ne_none_iff_exists'.mp hsome
      obtain ⟨hmem, -, hid⟩ := Database.permissionOf_mem hheld
      obtain ⟨g, hg, hgid⟩ := List.mem_map.mp
        (hwf.grantHooks _ (List.mem_map_of_mem (f := fun p => (p.apiKeyId, p.hookId)) hmem))
      exact absurd (List.find?_eq_none.mp hhook g hg) (by simp [hgid, hid])
    simp [deleteExecution, Program.run_bind, hdistinct.find?_eq hX, hhook, hnone, verbDenied]
  | some hook =>
    have hexempt : (key.isMaster || hook.ownerKeyId == some key.id) = false := by
      simp [hmaster, howner hook hhook]
    obtain ⟨-, hid⟩ := Database.hookWithId_mem hhook
    have hguard : w.db.conjunctionUnless (key.isMaster || hook.ownerKeyId == some key.id) key
        hook.id = .error (verbDenied (w.db.permissionOf key.id X.hookId) "manage") := by
      rw [hexempt, hid]
      unfold Database.conjunctionUnless Database.conjunction
      cases hheld : w.db.permissionOf key.id X.hookId with
      | none => rfl
      | some row => simp [(hrow row hheld).2, Except.map, verbDenied_manage]
    simp [deleteExecution, Program.run_bind, hdistinct.find?_eq hX, hhook, hguard]

theorem deleteExecution_absent (ctx : Context) (key : ApiKey) (id : Uuid)
    (habsent : w.db.executions.find? (·.id == id) = none) :
    ((deleteExecution ctx key id).run Op.exec w).1 = .error .notFound := by
  simp [deleteExecution, Program.run_bind, habsent]

/-! ### Listing -/

/-- The hooks whose history the caller may read, whoever made it. -/
def Database.readableHooks (db : Database) (key : ApiKey) : List Uuid :=
  ((db.hooks.filter (HookCondition.ownerKeyIdIn [key.id]).holds).map (·.id) ++
    (db.permissions.filter (PermissionCondition.and (.apiKeyIdEq key.id)
      (.or .canViewExecution .canManage)).holds).map (·.hookId)).dedup

/-- The filter that keeps a listing to what the caller may read. -/
def Database.executionVisibility (db : Database) (key : ApiKey) : ExecutionCondition :=
  if key.isMaster then .all
  else if (db.readableHooks key).isEmpty then .apiKeyIdEq key.id
  else .or (.apiKeyIdEq key.id) (.hookIdIn (db.readableHooks key))

@[simp] theorem run_executionVisibility (w : World) (key : ApiKey) :
    (executionVisibility key).run Op.exec w = (.ok (w.db.executionVisibility key), w) := by
  have hreadable : (executionVisibleHookIds key).run Op.exec w =
      (.ok (w.db.readableHooks key), w) := by
    simp [executionVisibleHookIds, Program.run_bind, Stmt.exec, Except.mapError,
      Database.orderHooks, Database.readableHooks]
  unfold executionVisibility Database.executionVisibility
  cases key.isMaster with
  | true => rfl
  | false =>
    simp only [Bool.false_eq_true, if_false, Program.bind_eq, Program.run_bind_ok hreadable]
    split <;> rfl

/-- The filter lets through nothing that may not be read. -/
theorem Database.executionVisibility_holds (hwf : db.WellFormed)
    (hhidden : db.mayRead key X = false) : (db.executionVisibility key).holds X = false := by
  obtain ⟨hmaster, hauthor, howner, hrow⟩ := mayRead_false hhidden
  have hother : X.hookId ∉ db.readableHooks key := by
    intro hmem
    rcases List.mem_append.mp (List.mem_dedup.mp hmem) with howned | hgranted
    · obtain ⟨hook, hhook, hid⟩ := List.mem_map.mp howned
      obtain ⟨hin, howns⟩ := List.mem_filter.mp hhook
      refine howner hook (hid ▸ hwf.hookWithId_eq hin) ?_
      obtain ⟨owner, howner', hself⟩ := (Option.any_eq_true _ _).mp howns
      simpa [howner'] using hself
    · obtain ⟨row, hheld, hid⟩ := List.mem_map.mp hgranted
      obtain ⟨hin, hverbs⟩ := List.mem_filter.mp hheld
      simp only [PermissionCondition.holds, Bool.and_eq_true, Bool.or_eq_true, beq_iff_eq] at hverbs
      have hno := hrow row (hid ▸ hverbs.1 ▸ hwf.permissionOf_eq hin)
      simp [hno] at hverbs
  have hauthor' : (X.apiKeyId == some key.id) = false := by simpa using hauthor
  unfold executionVisibility
  rw [if_neg (by simp [hmaster])]
  split
  · exact hauthor'
  · simp [ExecutionCondition.holds, hauthor', hother]

/-- A filter given as text, or none. -/
def optionalAnswer (filter : Option String)
    (build : String → Except AppError ExecutionCondition) : Except AppError ExecutionCondition :=
  match nonEmpty filter with
  | some raw => build raw
  | none => .ok .all

theorem run_optionalCondition {filter : Option String}
    {build : String → Handler ExecutionCondition}
    {answer : String → Except AppError ExecutionCondition}
    (hbuild : ∀ raw, (build raw).run Op.exec w = (answer raw, w)) :
    (optionalCondition filter build).run Op.exec w = (optionalAnswer filter answer, w) := by
  unfold optionalCondition optionalAnswer
  cases nonEmpty filter with
  | none => rfl
  | some raw => exact hbuild raw

/-- The condition a listing selects by: what its caller may read, and every
filter it names. -/
def Database.executionFilters (db : Database) (ctx : Context) (key : ApiKey)
    (query : ExecutionQuery) : Except AppError ExecutionCondition := do
  let byHook ← optionalAnswer query.hook fun identifier =>
    match db.resolveLive identifier with
    | none => .error .notFound
    | some hook => if db.seesHook key hook then .ok (.hookIdEq hook.id) else .error .notFound
  let byStatus ← optionalAnswer query.status fun raw =>
    (parseStatus ctx.state.platform raw).map .statusEq
  let byKey ← optionalAnswer query.apiKey fun raw => .ok (.apiKeyIdIn
    (match Uuid.parseStr raw with
      | some id => [id]
      | none => (db.apiKeys.filter
          (ApiKeyCondition.nameLike (ctx.state.platform.like raw)).holds).map (·.id)))
  let bySince ← optionalAnswer query.since fun raw =>
    (parseInstant ctx.state.platform "since" raw).map .since
  let byUntil ← optionalAnswer query.until_ fun raw =>
    (parseInstant ctx.state.platform "until" raw).map .before
  return .and (db.executionVisibility key)
    (.and byHook (.and byStatus (.and byKey (.and bySince byUntil))))

theorem run_executionFilters (w : World) (ctx : Context) (key : ApiKey) (query : ExecutionQuery) :
    (executionFilters ctx key query).run Op.exec w =
      (w.db.executionFilters ctx key query, w) := by
  have hhook : ∀ identifier, (do
      let hook ← resolveHook identifier
      guardVisibility key hook
      return .hookIdEq hook.id : Handler ExecutionCondition).run Op.exec w =
      (match w.db.resolveLive identifier with
        | none => .error .notFound
        | some hook =>
          if w.db.seesHook key hook then .ok (.hookIdEq hook.id) else .error .notFound, w) := by
    intro identifier
    cases hresolve : w.db.resolveLive identifier with
    | none => simp [Program.run_bind, hresolve]
    | some hook =>
      by_cases hsees : w.db.seesHook key hook = true
      · simp [Program.run_bind, hresolve, hsees]
      · simp [Program.run_bind, hresolve, hsees]
  have hkeys : ∀ raw, (.apiKeyIdIn <$> resolveApiKeyFilter ctx.state.platform raw :
      Handler ExecutionCondition).run Op.exec w = (.ok (.apiKeyIdIn
        (match Uuid.parseStr raw with
          | some id => [id]
          | none => (w.db.apiKeys.filter
              (ApiKeyCondition.nameLike (ctx.state.platform.like raw)).holds).map (·.id))), w) := by
    intro raw
    unfold resolveApiKeyFilter
    cases Uuid.parseStr raw with
    | none => simp [Program.run_bind, Stmt.exec, Except.mapError, Database.orderApiKeys]
    | some id => rfl
  have hpure : ∀ {β : Type} (f : β → ExecutionCondition) (r : Except AppError β),
      (f <$> Program.ofExcept r : Handler ExecutionCondition).run Op.exec w = (r.map f, w) := by
    intro β f r
    rw [Program.run_map, Program.run_ofExcept]
  exact (Program.run_bind_ok (run_executionVisibility w key)).trans <|
    Program.run_bind_answer (run_optionalCondition hhook) fun _ =>
    Program.run_bind_answer (run_optionalCondition fun _ => hpure _ _) fun _ =>
    Program.run_bind_answer (run_optionalCondition hkeys) fun _ =>
    Program.run_bind_answer (run_optionalCondition fun _ => hpure _ _) fun _ =>
    Program.run_bind_answer (run_optionalCondition fun _ => hpure _ _) fun _ => rfl

/-- A listing never holds a record its caller may not read. -/
theorem listExecutions_hidden (ctx : Context) (query : ExecutionQuery) (hwf : w.db.WellFormed)
    (hdistinct : w.db.DistinctExecutions) (hX : X ∈ w.db.executions)
    (hhidden : w.db.mayRead key X = false) :
    ((listExecutions ctx key query).run Op.exec w).1 =
      ((listExecutions ctx key query).run Op.exec
        (w.withDb (w.db.withoutExecution X.id))).1 := by
  have hfilters : (w.db.withoutExecution X.id).executionFilters ctx key query =
      w.db.executionFilters ctx key query := rfl
  rw [listExecutions, Program.bind_eq, Program.run_bind, Program.run_bind, run_executionFilters,
    run_executionFilters, World.withDb_db, hfilters]
  cases hcondition : w.db.executionFilters ctx key query with
  | error e => rfl
  | ok c =>
    have hc : c.holds X = false := by
      simp only [Database.executionFilters, Except.bind_eq_ok_iff] at hcondition
      obtain ⟨_, -, _, -, _, -, _, -, _, -, hand⟩ := hcondition
      cases hand
      simp [ExecutionCondition.holds, w.db.executionVisibility_holds hwf hhidden]
    have hrows : (w.db.withoutExecution X.id).executions.filter c.holds =
        w.db.executions.filter c.holds := by
      simp only [Database.withoutExecution, List.filter_filter]
      refine List.filter_congr fun x hx => ?_
      by_cases hid : x.id = X.id
      · obtain rfl := List.inj_on_of_nodup_map hdistinct hx hX hid
        simp [hc]
      · simp [hid]
    have hpage : ∀ page, (w.db.withoutExecution X.id).executionPage c page =
        w.db.executionPage c page := by
      intro page
      rw [Database.executionPage, hrows]
      rfl
    simp only [Program.bind_eq, Program.run_bind, Handler.exec_sql, Stmt.exec, Except.mapError,
      World.withDb_db, hpage]
    generalize w.db.executionPage c _ = rows
    cases (rows.filterMap (·.1.apiKeyId)).isEmpty <;> rfl

end Reading

/-- The requests that can be about a record: reading it, deleting it, and any
listing. -/
def AdminRequest.AboutExecution (id : Uuid) : AdminRequest → Prop
  | .getExecution id' => id' = id
  | .deleteExecution id' => id' = id
  | .listExecutions _ => True
  | _ => False

/-- In any reachable world, a caller that may not read a record is shown the
same as if the record had never been written, whether it reads it, lists the
history or deletes it, except that a deletion tells a caller with any row on the
record's hook. -/
theorem execution_oracle {state : AppState} {w w₁ : World} {ctx : Context} {clock : AuthClock}
    {http : HttpRequest} {request : AdminRequest} {key : ApiKey} {X : Execution}
    (hw : Reachable state w) (hX : X ∈ w.db.executions)
    (hauth : (authenticate ctx clock (.admin http request)).run Op.exec w =
      (.ok (.admin key request), w₁))
    (hhidden : w.db.mayRead key X = false) (habout : request.AboutExecution X.id) :
    shown ((serve ctx clock (.admin http request)).run Op.exec w).1 =
        shown ((serve ctx clock (.admin http request)).run Op.exec
          (w.withDb (w.db.withoutExecution X.id))).1 ↔
      (request = .deleteExecution X.id → w.db.permissionOf key.id X.hookId = none) := by
  have hsound := hw.sound
  obtain ⟨hdb, hsound₁, -⟩ := hsound.authenticated hauth
  have hauth' : (authenticate ctx clock (.admin http request)).run Op.exec
      (w.withDb (w.db.withoutExecution X.id)) =
      (.ok (.admin key request), w₁.withDb (w.db.withoutExecution X.id)) :=
    authenticate_withDb _ hsound.pinned_ne_none (fun _ _ hfound _ => hfound) hauth
  have hdistinct : w₁.db.DistinctExecutions := hdb ▸ hw.distinctExecutions
  have habsent : (w₁.withDb (w₁.db.withoutExecution X.id)).db.executions.find? (·.id == X.id) =
      none := w₁.db.withoutExecution_find? X.id
  rw [run_serve_admin hauth, run_serve_admin hauth']
  rw [← hdb] at hX hhidden ⊢
  cases request with
  | getExecution id =>
    obtain rfl : id = X.id := habout
    refine iff_of_true ?_ nofun
    simp only [handleAdmin, Program.run_map, getExecution_hidden ctx hdistinct hX hhidden,
      getExecution_absent ctx key habsent]
  | deleteExecution id =>
    obtain rfl : id = X.id := habout
    simp only [handleAdmin, Program.run_map, deleteExecution_absent ctx key _ habsent,
      deleteExecution_hidden ctx hsound₁.wellFormed hdistinct hX hhidden, forall_const]
    cases w₁.db.permissionOf key.id X.hookId with
    | none => simp [verbDenied]
    | some row => simp [verbDenied_manage, shown, Except.map, Except.mapError, AppError.shown,
        AppError.status]
  | listExecutions query =>
    refine iff_of_true ?_ nofun
    simp only [handleAdmin, Program.run_map,
      listExecutions_hidden ctx query hsound₁.wellFormed hdistinct hX hhidden]
  | _ => exact habout.elim

section Sample

open Sample

/-- The master runs the hook. -/
def masterRuns : Request :=
  .invoke ⟨.execute, "deploy", deploy_isSegment, "POST", "/api/hooks/deploy/execute",
    ⟨[keyHeader masterKey]⟩, []⟩

def masterExecution : Execution :=
  { id := 501
    hookId := 301
    apiKeyId := some 1
    status := .success
    exitCode := some 0
    stdout := ""
    stderr := ""
    parametersJson := "\x7b\x7d"
    durationMs := 1
    timestamp := epochSeconds * nanosPerSecond }

/-- The daughter may execute the hook, and the master has. -/
def executed : World :=
  { raised with
    db := { raised.db with executions := [masterExecution] }
    limiter := [(1, ⟨10, 0, 0⟩)] }

theorem reachable_executed : Reachable Sample.state executed := by
  refine reachable_serveAt reachable_raised 5 masterRuns ?_
  decide +kernel

/-- The daughter deletes the record. -/
def eraseHttp : HttpRequest :=
  bearer "/executions/00000000-0000-0000-0000-0000000001f5" daughterKey

set_option maxRecDepth 4000 in
theorem authenticate_erase :
    (authenticate (ctx 6) clock (.admin eraseHttp (.deleteExecution 501))).run Op.exec executed =
      (.ok (.admin daughterRow (.deleteExecution 501)), executed) :=
  authenticate_bearer 6 _ _ (by decide) (by decide) rfl nofun rfl
    (by decide)

theorem execution_oracle_erase :
    shown ((serve (ctx 6) clock (.admin eraseHttp (.deleteExecution 501))).run
          Op.exec executed).1 =
        shown ((serve (ctx 6) clock (.admin eraseHttp (.deleteExecution 501))).run Op.exec
          (executed.withDb (executed.db.withoutExecution 501))).1 ↔
      (AdminRequest.deleteExecution 501 = .deleteExecution 501 →
        executed.db.permissionOf 201 301 = none) :=
  execution_oracle (X := masterExecution) reachable_executed (List.mem_singleton_self _)
    authenticate_erase rfl rfl

/-- A key that may only execute the hook learns that the record exists. -/
theorem erasing_tells :
    ¬∀ {state : AppState} {w w₁ : World} {ctx : Context} {clock : AuthClock}
      {http : HttpRequest} {request : AdminRequest} {key : ApiKey} {X : Execution},
      Reachable state w → X ∈ w.db.executions →
      (authenticate ctx clock (.admin http request)).run Op.exec w =
        (.ok (.admin key request), w₁) →
      w.db.mayRead key X = false → request.AboutExecution X.id →
      shown ((serve ctx clock (.admin http request)).run Op.exec w).1 =
        shown ((serve ctx clock (.admin http request)).run Op.exec
          (w.withDb (w.db.withoutExecution X.id))).1 := by
  intro hclaim
  have hsame := hclaim reachable_executed (List.mem_singleton_self masterExecution)
    authenticate_erase rfl rfl
  have hauth' := authenticate_withDb (executed.db.withoutExecution 501)
    (show executed.pinned ≠ none from nofun) (fun _ _ hfound _ => hfound) authenticate_erase
  have hrefused := deleteExecution_hidden (ctx 6)
    reachable_executed.sound.wellFormed reachable_executed.distinctExecutions
    (List.mem_singleton_self masterExecution)
    (show executed.db.mayRead daughterRow masterExecution = false from rfl)
  have habsent := deleteExecution_absent (w := executed.withDb (executed.db.withoutExecution 501))
    (ctx 6) daughterRow 501 rfl
  rw [show masterExecution.id = 501 from rfl] at hsame hrefused
  simp only [run_serve_admin authenticate_erase, run_serve_admin hauth', handleAdmin,
    Program.run_map, hrefused, habsent] at hsame
  exact absurd (status_of_shown hsame) (by decide)

end Sample

end HookExecutor
