import HookExecutor.Verification.ExecutionOracle

/-!
# Listings and single items

What a caller may see is decided twice: for one item, by a guard, and for a
listing, by queries over sets of identifiers. The two agree, for hooks, for the
history of their runs and for keys.
-/

namespace HookExecutor

/-- Pages of one length, put end to end, hold every row. -/
theorem Page.exists_mem_slice {α : Type} {rows : List α} {n : Nat} (hn : 0 < n) {x : α} :
    (∃ k, x ∈ Page.slice ⟨n, k * n⟩ rows) ↔ x ∈ rows := by
  constructor
  · rintro ⟨k, hx⟩
    exact List.mem_of_mem_drop (List.mem_of_mem_take hx)
  · intro hx
    obtain ⟨i, hi, rfl⟩ := List.mem_iff_getElem.mp hx
    have hsplit : i / n * n + i % n = i := Nat.div_add_mod' i n
    have hrest : i % n < (rows.drop (i / n * n)).length := by
      rw [List.length_drop]
      omega
    refine ⟨i / n, List.mem_iff_getElem.mpr ⟨i % n, ?_, ?_⟩⟩
    · simp only [Page.slice, List.length_take]
      exact lt_min (Nat.mod_lt i hn) hrest
    · simp only [Page.slice, List.getElem_take, List.getElem_drop, hsplit]

section Hooks

variable {w : World} {key : ApiKey} {hook : Hook}

theorem buildHookDetail_hook (w : World) (key : ApiKey) (model : Hook) :
    ∃ detail, (buildHookDetail key model).run Op.exec w = (.ok detail, w) ∧
      detail.hook.id = model.id := by
  unfold buildHookDetail
  by_cases hmaster : key.isMaster = true
  · simp [hmaster, loadParameters, Program.run_bind, Stmt.exec, Except.mapError]
  · simp [hmaster, loadParameters, Program.run_bind, Stmt.exec, Except.mapError]

theorem hookDetails_hooks (w : World) (key : ApiKey) (hooks : List Hook) :
    ∃ details, (hookDetails key hooks).run Op.exec w = (.ok details, w) ∧
      details.map (·.hook.id) = hooks.map (·.id) := by
  induction hooks with
  | nil => exact ⟨[], rfl, rfl⟩
  | cons model rest ih =>
    obtain ⟨detail, hdetail, hid⟩ := buildHookDetail_hook w key model
    obtain ⟨details, hdetails, hids⟩ := ih
    refine ⟨detail :: details, ?_, by simp [hid, hids]⟩
    simp [hookDetails, Program.run_bind, hdetail, hdetails]

/-- The hooks a caller's listing is drawn from, `none` for all of them. -/
def Database.visibleHooks (db : Database) (key : ApiKey) : Option (List Uuid) :=
  if key.isMaster then none
  else some (((db.permissions.filter (PermissionCondition.and (.apiKeyIdEq key.id)
      (.or .canExecute (.or .canManage .canViewExecution))).holds).map (·.hookId)) ++
    (db.hooks.filter (HookCondition.ownerKeyIdIn [key.id]).holds).map (·.id)).dedup

@[simp] theorem run_visibleHookIds (w : World) (key : ApiKey) :
    (visibleHookIds key).run Op.exec w = (.ok (w.db.visibleHooks key), w) := by
  unfold visibleHookIds Database.visibleHooks
  cases key.isMaster with
  | true => rfl
  | false =>
    simp [Program.run_bind, Stmt.exec, Except.mapError, Database.orderHooks]

theorem holds_ownerKeyIdIn_singleton {id : Uuid} :
    (HookCondition.ownerKeyIdIn [id]).holds hook = true ↔ hook.ownerKeyId = some id := by
  cases howner : hook.ownerKeyId <;> simp [HookCondition.holds, howner]

/-- The set and the guard draw the same line. -/
theorem Database.WellFormed.mem_visibleHooks (hwf : w.db.WellFormed) (hhook : hook ∈ w.db.hooks) :
    (∀ ids, w.db.visibleHooks key = some ids → hook.id ∈ ids) ↔ w.db.seesHook key hook = true := by
  unfold Database.visibleHooks Database.seesHook
  cases hmaster : key.isMaster with
  | true => simp
  | false =>
    simp only [Bool.false_eq_true, if_false, Option.some.injEq, forall_eq', List.mem_dedup,
      List.mem_append, List.mem_map, List.mem_filter, Bool.false_or, Bool.or_eq_true]
    constructor
    · rintro (⟨row, ⟨hrow, hholds⟩, hid⟩ | ⟨owned, ⟨howned, hholds⟩, hid⟩)
      · simp only [PermissionCondition.holds, Bool.and_eq_true, beq_iff_eq] at hholds
        obtain ⟨hcaller, hverbs⟩ := hholds
        right
        rw [← hcaller, ← hid, hwf.permissionOf_eq hrow]
        simpa [Bool.or_assoc] using hverbs
      · left
        rw [hwf.hook_eq_of_id howned hhook hid] at hholds
        simpa using holds_ownerKeyIdIn_singleton.mp hholds
    · rintro (hown | hverb)
      · exact .inr ⟨hook, ⟨hhook, holds_ownerKeyIdIn_singleton.mpr (by simpa using hown)⟩, rfl⟩
      · obtain ⟨row, hrow, hverbs⟩ := (Option.any_eq_true _ _).mp hverb
        obtain ⟨hmem, hcaller, hid⟩ := Database.permissionOf_mem hrow
        refine .inl ⟨row, ⟨hmem, ?_⟩, hid⟩
        simpa [PermissionCondition.holds, hcaller, Bool.or_assoc] using hverbs

/-- The rows a hook listing shows. -/
def Database.listedHooks (db : Database) (key : ApiKey) (live : HookCondition) : List Hook :=
  Database.orderHooks .byName (db.hooks.filter fun hook =>
    live.holds hook && (db.visibleHooks key).all fun ids => ids.contains hook.id)

theorem Database.mem_listedHooks {db : Database} {live : HookCondition} :
    hook ∈ db.listedHooks key live ↔ hook ∈ db.hooks ∧ live.holds hook = true ∧
      ∀ ids, db.visibleHooks key = some ids → hook.id ∈ ids := by
  cases hvisible : db.visibleHooks key <;>
    simp [Database.listedHooks, Database.orderHooks, List.mem_insertionSort, hvisible]

theorem run_listedHooks (w : World) (key : ApiKey) (live : HookCondition) :
    (match w.db.visibleHooks key with
      | some [] => pure []
      | some ids => sql (.selectHooks (.and live (.idIn ids)) .byName)
      | none => sql (.selectHooks live .byName) : Handler (List Hook)).run Op.exec w =
      (.ok (w.db.listedHooks key live), w) := by
  unfold Database.listedHooks
  cases w.db.visibleHooks key with
  | none => simp [Stmt.exec, Except.mapError]
  | some ids =>
    cases ids with
    | nil => simp [Database.orderHooks]
    | cons id ids =>
      simp only [Handler.exec_sql, Stmt.exec, Except.mapError, Option.all_some]
      rfl

/-- A live hook is listed for whoever may see it. -/
theorem listHooks_agrees (hwf : w.db.WellFormed) {query : ListHooksQuery}
    (hallowed : query.includeDeleted.getD false = true → key.isMaster = true) :
    ∃ details, (listHooks key query).run Op.exec w = (.ok details, w) ∧
      ∀ hook ∈ w.db.hooks, hook.isDeleted = false →
        ((∃ detail ∈ details, detail.hook.id = hook.id) ↔
          (guardVisibility key hook).run Op.exec w = (.ok (), w)) := by
  have hguard : guardMasterForDeletedView key (query.includeDeleted.getD false) = .ok () := by
    unfold guardMasterForDeletedView
    rw [if_neg]
    simpa using hallowed
  obtain ⟨details, hdetails, hids⟩ := hookDetails_hooks w key (w.db.listedHooks key
    (if query.includeDeleted.getD false then HookCondition.all else .isDeleted false))
  refine ⟨details, ?_, fun hook hmem hlive => ?_⟩
  · rw [listHooks, hguard]
    exact (Program.run_bind_ok (run_visibleHookIds w key)).trans
      ((Program.run_bind_ok (run_listedHooks w key _)).trans hdetails)
  · have hshown : (∃ detail ∈ details, detail.hook.id = hook.id) ↔
        hook.id ∈ details.map (·.hook.id) := by simp
    rw [hshown, hids, run_guardVisibility, List.mem_map]
    have hholds : (if query.includeDeleted.getD false then HookCondition.all
        else .isDeleted false).holds hook = true := by
      split <;> simp [HookCondition.holds, hlive]
    constructor
    · rintro ⟨g, hg, hid⟩
      obtain ⟨hgmem, -, hids⟩ := Database.mem_listedHooks.mp hg
      obtain rfl := hwf.hook_eq_of_id hgmem hmem hid
      rw [if_pos ((hwf.mem_visibleHooks hmem).mp hids)]
    · intro hguarded
      have hsees : w.db.seesHook key hook = true := by
        by_contra hno
        simp [hno] at hguarded
      exact ⟨hook, Database.mem_listedHooks.mpr
        ⟨hmem, hholds, (hwf.mem_visibleHooks hmem).mpr hsees⟩, rfl⟩

end Hooks

section Executions

variable {w : World} {db : Database} {key : ApiKey} {X : Execution}

/-- The filter of a history and the check of one record draw the same line. -/
theorem Database.WellFormed.executionVisibility_holds_iff (hwf : db.WellFormed) :
    (db.executionVisibility key).holds X = true ↔ db.mayRead key X = true := by
  constructor
  · intro hholds
    by_contra hhidden
    have hno := Database.executionVisibility_holds hwf (by simpa using hhidden)
    simp [hno] at hholds
  · intro hmay
    have hreadable : key.isMaster = false → X.apiKeyId ≠ some key.id →
        X.hookId ∈ db.readableHooks key := by
      intro hmaster hauthor
      simp only [Database.mayRead, hmaster, Bool.false_or, Bool.or_eq_true, beq_iff_eq, hauthor,
        false_or] at hmay
      refine List.mem_dedup.mpr (List.mem_append.mpr ?_)
      rcases hmay with howner | hverb
      · obtain ⟨hook, hfound, howns⟩ := (Option.any_eq_true _ _).mp howner
        obtain ⟨hmem, hid⟩ := Database.hookWithId_mem hfound
        exact .inl (List.mem_map.mpr ⟨hook, List.mem_filter.mpr
          ⟨hmem, holds_ownerKeyIdIn_singleton.mpr (by simpa using howns)⟩, hid⟩)
      · obtain ⟨row, hrow, hverbs⟩ := (Option.any_eq_true _ _).mp hverb
        obtain ⟨hmem, hcaller, hid⟩ := Database.permissionOf_mem hrow
        exact .inr (List.mem_map.mpr ⟨row, List.mem_filter.mpr
          ⟨hmem, by simpa [PermissionCondition.holds, hcaller] using hverbs⟩, hid⟩)
    unfold Database.executionVisibility
    cases hmaster : key.isMaster with
    | true => rfl
    | false =>
      rw [if_neg (by simp)]
      by_cases hauthor : X.apiKeyId = some key.id
      · split <;> simp [ExecutionCondition.holds, hauthor]
      · have hmem := hreadable hmaster hauthor
        rw [if_neg (by simpa using List.ne_nil_of_mem hmem)]
        simp [ExecutionCondition.holds, hmem]

/-- The unfiltered history, page by page. -/
def historyPage (limit : Option Nat) (k : Nat) : ExecutionQuery :=
  { limit := limit, offset := some (k * limit.getD defaultPageLimit) }

/-- The records a caller may read, newest first. -/
def Database.history (db : Database) (key : ApiKey) : List Execution :=
  (db.executions.filter (db.executionVisibility key).holds).insertionSort
    fun x y => y.timestamp ≤ x.timestamp

theorem listExecutions_page (ctx : Context) (w : World) (key : ApiKey) (limit : Option Nat)
    (k : Nat) :
    ∃ views, (listExecutions ctx key (historyPage limit k)).run Op.exec w = (.ok views, w) ∧
      views.map (·.id) = (Page.slice ⟨limit.getD defaultPageLimit,
        k * limit.getD defaultPageLimit⟩ (w.db.history key)).map (·.id) := by
  -- no filter leaves the visibility alone
  have hrows : w.db.executionPage (.and (w.db.executionVisibility key)
      (.and .all (.and .all (.and .all (.and .all .all)))))
        ⟨limit.getD defaultPageLimit, k * limit.getD defaultPageLimit⟩ =
      (Page.slice ⟨limit.getD defaultPageLimit, k * limit.getD defaultPageLimit⟩
        (w.db.history key)).map fun x => (x, w.db.hookWithId x.hookId) := by
    simp only [Database.executionPage, Database.history, Page.slice, List.map_take, List.map_drop,
      ExecutionCondition.holds, Bool.and_true]
  rw [listExecutions]
  have hfilters : (executionFilters ctx key (historyPage limit k)).run Op.exec w =
      (.ok (.and (w.db.executionVisibility key)
        (.and .all (.and .all (.and .all (.and .all .all))))), w) :=
    run_executionFilters w ctx key _
  have hpage : (sql (.selectExecutionsWithHook (.and (w.db.executionVisibility key)
      (.and .all (.and .all (.and .all (.and .all .all)))))
        ⟨(historyPage limit k).limit.getD defaultPageLimit, (historyPage limit k).offset.getD 0⟩) :
      Handler _).run Op.exec w = (.ok ((Page.slice ⟨limit.getD defaultPageLimit,
        k * limit.getD defaultPageLimit⟩ (w.db.history key)).map
          fun x => (x, w.db.hookWithId x.hookId)), w) := by
    rw [← hrows, Handler.exec_sql]
    rfl
  have hauthors : ∀ ids : List Uuid, ∃ keys : List ApiKey, (if ids.isEmpty then pure []
      else sql (.selectApiKeys (.idIn ids) .unordered) : Handler (List ApiKey)).run Op.exec w =
        (.ok keys, w) := by
    intro ids
    split <;> exact ⟨_, rfl⟩
  obtain ⟨keys, hkeys⟩ := hauthors (((Page.slice ⟨limit.getD defaultPageLimit,
    k * limit.getD defaultPageLimit⟩ (w.db.history key)).map
      fun x => (x, w.db.hookWithId x.hookId)).filterMap (·.1.apiKeyId))
  refine ⟨_, (Program.run_bind_ok hfilters).trans ((Program.run_bind_ok hpage).trans
    ((Program.run_bind_ok hkeys).trans rfl)), ?_⟩
  simp [executionView, Function.comp_def]

/-- A record is on one of the pages of an unfiltered listing for whoever may read
it. -/
theorem listExecutions_agrees (ctx : Context) (hwf : w.db.WellFormed)
    (hdistinct : w.db.DistinctExecutions) {limit : Option Nat}
    (hlimit : 0 < limit.getD defaultPageLimit) (hX : X ∈ w.db.executions) :
    (∃ k views, (listExecutions ctx key (historyPage limit k)).run Op.exec w = (.ok views, w) ∧
        ∃ view ∈ views, view.id = X.id) ↔
      (mayReadExecution key X).run Op.exec w = (.ok true, w) := by
  have hlisted : X ∈ w.db.history key ↔ (mayReadExecution key X).run Op.exec w = (.ok true, w) := by
    simp [Database.history, List.mem_insertionSort, hX, hwf.executionVisibility_holds_iff]
  rw [← hlisted, ← Page.exists_mem_slice hlimit]
  constructor
  · rintro ⟨k, views, hrun, view, hview, hid⟩
    obtain ⟨views', hrun', hids⟩ := listExecutions_page ctx w key limit k
    obtain rfl : views = views' := by simpa [hrun] using hrun'
    obtain ⟨x, hx, hxid⟩ := List.mem_map.mp (hids ▸ List.mem_map_of_mem hview)
    have hmem : x ∈ w.db.history key := List.mem_of_mem_drop (List.mem_of_mem_take hx)
    obtain ⟨hxmem, -⟩ := List.mem_filter.mp ((List.mem_insertionSort _).mp hmem)
    obtain rfl := List.inj_on_of_nodup_map hdistinct hxmem hX (hxid.trans hid)
    exact ⟨k, hx⟩
  · rintro ⟨k, hx⟩
    obtain ⟨views, hrun, hids⟩ := listExecutions_page ctx w key limit k
    obtain ⟨view, hview, hid⟩ := List.mem_map.mp (hids ▸ List.mem_map_of_mem (f := Execution.id) hx)
    exact ⟨k, views, hrun, view, hview, hid⟩

end Executions

section Keys

variable {w : World} {key model : ApiKey}

/-- What a key's rows among some permissions are shown as. -/
def Database.permissionViews (db : Database) (c : PermissionCondition) : List HookPermissionView :=
  HookExecutor.permissionViews
    ((db.permissions.filter c.holds).map fun p => (p, db.hookWithId p.hookId))

/-- A key in full. -/
def Database.summary (db : Database) (model : ApiKey) : ApiKeySummary :=
  { id := model.id
    name := model.name
    prefixText := model.prefixText
    keyId := model.keyId
    hasSigningSecret := model.signingSecret.isSome
    hmacMode := model.hmacMode
    canonicalTemplate := model.canonicalTemplate
    boundIps := model.boundIps
    maxConcurrentJobs := model.maxConcurrentJobs
    isMaster := model.isMaster
    canManageKeys := model.canManageKeys
    canManageHooks := model.canManageHooks
    parentKeyId := model.parentKeyId
    createdAt := model.createdAt
    hookPermissions := db.permissionViews (.apiKeyIdEq model.id) }

/-- What a key that manages some hooks is shown of another that holds rows on
them. -/
def Database.minimalView (db : Database) (managed : List Uuid) (model : ApiKey) :
    MinimalApiKeyView :=
  ⟨model.id, model.name, db.permissionViews (.and (.apiKeyIdEq model.id) (.hookIdIn managed)), true⟩

/-- How a key is listed. -/
def Database.listedView (db : Database) (key model : ApiKey) : Option ApiKeyView :=
  match db.visibility key model with
  | some .full => some (.full (db.summary model))
  | some .minimal => some (.minimal (db.minimalView (db.managedHooks key.id) model))
  | none => none

/-- The keys in the order they were created. -/
def Database.creationOrder (db : Database) : List ApiKey :=
  Database.orderApiKeys .byCreatedAt db.apiKeys

@[simp] theorem Database.mem_creationOrder {db : Database} :
    model ∈ db.creationOrder ↔ model ∈ db.apiKeys := by
  simp [Database.creationOrder, Database.orderApiKeys, List.mem_insertionSort]

@[simp] theorem run_buildApiKeySummary (w : World) (model : ApiKey) :
    (buildApiKeySummary model).run Op.exec w = (.ok (w.db.summary model), w) := by
  simp [buildApiKeySummary, loadHookPermissions, Program.run_bind, Stmt.exec, Except.mapError,
    Database.summary, Database.permissionViews]

@[simp] theorem run_buildMinimalApiKeyView (w : World) (model : ApiKey) (managed : List Uuid) :
    (buildMinimalApiKeyView model managed).run Op.exec w =
      (.ok (w.db.minimalView managed model), w) := by
  simp [buildMinimalApiKeyView, Program.run_bind, Stmt.exec, Except.mapError, Database.minimalView,
    Database.permissionViews]

theorem run_collectEach {α β : Type} {f : α → Handler (Option β)} {g : α → Option β}
    (hf : ∀ a, (f a).run Op.exec w = (.ok (g a), w)) (as : List α) :
    (collectEach f as).run Op.exec w = (.ok (as.filterMap g), w) := by
  induction as with
  | nil => rfl
  | cons a rest ih =>
    simp only [collectEach, Program.bind_eq, Program.run_bind, hf, ih, List.filterMap_cons]
    cases g a <;> rfl

/-- The sets a listing computes once decide about each key as its visibility
does. -/
theorem run_listedApiKey (w : World) (key model : ApiKey) :
    (listedApiKey key (if key.isMaster then [] else w.db.descendants key.id)
      (if key.isMaster then [] else w.db.managedHooks key.id)
      (if key.isMaster then [] else (w.db.permissions.filter (PermissionCondition.hookIdIn
        (w.db.managedHooks key.id)).holds).map (·.apiKeyId)) model).run Op.exec w =
      (.ok (w.db.listedView key model), w) := by
  unfold listedApiKey Database.listedView Database.visibility
  cases hmaster : key.isMaster with
  | true => simp [Program.run_bind]
  | false =>
    by_cases hself : key.id = model.id
    · simp [hself, Program.run_bind]
    · by_cases hbelow : model.id ∈ w.db.descendants key.id
      · simp [hbelow, Program.run_bind]
      · have hother : ¬model.id = key.id := fun h => hself h.symm
        have hholders : model.id ∈ (w.db.permissions.filter (PermissionCondition.hookIdIn
            (w.db.managedHooks key.id)).holds).map (·.apiKeyId) ↔
            (w.db.permissions.any fun p => p.apiKeyId == model.id &&
              (w.db.managedHooks key.id).contains p.hookId) = true := by
          simp only [List.mem_map, List.mem_filter, PermissionCondition.holds, List.any_eq_true,
            Bool.and_eq_true, beq_iff_eq]
          constructor
          · rintro ⟨p, ⟨hp, hmanaged⟩, hid⟩
            exact ⟨p, hp, hid, hmanaged⟩
          · rintro ⟨p, hp, hid, hmanaged⟩
            exact ⟨p, ⟨hp, hmanaged⟩, hid⟩
        simp only [Bool.false_eq_true, if_false, Bool.false_or, beq_iff_eq, hself, hother, hbelow,
          List.contains_iff_mem, Bool.or_eq_true, or_self, hholders]
        split <;> simp [Program.run_bind]

/-- A key manager's listing holds each key the way its visibility says. -/
theorem run_listApiKeys (hmanager : guardKeyManager key = .ok ()) :
    (listApiKeys key).run Op.exec w =
      (.ok (w.db.creationOrder.filterMap (w.db.listedView key)), w) := by
  have hkeys : (sql (.selectApiKeys .all .byCreatedAt)).run Op.exec w =
      (.ok w.db.creationOrder, w) := by
    have hall : w.db.apiKeys.filter ApiKeyCondition.all.holds = w.db.apiKeys :=
      List.filter_eq_self.mpr fun _ _ => rfl
    simp only [Handler.exec_sql, Stmt.exec, Except.mapError, Database.creationOrder, hall]
  have hsubtree : (if key.isMaster then pure [] else descendantKeyIds key.id :
      Handler (List Uuid)).run Op.exec w =
      (.ok (if key.isMaster then [] else w.db.descendants key.id), w) := by
    split <;> simp
  have hmanaged : (if key.isMaster then pure [] else managedHookIds key.id :
      Handler (List Uuid)).run Op.exec w =
      (.ok (if key.isMaster then [] else w.db.managedHooks key.id), w) := by
    split <;> simp
  have hholders : (if (if key.isMaster then [] else w.db.managedHooks key.id).isEmpty then pure []
      else List.map (·.apiKeyId) <$> sql (.selectPermissions (.hookIdIn
        (if key.isMaster then [] else w.db.managedHooks key.id))) :
      Handler (List Uuid)).run Op.exec w =
      (.ok (if key.isMaster then [] else (w.db.permissions.filter (PermissionCondition.hookIdIn
        (w.db.managedHooks key.id)).holds).map (·.apiKeyId)), w) := by
    cases key.isMaster with
    | true => rfl
    | false =>
      cases w.db.managedHooks key.id with
      | nil => simp [PermissionCondition.holds]
      | cons hook rest => simp [Program.run_bind, Stmt.exec, Except.mapError]
  rw [listApiKeys, hmanager]
  exact (Program.run_bind_ok hkeys).trans <| (Program.run_bind_ok hsubtree).trans <|
    (Program.run_bind_ok hmanaged).trans <| (Program.run_bind_ok hholders).trans <|
      run_collectEach (run_listedApiKey w key) _

/-- A key is listed in full, minimally or not at all by how much of it may be
seen. -/
theorem listApiKeys_agrees (hwf : w.db.WellFormed)
    (hmanager : key.isMaster = true ∨ key.canManageKeys = true) :
    ∃ views, (listApiKeys key).run Op.exec w = (.ok views, w) ∧ ∀ model ∈ w.db.apiKeys,
      ((∃ summary, .full summary ∈ views ∧ summary.id = model.id) ↔
        (keyVisibility key model).run Op.exec w = (.ok (some .full), w)) ∧
      ((∃ view, .minimal view ∈ views ∧ view.id = model.id) ↔
        (keyVisibility key model).run Op.exec w = (.ok (some .minimal), w)) := by
  refine ⟨_, run_listApiKeys (guardKeyManager_ok.mpr hmanager), fun model hmem => ?_⟩
  simp only [run_keyVisibility, Prod.mk.injEq, Except.ok.injEq, and_true, List.mem_filterMap,
    Database.mem_creationOrder]
  constructor
  · constructor
    · rintro ⟨summary, ⟨k, hk, hview⟩, hid⟩
      unfold Database.listedView at hview
      split at hview
      · rename_i hvisible
        cases hview
        rwa [hwf.eq_of_id hk hmem hid] at hvisible
      · cases hview
      · cases hview
    · intro hvisible
      exact ⟨_, ⟨model, hmem, by rw [Database.listedView, hvisible]⟩, rfl⟩
  · constructor
    · rintro ⟨view, ⟨k, hk, hview⟩, hid⟩
      unfold Database.listedView at hview
      split at hview
      · cases hview
      · rename_i hvisible
        cases hview
        rwa [hwf.eq_of_id hk hmem hid] at hvisible
      · cases hview
    · intro hvisible
      exact ⟨_, ⟨model, hmem, by rw [Database.listedView, hvisible]⟩, rfl⟩

end Keys

section Sample

open Sample

end Sample

end HookExecutor
