import HookExecutor.Lib.Paging
import HookExecutor.Verification.Listings

/-!
# Paging through the history

A listing of the history asks for the newest records first and for nothing
else, and for each page anew. Records of one moment may come in another order
each time, so those that stand on both sides of the end of a page can be shown
twice, or not at all.
-/

namespace HookExecutor

open Text

/-! ### What a listing is drawn from -/

/-- A key is named by its id, or by a part of its name. -/
def Database.namesAuthor (db : Database) (platform : Platform) (raw : String) (author : Uuid) :
    Bool :=
  match Uuid.parseStr raw with
  | some id => author == id
  | none => db.apiKeys.any fun k => k.id == author && platform.like raw k.name

/-- What the filters of a request ask of a record. -/
def Database.matchesQuery (db : Database) (platform : Platform) (query : ExecutionQuery)
    (X : Execution) : Bool :=
  ((nonEmpty query.hook).all fun identifier =>
    (db.resolveLive identifier).any fun hook => X.hookId == hook.id) &&
  ((nonEmpty query.status).all fun raw =>
    (parseStatus platform raw).toOption.any fun status => X.status == status) &&
  ((nonEmpty query.apiKey).all fun raw => X.apiKeyId.any fun author =>
    db.namesAuthor platform raw author) &&
  ((nonEmpty query.since).all fun raw =>
    (parseInstant platform "since" raw).toOption.any fun t => t ≤ X.timestamp) &&
  (nonEmpty query.until_).all fun raw =>
    (parseInstant platform "until" raw).toOption.any fun t => X.timestamp < t

/-- The records a caller may read and the filters let through. -/
def Database.listed (db : Database) (platform : Platform) (key : ApiKey) (query : ExecutionQuery) :
    List Execution :=
  db.executions.filter fun X => db.mayRead key X && db.matchesQuery platform query X

section Filters

variable {db : Database} {ctx : Context} {key : ApiKey} {query : ExecutionQuery}
  {c : ExecutionCondition}

theorem contains_nameLike (matches_ : String → Bool) (author : Uuid) :
    ((db.apiKeys.filter (ApiKeyCondition.nameLike matches_).holds).map (·.id)).contains author =
      db.apiKeys.any fun k => k.id == author && matches_ k.name := by
  rw [Bool.eq_iff_iff, List.contains_iff_mem, List.any_eq_true, List.mem_map]
  constructor
  · rintro ⟨k, hk, rfl⟩
    obtain ⟨hmem, hname⟩ := List.mem_filter.mp hk
    exact ⟨k, hmem, by simpa [ApiKeyCondition.holds] using hname⟩
  · rintro ⟨k, hmem, hk⟩
    rw [Bool.and_eq_true, beq_iff_eq] at hk
    exact ⟨k, List.mem_filter.mpr ⟨hmem, hk.2⟩, hk.1⟩

theorem optionalAnswer_holds {filter : Option String}
    {build : String → Except AppError ExecutionCondition} {X : Execution} {test : String → Bool}
    (hbuild : ∀ raw c, build raw = .ok c → c.holds X = test raw)
    (h : optionalAnswer filter build = .ok c) : c.holds X = (nonEmpty filter).all test := by
  unfold optionalAnswer at h
  cases hfilter : nonEmpty filter with
  | none =>
    rw [hfilter] at h
    obtain rfl := Except.ok.inj h
    rfl
  | some raw =>
    rw [hfilter] at h
    exact hbuild raw c h

/-- The condition a request is turned into holds of what its filters ask for. -/
theorem Database.WellFormed.executionFilters_holds (hwf : db.WellFormed)
    (h : db.executionFilters ctx key query = .ok c) (X : Execution) :
    c.holds X = (db.mayRead key X && db.matchesQuery ctx.state.platform query X) := by
  simp only [Database.executionFilters, Except.bind_eq_ok_iff] at h
  obtain ⟨byHook, hhook, byStatus, hstatus, byKey, hkey, bySince, hsince, byUntil, huntil, h⟩ := h
  obtain rfl := Except.ok.inj h
  have hvisible : (db.executionVisibility key).holds X = db.mayRead key X :=
    Bool.eq_iff_iff.mpr hwf.executionVisibility_holds_iff
  have hhook' : byHook.holds X = (nonEmpty query.hook).all fun identifier =>
      (db.resolveLive identifier).any fun hook => X.hookId == hook.id := by
    refine optionalAnswer_holds (fun identifier c hbuild => ?_) hhook
    cases hlive : db.resolveLive identifier with
    | none =>
      rw [hlive] at hbuild
      cases hbuild
    | some hook =>
      rw [hlive] at hbuild
      dsimp only at hbuild
      split at hbuild
      · obtain rfl := Except.ok.inj hbuild
        rfl
      · cases hbuild
  have hstatus' : byStatus.holds X = (nonEmpty query.status).all fun raw =>
      (parseStatus ctx.state.platform raw).toOption.any fun status => X.status == status := by
    refine optionalAnswer_holds (fun raw c hbuild => ?_) hstatus
    obtain ⟨status, hparsed, rfl⟩ := Except.map_eq_ok_iff.mp hbuild
    rw [hparsed]
    rfl
  have hkey' : byKey.holds X = (nonEmpty query.apiKey).all fun raw => X.apiKeyId.any fun author =>
      db.namesAuthor ctx.state.platform raw author := by
    refine optionalAnswer_holds (fun raw c hbuild => ?_) hkey
    obtain rfl := Except.ok.inj hbuild
    rw [ExecutionCondition.holds]
    congr 1
    funext author
    unfold Database.namesAuthor
    cases Uuid.parseStr raw with
    | none => exact contains_nameLike _ author
    | some id => exact List.contains_cons.trans (Bool.or_false _)
  have hsince' : bySince.holds X = (nonEmpty query.since).all fun raw =>
      (parseInstant ctx.state.platform "since" raw).toOption.any fun t => t ≤ X.timestamp := by
    refine optionalAnswer_holds (fun raw c hbuild => ?_) hsince
    obtain ⟨t, hparsed, rfl⟩ := Except.map_eq_ok_iff.mp hbuild
    rw [hparsed]
    rfl
  have huntil' : byUntil.holds X = (nonEmpty query.until_).all fun raw =>
      (parseInstant ctx.state.platform "until" raw).toOption.any fun t => X.timestamp < t := by
    refine optionalAnswer_holds (fun raw c hbuild => ?_) huntil
    obtain ⟨t, hparsed, rfl⟩ := Except.map_eq_ok_iff.mp hbuild
    rw [hparsed]
    rfl
  simp only [ExecutionCondition.holds, hvisible, hhook', hstatus', hkey', hsince', huntil',
    Database.matchesQuery, Bool.and_assoc]

end Filters

/-! ### Answers in some order -/

/-- How a database chooses among the orders that a query leaves open: any order
of the rows, and newest first for a page of the history. -/
structure RowOrder where
  apiKeys : ApiKeyCondition → List ApiKey → List ApiKey
  apiKeys_perm : ∀ c rows, (apiKeys c rows).Perm rows
  hooks : HookCondition → List Hook → List Hook
  hooks_perm : ∀ c rows, (hooks c rows).Perm rows
  permissions : PermissionCondition → List Permission → List Permission
  permissions_perm : ∀ c rows, (permissions c rows).Perm rows
  executions : ExecutionCondition → Page → List Execution → List Execution
  executions_presents : ∀ c page rows, Paging.Presents Execution.timestamp rows
    (executions c page rows)

/-- The queries of a listing, answered in some order. -/
def Op.answered (order : RowOrder) : Interpretation Op World
  | _, .db (.selectApiKeys c .unordered), w =>
    (.ok (order.apiKeys c (w.db.apiKeys.filter c.holds)), w)
  | _, .db (.selectHooks c .unordered), w => (.ok (order.hooks c (w.db.hooks.filter c.holds)), w)
  | _, .db (.selectPermissions c), w =>
    (.ok (order.permissions c (w.db.permissions.filter c.holds)), w)
  | _, .db (.selectExecutionsWithHook c page), w =>
    (.ok (page.slice ((order.executions c page (w.db.executions.filter c.holds)).map
      fun x => (x, w.db.hookWithId x.hookId))), w)
  | _, q, w => Op.exec _ q w

/-- What is asked for by something unique. -/
def AsksForOne : ∀ β, Op β → Prop
  | _, .db (.selectHooks (.idEq _) .unordered) => True
  | _, .db (.selectHooks (.nameEq _) .unordered) => True
  | _, .db (.selectPermissions (.and (.apiKeyIdEq _) (.hookIdEq _))) => True
  | _, _ => False

section Answers

variable {order : RowOrder} {w : World} {key : ApiKey}

theorem perm_eq_of_unique {α β : Type} {rows shown : List α} {f : α → β} {p : α → Bool} {b : β}
    (hunique : (rows.map f).Nodup) (hp : ∀ a, p a = true → f a = b)
    (h : shown.Perm (rows.filter p)) : shown = rows.filter p := by
  have hlength : (rows.filter p).length ≤ 1 := by
    have hnodup : ((rows.filter p).map f).Nodup := hunique.sublist (List.filter_sublist.map f)
    cases hrows : rows.filter p with
    | nil => simp
    | cons first rest =>
      cases rest with
      | nil => simp
      | cons second rest =>
        have hmem : ∀ a ∈ rows.filter p, f a = b := fun a ha => hp a (List.mem_filter.mp ha).2
        rw [hrows] at hnodup hmem
        rw [List.map_cons, List.map_cons, hmem first (by simp), hmem second (by simp)] at hnodup
        simp at hnodup
  cases hrows : rows.filter p with
  | nil => exact (hrows ▸ h).eq_nil
  | cons first rest =>
    rw [hrows] at hlength h
    obtain rfl : rest = [] := List.eq_nil_of_length_eq_zero (by simpa using hlength)
    exact h.eq_singleton

/-- It is answered alike in every order. -/
theorem AsksForOne.answered (hwf : w.db.WellFormed) {β : Type} {q : Op β} (hq : AsksForOne β q) :
    Op.answered order β q w = Op.exec β q w := by
  cases q with
  | db s =>
    cases s with
    | selectHooks c o =>
      cases o with
      | byName => cases c <;> exact hq.elim
      | unordered =>
        show (Except.ok (order.hooks c (w.db.hooks.filter c.holds)), w) = _
        cases c with
        | idEq id =>
          rw [perm_eq_of_unique hwf.hookIds (fun h hh => by simpa [HookCondition.holds] using hh)
            (order.hooks_perm _ _)]
          rfl
        | nameEq name =>
          rw [perm_eq_of_unique hwf.hookNames (fun h hh => by simpa [HookCondition.holds] using hh)
            (order.hooks_perm _ _)]
          rfl
        | _ => exact hq.elim
    | selectPermissions c =>
      show (Except.ok (order.permissions c (w.db.permissions.filter c.holds)), w) = _
      cases c with
      | and first second =>
        cases first with
        | apiKeyIdEq keyId =>
          cases second with
          | hookIdEq hookId =>
            rw [perm_eq_of_unique (b := (keyId, hookId)) hwf.grants (fun p hp => by
              simpa [PermissionCondition.holds] using hp) (order.permissions_perm _ _)]
            rfl
          | _ => exact hq.elim
        | _ => exact hq.elim
      | _ => exact hq.elim
    | _ => exact hq.elim
  | _ => exact hq.elim

theorem AsksForOne.reads {β : Type} {q : Op β} (hq : AsksForOne β q) (w : World) :
    (Op.exec β q w).2 = w := by
  cases q with
  | db s =>
    cases s with
    | selectHooks c o => rfl
    | selectPermissions c => rfl
    | _ => exact hq.elim
  | _ => exact hq.elim

theorem resolveHook_asksForOne (identifier : String) :
    (resolveHook identifier).Emits AsksForOne := by
  have hname : (findHookByName identifier).Emits AsksForOne := .map _ ((emits_sql _).mpr trivial)
  have hnamed : (findHookByName identifier >>= fun byName => orElse byName .notFound).Emits
      AsksForOne := .bind hname fun _ => emits_orElse _ _
  have hresolve : (resolveHookIncludingDeleted identifier).Emits AsksForOne := by
    refine .bind ?_ fun byId => ?_
    · cases Uuid.parseStr identifier with
      | none => trivial
      | some id => exact .map _ ((emits_sql _).mpr trivial)
    · cases byId with
      | none => exact hnamed
      | some found => trivial
  exact .bind hresolve fun _ => .bind (Program.emits_require _ _) fun _ => trivial

theorem guardVisibility_asksForOne (key : ApiKey) (hook : Hook) :
    (guardVisibility key hook).Emits AsksForOne := by
  rw [guardVisibility]
  split
  · trivial
  · exact .bind (.map _ ((emits_sql _).mpr trivial)) fun _ => Program.emits_require _ _

/-- Two programs end alike, one asked in some order and the other in the order
of the table: with one error, or with conditions that hold of the same records. -/
def Alike (order : RowOrder) (w : World) (p p' : Handler ExecutionCondition) : Prop :=
  ∃ r r', p.run (Op.answered order) w = (r, w) ∧ p'.run Op.exec w = (r', w) ∧
    r.map ExecutionCondition.holds = r'.map ExecutionCondition.holds

theorem Alike.pure {c c' : ExecutionCondition} (h : c.holds = c'.holds) :
    Alike order w (.pure c) (.pure c') :=
  ⟨.ok c, .ok c', rfl, rfl, congrArg Except.ok h⟩

theorem Alike.bind {p p' : Handler ExecutionCondition}
    {f f' : ExecutionCondition → Handler ExecutionCondition} (h : Alike order w p p')
    (hf : ∀ c c', c.holds = c'.holds → Alike order w (f c) (f' c')) :
    Alike order w (p.bind f) (p'.bind f') := by
  obtain ⟨r, r', hrun, hrun', hsame⟩ := h
  cases r with
  | error e =>
    cases r' with
    | error e' =>
      refine ⟨_, _, Program.run_bind_error hrun, Program.run_bind_error hrun', ?_⟩
      obtain rfl := Except.error.inj hsame
      rfl
    | ok c' => cases hsame
  | ok c =>
    cases r' with
    | error e' => cases hsame
    | ok c' =>
      obtain ⟨t, t', hnext, hnext', hsame⟩ := hf c c' (Except.ok.inj hsame)
      exact ⟨t, t', (Program.run_bind_ok hrun).trans hnext,
        (Program.run_bind_ok hrun').trans hnext', hsame⟩

theorem alike_optionalCondition {filter : Option String}
    {build : String → Handler ExecutionCondition}
    (hbuild : ∀ raw, Alike order w (build raw) (build raw)) :
    Alike order w (optionalCondition filter build) (optionalCondition filter build) := by
  unfold optionalCondition
  cases nonEmpty filter with
  | none => exact .pure rfl
  | some raw => exact hbuild raw

/-- What asks for one thing at a time ends the same. -/
theorem alike_of_asksForOne (hwf : w.db.WellFormed) {p : Handler ExecutionCondition}
    (hp : p.Emits AsksForOne) : Alike order w p p := by
  have hsame : p.run (Op.answered order) w = p.run Op.exec w :=
    (hp.mono fun _ _ hq => And.intro (hq.answered hwf) (hq.reads w)).run_eq
  have hstays : (p.run Op.exec w).2 = w :=
    (hp.mono fun _ _ hq s hs => (hq.reads s).trans hs).run_inv (J := fun s => s = w) rfl
  exact ⟨_, _, hsame.trans (Prod.ext rfl hstays), Prod.ext rfl hstays, rfl⟩

theorem run_executionVisibility_answered (order : RowOrder) (w : World) (key : ApiKey) :
    ∃ c, (executionVisibility key).run (Op.answered order) w = (.ok c, w) ∧
      c.holds = (w.db.executionVisibility key).holds := by
  rw [executionVisibility, Database.executionVisibility]
  by_cases hmaster : key.isMaster = true
  · rw [if_pos hmaster, if_pos hmaster]
    exact ⟨.all, rfl, rfl⟩
  rw [if_neg hmaster, if_neg hmaster]
  obtain ⟨ids, hrun, hids⟩ : ∃ ids, (executionVisibleHookIds key).run (Op.answered order) w =
      (.ok ids, w) ∧ ∀ id, id ∈ ids ↔ id ∈ w.db.readableHooks key := by
    refine ⟨_, rfl, fun id => ?_⟩
    rw [Database.readableHooks, List.mem_dedup, List.mem_dedup, List.mem_append, List.mem_append]
    exact or_congr ((order.hooks_perm _ _).map _).mem_iff
      ((order.permissions_perm _ _).map _).mem_iff
  have hempty : ids.isEmpty = (w.db.readableHooks key).isEmpty := by
    rw [Bool.eq_iff_iff, List.isEmpty_iff, List.isEmpty_iff, List.eq_nil_iff_forall_not_mem,
      List.eq_nil_iff_forall_not_mem]
    exact forall_congr' fun id => not_congr (hids id)
  rw [Program.bind_eq, Program.run_bind_ok hrun, hempty]
  split
  · exact ⟨_, rfl, rfl⟩
  · refine ⟨_, rfl, ?_⟩
    funext X
    have hcontains : ids.contains X.hookId = (w.db.readableHooks key).contains X.hookId := by
      rw [Bool.eq_iff_iff, List.contains_iff_mem, List.contains_iff_mem]
      exact hids X.hookId
    show (X.apiKeyId == some key.id || ids.contains X.hookId) = _
    rw [hcontains]
    rfl

/-- The filters select the same records in every order. -/
theorem alike_executionFilters (hwf : w.db.WellFormed) (ctx : Context) (query : ExecutionQuery) :
    Alike order w (executionFilters ctx key query) (executionFilters ctx key query) := by
  have hvisible : Alike order w (executionVisibility key) (executionVisibility key) := by
    obtain ⟨c, hrun, hholds⟩ := run_executionVisibility_answered order w key
    exact ⟨_, _, hrun, run_executionVisibility w key, congrArg Except.ok hholds⟩
  have hhook : ∀ identifier, (resolveHook identifier >>= fun hook => guardVisibility key hook >>=
      fun _ => pure (ExecutionCondition.hookIdEq hook.id) : Handler ExecutionCondition).Emits
        AsksForOne :=
    fun identifier => (resolveHook_asksForOne identifier).bind fun hook =>
      (guardVisibility_asksForOne key hook).bind fun _ => trivial
  have hkey : ∀ raw, Alike order w
      (.apiKeyIdIn <$> resolveApiKeyFilter ctx.state.platform raw)
      (.apiKeyIdIn <$> resolveApiKeyFilter ctx.state.platform raw) := by
    intro raw
    unfold resolveApiKeyFilter
    cases Uuid.parseStr raw with
    | some id => exact .pure rfl
    | none =>
      refine ⟨.ok _, .ok _, rfl, rfl, congrArg Except.ok ?_⟩
      funext X
      have hmem := ((order.apiKeys_perm (.nameLike (ctx.state.platform.like raw))
        (w.db.apiKeys.filter (ApiKeyCondition.nameLike (ctx.state.platform.like raw)).holds)).map
          (·.id))
      cases hauthor : X.apiKeyId with
      | none => simp [ExecutionCondition.holds, hauthor]
      | some author =>
        simp only [ExecutionCondition.holds, hauthor, Option.any_some]
        rw [Bool.eq_iff_iff, List.contains_iff_mem, List.contains_iff_mem]
        exact hmem.mem_iff
  have hpure : ∀ {β : Type} (f : β → ExecutionCondition) (r : Except AppError β),
      (f <$> Program.ofExcept r : Handler ExecutionCondition).Emits AsksForOne :=
    fun f r => .map f (Program.emits_ofExcept r)
  refine .bind hvisible fun _ _ h₀ => .bind (alike_optionalCondition fun identifier =>
      alike_of_asksForOne hwf (hhook identifier)) fun _ _ h₁ =>
    .bind (alike_optionalCondition fun _ => alike_of_asksForOne hwf (hpure _ _)) fun _ _ h₂ =>
    .bind (alike_optionalCondition hkey) fun _ _ h₃ =>
    .bind (alike_optionalCondition fun _ => alike_of_asksForOne hwf (hpure _ _)) fun _ _ h₄ =>
    .bind (alike_optionalCondition fun _ => alike_of_asksForOne hwf (hpure _ _)) fun _ _ h₅ =>
    .pure ?_
  funext X
  simp only [ExecutionCondition.holds, h₀, h₁, h₂, h₃, h₄, h₅]

/-- A listing is refused, or shows a page of the records it is drawn from in one
of the orders they may come in. -/
theorem run_listExecutions_answered (hwf : w.db.WellFormed) (ctx : Context)
    (query : ExecutionQuery) :
    (∀ e, w.db.executionFilters ctx key query = .error e →
      (listExecutions ctx key query).run (Op.answered order) w = (.error e, w)) ∧
    ∀ c, w.db.executionFilters ctx key query = .ok c →
      ∃ c' views, c'.holds = c.holds ∧
        (listExecutions ctx key query).run (Op.answered order) w = (.ok views, w) ∧
        views.map (·.id) = (Page.slice ⟨query.limit.getD defaultPageLimit, query.offset.getD 0⟩
          (order.executions c' ⟨query.limit.getD defaultPageLimit, query.offset.getD 0⟩
            (w.db.listed ctx.state.platform key query))).map (·.id) := by
  have halike : Alike order w (executionFilters ctx key query) (executionFilters ctx key query) :=
    alike_executionFilters hwf ctx query
  obtain ⟨r, r', hrun, hrun', hsame⟩ := halike
  obtain rfl := (Prod.mk.inj ((run_executionFilters w ctx key query).symm.trans hrun')).1
  constructor
  · intro e he
    rw [he] at hsame
    cases r with
    | ok c => cases hsame
    | error e' =>
      obtain rfl := Except.error.inj hsame
      rw [listExecutions, Program.bind_eq, Program.run_bind_error hrun]
  · intro c hc
    rw [hc] at hsame
    cases r with
    | error e => cases hsame
    | ok c' =>
      have hholds : c'.holds = c.holds := Except.ok.inj hsame
      have hrows : w.db.executions.filter c'.holds =
          w.db.listed ctx.state.platform key query :=
        List.filter_congr fun X _ => by rw [hholds, hwf.executionFilters_holds hc]
      have hauthors : ∀ ids : List Uuid, ∃ keys : List ApiKey, (if ids.isEmpty then pure []
          else sql (.selectApiKeys (.idIn ids) .unordered) : Handler (List ApiKey)).run
            (Op.answered order) w = (.ok keys, w) := by
        intro ids
        split
        · exact ⟨[], rfl⟩
        · exact ⟨_, rfl⟩
      obtain ⟨keys, hkeys⟩ := hauthors ((Page.slice
        ⟨query.limit.getD defaultPageLimit, query.offset.getD 0⟩
          ((order.executions c' ⟨query.limit.getD defaultPageLimit, query.offset.getD 0⟩
            (w.db.executions.filter c'.holds)).map
              fun x => (x, w.db.hookWithId x.hookId))).filterMap (·.1.apiKeyId))
      refine ⟨c', _, hholds, (Program.run_bind_ok hrun).trans ((Program.run_bind_ok rfl).trans
        ((Program.run_bind_ok hkeys).trans rfl)), ?_⟩
      rw [← hrows]
      simp [executionView, Function.comp_def, Page.slice, List.map_take, List.map_drop]

end Answers

/-! ### Page by page -/

/-- The request for one page. -/
def ExecutionQuery.page (query : ExecutionQuery) (limit m : Nat) : ExecutionQuery :=
  { query with limit := some limit, offset := some (m * limit) }

/-- Whatever orders the pages are answered in, either the request is refused, or
the pages up to the first empty one hold every record it is drawn from, each
once. -/
def PagesComplete (ctx : Context) (w : World) (key : ApiKey) (query : ExecutionQuery)
    (limit : Nat) : Prop :=
  ∀ order : Nat → RowOrder,
    (∃ e, ∀ m, (listExecutions ctx key (query.page limit m)).run (Op.answered (order m)) w =
      (.error e, w)) ∨
    ∃ pages : Nat → List ExecutionView,
      (∀ m, (listExecutions ctx key (query.page limit m)).run (Op.answered (order m)) w =
        (.ok (pages m), w)) ∧
      ∃ M, pages M = [] ∧ (∀ m < M, pages m ≠ []) ∧
        (((List.range M).flatMap pages).map (·.id)).Perm
          ((w.db.listed ctx.state.platform key query).map (·.id))

/-- Newest first, and otherwise as in the table. -/
def newestFirst (rows : List Execution) : List Execution :=
  rows.insertionSort fun x y => y.timestamp ≤ x.timestamp

theorem newestFirst_presents (rows : List Execution) :
    Paging.Presents Execution.timestamp rows (newestFirst rows) := by
  refine ⟨List.perm_insertionSort _ rows, ?_⟩
  have htotal : Std.Total fun x y : Execution => y.timestamp ≤ x.timestamp :=
    ⟨fun x y => Int.le_total y.timestamp x.timestamp⟩
  have htrans : IsTrans Execution fun x y => y.timestamp ≤ x.timestamp :=
    ⟨fun _ _ _ hxy hyz => Int.le_trans hyz hxy⟩
  exact List.pairwise_insertionSort _ rows

/-- The order of the table, except that some records come in an order of their
own. -/
def RowOrder.presenting {rows shown : List Execution}
    (h : Paging.Presents Execution.timestamp rows shown) : RowOrder where
  apiKeys := fun _ rows => rows
  apiKeys_perm := fun _ _ => .refl _
  hooks := fun _ rows => rows
  hooks_perm := fun _ _ => .refl _
  permissions := fun _ rows => rows
  permissions_perm := fun _ _ => .refl _
  executions := fun _ _ asked => if asked = rows then shown else newestFirst asked
  executions_presents := by
    intro _ _ asked
    split
    · rename_i hasked
      exact hasked ▸ h
    · exact newestFirst_presents asked

theorem RowOrder.presenting_executions {rows shown : List Execution}
    (h : Paging.Presents Execution.timestamp rows shown) (c : ExecutionCondition) (page : Page) :
    (RowOrder.presenting h).executions c page rows = shown :=
  if_pos rfl

section Pages

variable {ctx : Context} {w : World} {key : ApiKey} {query : ExecutionQuery} {limit : Nat}
  {c : ExecutionCondition}

/-- The pages of a request that is accepted. -/
theorem exists_pages (hwf : w.db.WellFormed) (hc : w.db.executionFilters ctx key query = .ok c)
    (limit : Nat) (order : Nat → RowOrder) :
    ∃ (pages : Nat → List ExecutionView) (conditions : Nat → ExecutionCondition),
      (∀ m, (listExecutions ctx key (query.page limit m)).run (Op.answered (order m)) w =
        (.ok (pages m), w)) ∧
      ∀ m, (pages m).map (·.id) = (Paging.page limit m ((order m).executions (conditions m)
        ⟨limit, m * limit⟩ (w.db.listed ctx.state.platform key query))).map (·.id) := by
  have hpage : ∀ m, ∃ c' views,
      (listExecutions ctx key (query.page limit m)).run (Op.answered (order m)) w =
        (.ok views, w) ∧
      views.map (·.id) = (Paging.page limit m ((order m).executions c' ⟨limit, m * limit⟩
        (w.db.listed ctx.state.platform key query))).map (·.id) := by
    intro m
    obtain ⟨c', views, -, hrun, hids⟩ :=
      (run_listExecutions_answered hwf ctx (query.page limit m)).2 c hc
    exact ⟨c', views, hrun, hids⟩
  choose conditions pages hrun hids using hpage
  exact ⟨pages, conditions, hrun, hids⟩

theorem pagesComplete_of_free (hwf : w.db.WellFormed) (hlimit : 0 < limit)
    (hc : w.db.executionFilters ctx key query = .ok c)
    (hfree : ∀ m, ¬Paging.TiedAt Execution.timestamp
      (w.db.listed ctx.state.platform key query) (m * limit)) :
    PagesComplete ctx w key query limit := by
  intro order
  obtain ⟨pages, conditions, hrun, hids⟩ := exists_pages hwf hc limit order
  have hshown : ∀ m, Paging.Presents Execution.timestamp (w.db.listed ctx.state.platform key query)
      ((order m).executions (conditions m) ⟨limit, m * limit⟩
        (w.db.listed ctx.state.platform key query)) :=
    fun m => (order m).executions_presents _ _ _
  have hempty : ∀ m, pages m = [] ↔
      (w.db.listed ctx.state.platform key query).length ≤ m * limit := by
    intro m
    rw [← List.map_eq_nil_iff (f := fun view : ExecutionView => view.id), hids, List.map_eq_nil_iff,
      Paging.page_eq_nil_iff hlimit, (hshown m).perm.length_eq]
  obtain ⟨M, hall, hbefore⟩ := Paging.exists_first_empty hlimit
    (w.db.listed ctx.state.platform key query).length
  refine .inr ⟨pages, hrun, M, (hempty M).mpr hall, ?_, ?_⟩
  · intro m hm hnil
    have hle := (hempty m).mp hnil
    have hlt := hbefore m hm
    omega
  · have hwhole := Paging.flatMap_page_perm hshown hfree M (hshown 0)
    rw [List.take_of_length_le ((hshown 0).perm.length_eq ▸ hall)] at hwhole
    have hperm := (hwhole.trans (hshown 0).perm).map fun X : Execution => X.id
    rw [List.map_flatMap] at hperm ⊢
    simpa only [hids] using hperm

/-- A tie across two pages lets a record be on both. -/
theorem not_pagesComplete_of_tie (hwf : w.db.WellFormed) (hdistinct : w.db.DistinctExecutions)
    (hlimit : 0 < limit) (hc : w.db.executionFilters ctx key query = .ok c) {m : Nat}
    (htie : Paging.TiedAt Execution.timestamp (w.db.listed ctx.state.platform key query)
      (m * limit)) : ¬PagesComplete ctx w key query limit := by
  intro hcomplete
  have hnewest := newestFirst_presents (w.db.listed ctx.state.platform key query)
  obtain ⟨swapped, X, j, hswapped, hfirst, hsecond, -⟩ :=
    Paging.exists_repeated hlimit hnewest htie
  let order : Nat → RowOrder := fun k =>
    if k ≤ j then RowOrder.presenting hnewest else RowOrder.presenting hswapped
  obtain ⟨pages, conditions, hrun, hids⟩ := exists_pages hwf hc limit order
  obtain ⟨e, he⟩ | ⟨pages', hrun', M, hnil, -, hperm⟩ := hcomplete order
  · cases congrArg Prod.fst ((hrun 0).symm.trans (he 0))
  obtain rfl : pages = pages' := funext fun m =>
    Except.ok.inj (congrArg Prod.fst ((hrun m).symm.trans (hrun' m)))
  have hon : X.id ∈ (pages j).map (·.id) := by
    rw [hids, show order j = RowOrder.presenting hnewest from if_pos (Nat.le_refl j)]
    rw [RowOrder.presenting_executions]
    exact List.mem_map_of_mem hfirst
  have hagain : X.id ∈ (pages (j + 1)).map (·.id) := by
    rw [hids, show order (j + 1) = RowOrder.presenting hswapped from if_neg (by omega)]
    rw [RowOrder.presenting_executions]
    exact List.mem_map_of_mem hsecond
  have hlast : j + 1 < M := by
    by_contra hle
    have hshort : (w.db.listed ctx.state.platform key query).length ≤ M * limit := by
      have hids := hids M
      rw [hnil, List.map_nil, eq_comm, List.map_eq_nil_iff, Paging.page_eq_nil_iff hlimit,
        ((order M).executions_presents _ _ _).perm.length_eq] at hids
      exact hids
    have hmore : M * limit ≤ (j + 1) * limit := Nat.mul_le_mul_right limit (by omega)
    have hnone : Paging.page limit (j + 1) swapped = [] := (Paging.page_eq_nil_iff hlimit).mpr
      (hswapped.perm.length_eq.trans_le (hshort.trans hmore))
    rw [hnone] at hsecond
    cases hsecond
  have hnodup := hperm.nodup_iff.mpr (hdistinct.sublist (List.filter_sublist.map _))
  rw [List.map_flatMap, List.nodup_flatMap] at hnodup
  have hdisjoint := List.pairwise_iff_getElem.mp hnodup.2 j (j + 1) (by simp; omega) (by simpa)
    (Nat.lt_succ_self j)
  simp only [List.getElem_range] at hdisjoint
  exact hdisjoint hon hagain

/-- Paging shows every record once exactly if the request is refused, or no
moment has records on both sides of the end of a page. -/
theorem pages_complete_iff (ctx : Context) (w : World) (hwf : w.db.WellFormed)
    (hdistinct : w.db.DistinctExecutions) (key : ApiKey) (query : ExecutionQuery) (limit : Nat)
    (hlimit : 0 < limit) :
    PagesComplete ctx w key query limit ↔
      ∀ c, w.db.executionFilters ctx key query = .ok c → ∀ m, ¬Paging.TiedAt Execution.timestamp
        (w.db.listed ctx.state.platform key query) (m * limit) := by
  constructor
  · intro hcomplete c hc m htie
    exact not_pagesComplete_of_tie hwf hdistinct hlimit hc htie hcomplete
  · intro hfree
    cases hc : w.db.executionFilters ctx key query with
    | error e =>
      intro order
      exact .inl ⟨e, fun m => (run_listExecutions_answered hwf ctx (query.page limit m)).1 e hc⟩
    | ok c => exact pagesComplete_of_free hwf hlimit hc (hfree c hc)

end Pages

section Sample

open Sample

/-- The hook was run twice, the second time at another moment, or not. -/
def ranTwice (second : DateTime) : World :=
  { executed with
    db := { executed.db with
      executions := [masterExecution, { masterExecution with id := 502, timestamp := second }] } }

theorem wellFormed_ranTwice (second : DateTime) : (ranTwice second).db.WellFormed := by
  have hwf := reachable_executed.sound.wellFormed
  exact ⟨hwf.keyIds, hwf.oneMaster, hwf.hookIds, hwf.hookNames, hwf.grants, hwf.grantKeys,
    hwf.grantHooks, hwf.parameterHooks⟩

theorem distinct_ranTwice (second : DateTime) : (ranTwice second).db.DistinctExecutions := by
  show [masterExecution.id, 502].Nodup
  decide

theorem listed_ranTwice (second : DateTime) :
    (ranTwice second).db.listed platform Sample.masterRow {} = (ranTwice second).db.executions :=
  List.filter_eq_self.mpr fun _ _ => rfl

/-- Two runs at two moments, one record a page. -/
theorem pages_complete_ranTwice :
    PagesComplete (ctx 0) (ranTwice (epochSeconds * nanosPerSecond + 1)) Sample.masterRow {} 1 := by
  refine (pages_complete_iff (ctx 0) _ (wellFormed_ranTwice _) (distinct_ranTwice _)
    Sample.masterRow {} 1 (by decide)).mpr fun c _ m => ?_
  rw [show (ctx 0).state.platform = platform from rfl, listed_ranTwice]
  rintro ⟨x, hx, hlt, hle⟩
  obtain rfl | hx := List.mem_cons.mp hx
  · have hnewer : 1 < m * 1 := hlt
    have hall : m * 1 < 2 := hle
    omega
  · obtain rfl := List.mem_singleton.mp hx
    have hnewer : 0 < m * 1 := hlt
    have hall : m * 1 < 1 := hle
    omega

/-- Two runs at one moment, one record a page: both pages may show the same. -/
theorem same_moment_repeated :
    ¬PagesComplete (ctx 0) (ranTwice (epochSeconds * nanosPerSecond)) Sample.masterRow {} 1 := by
  have htie : Paging.TiedAt Execution.timestamp ((ranTwice (epochSeconds *
      nanosPerSecond)).db.listed (ctx 0).state.platform Sample.masterRow {}) (1 * 1) := by
    refine ⟨masterExecution, ?_, ?_, ?_⟩
    · decide
    · decide
    · decide
  exact not_pagesComplete_of_tie (wellFormed_ranTwice _) (distinct_ranTwice _) (by decide) rfl htie

end Sample

end HookExecutor
