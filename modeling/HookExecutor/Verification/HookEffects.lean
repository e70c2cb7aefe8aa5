import HookExecutor.Verification.Deletion
import HookExecutor.Verification.Ownership
import HookExecutor.Verification.HookCreation

/-!
# What one request does to the hooks

Whatever becomes of an administrative request, be it refused half way, the hooks
and their parameters are left in one of a few ways, each with what the caller
had to be for it. Laws about whole runs are read off these and never look at a
handler again.
-/

namespace HookExecutor

/-! ### Hooks -/

/-- The ways one request of a key can leave the hooks. -/
inductive HookStep (key : ApiKey) (now : DateTime) (request : AdminRequest) (db : Database) :
    List Hook → Prop
  | kept : HookStep key now request db db.hooks
  | created (row : Hook) (fresh : ∀ h ∈ db.hooks, h.id ≠ row.id)
      (owned : row.ownerKeyId = some key.id) : HookStep key now request db (db.hooks ++ [row])
  | edited {model : Hook} (u : HookUpdate) (mem : model ∈ db.hooks)
      (may : key.isMaster = true ∨ ¬model.Privileged)
      (owner : u.ownerKeyId = none ∨
        key.isMaster = true ∧ ∃ owner ∈ db.keyIds, u.ownerKeyId = some (some owner)) :
      HookStep key now request db (db.hooks.map (u.at_ model.id))
  | purged (p : Hook → Bool) (master : key.isMaster = true) :
      HookStep key now request db (db.hooks.filter p)
  | resolved {id : Uuid} {payload : DeleteApiKeyPayload} {target : ApiKey}
      (asked : request = .deleteApiKey id payload)
      (deletes : db.Deletes key id payload.resolutions target) :
      HookStep key now request db (db.hooks.map (settled key now payload.resolutions))

section Hooks

variable {ctx : Context} {key : ApiKey} {request : AdminRequest} {now : DateTime} {w : World}

/-- The hooks after a program that does not write them. -/
theorem Handler.run_hooks_eq {W : List Write} {α : Type} {p : Handler α}
    (hp : p.Emits (WritesAmong W)) (hW : ∀ k ∈ W, Table.hooks ∉ k.tables) (w : World) :
    (p.run Op.exec w).2.db.hooks = w.db.hooks :=
  Handler.run_agree (t := .hooks) hp hW w

theorem Database.updateHook_hooks (db : Database) (id : Uuid) (u : HookUpdate) :
    (db.updateHook id u).2.hooks = db.hooks ∨
      (db.updateHook id u).2.hooks = db.hooks.map (u.at_ id) := by
  unfold updateHook
  split
  · exact .inl rfl
  · split
    · exact .inl rfl
    · exact .inr rfl

theorem HookStep.update {db db' : Database} {model : Hook} {u : HookUpdate}
    (mem : model ∈ db.hooks) (may : key.isMaster = true ∨ ¬model.Privileged)
    (owner : u.ownerKeyId = none ∨
      key.isMaster = true ∧ ∃ owner ∈ db.keyIds, u.ownerKeyId = some (some owner))
    (h : db'.hooks = db.hooks ∨ db'.hooks = db.hooks.map (u.at_ model.id)) :
    HookStep key now request db db'.hooks := by
  rcases h with h | h
  · rw [h]
    exact .kept
  · rw [h]
    exact .edited u mem may owner

theorem writeHookUpdate_hooks (id : Uuid) (u : HookUpdate) (w : World) :
    ((writeHookUpdate id u).run Op.exec w).2.db.hooks = w.db.hooks ∨
      ((writeHookUpdate id u).run Op.exec w).2.db.hooks = w.db.hooks.map (u.at_ id) := by
  refine Handler.bind_keep (K := fun db => db.hooks = w.db.hooks ∨
    db.hooks = w.db.hooks.map (u.at_ id)) ?_ fun updated t ht => ?_
  · rw [Handler.exec_trySql]
    exact w.db.updateHook_hooks id u
  · cases updated with
    | ok hook => exact ht
    | error e => cases e <;> exact ht

theorem guardManage_snd (key : ApiKey) (hook : Hook) (w : World) :
    ((guardManage key hook).run Op.exec w).2 = w := by
  unfold guardManage
  split
  · rfl
  · exact Program.run_bind_read (K := fun t => t = w) (guardHookManageConjunction_snd _ w) rfl
      fun _ _ => rfl

theorem isMaster_of_require {e : AppError} {w' : World} {u : Unit}
    (h : (Program.require (key.isMaster = true) e : Handler Unit).run Op.exec w = (.ok u, w')) :
    key.isMaster = true := by
  by_contra hno
  simp [hno] at h

theorem privileged_of_guard {hook : Hook} {action : String}
    (h : guardMasterForPrivilegedHook key hook action = .ok ()) :
    key.isMaster = true ∨ ¬hook.Privileged := by
  cases hmaster : key.isMaster with
  | true => exact .inl rfl
  | false => exact .inr (guardMasterForPrivilegedHook_ok hmaster h)

theorem requestedOwner_ok {payload : UpdateHookPayload} {w' : World}
    (h : (requestedOwner key payload).run Op.exec w = (.ok (), w')) :
    payload.ownerKeyId = none ∨
      key.isMaster = true ∧ ∃ owner ∈ w.db.keyIds, payload.ownerKeyId = some owner := by
  unfold requestedOwner at h
  cases howner : payload.ownerKeyId with
  | none => exact .inl rfl
  | some owner =>
    simp only [howner, Program.bind_eq, Program.run_bind_eq_ok_iff, Program.run_require,
      run_findApiKeyById, Prod.mk.injEq] at h
    obtain ⟨_, t, ⟨hmaster, rfl⟩, found, t', ⟨hfound, rfl⟩, hexists, -⟩ := h
    refine .inr ⟨?_, owner, ?_, rfl⟩
    · by_contra hno
      simp [hno] at hmaster
    · cases hrow : w.db.apiKeyById owner with
      | none =>
        rw [hrow] at hfound
        cases hfound
        simp at hexists
      | some k =>
        obtain ⟨hk, rfl⟩ := Database.apiKeyById_mem hrow
        exact List.mem_map_of_mem hk

/-- Who got past the guards of an edit. -/
theorem guardUpdateHook_ok {model : Hook} {payload : UpdateHookPayload} {w' : World}
    {runAsUser : Option (Option String)}
    (h : (guardUpdateHook key model payload).run Op.exec w = (.ok runAsUser, w')) :
    w' = w ∧ (key.isMaster = true ∨ ¬model.Privileged) ∧ (payload.ownerKeyId = none ∨
      key.isMaster = true ∧ ∃ owner ∈ w.db.keyIds, payload.ownerKeyId = some owner) := by
  have hsame := guardUpdateHook_snd key model payload w
  rw [h] at hsame
  refine ⟨hsame, ?_⟩
  have hread : ∀ {α : Type} {p : Handler α} {a : α} {t t' : World},
      p.Emits (WritesAmong []) → p.run Op.exec t = (.ok a, t') → t'.db = t.db := by
    intro α p a t t' hp hrun
    have hdb := Handler.run_db_eq hp t
    rwa [hrun] at hdb
  have hunless : ∀ {c : Prop} [Decidable c] {p : Handler Unit}, p.Emits (WritesAmong []) →
      (if c then p else pure () : Handler Unit).Emits (WritesAmong []) := by
    intro c _ p hp
    by_cases hc : c
    · rwa [if_pos hc]
    · rw [if_neg hc]
      trivial
  simp only [guardUpdateHook, Program.bind_eq, Program.run_bind_eq_ok_iff] at h
  obtain ⟨_, t₁, hmanage, _, t₂, hdispatch, _, t₃, hprivileged, _, t₄, hrunAs, _, t₅, hname, _, t₆,
    howner, -⟩ := h
  have hdb : t₅.db = w.db :=
    (hread (hunless (Program.emits_ofExcept _)) hname).trans <|
      (hread (Program.emits_ofExcept _) hrunAs).trans <|
      (hread (Program.emits_ofExcept _) hprivileged).trans <|
      (hread (hunless (guardDispatchConfiguration_writes _ _)) hdispatch).trans
        (hread (guardManage_writes _ _) hmanage)
  refine ⟨privileged_of_guard (by simpa using (Prod.mk.inj hprivileged).1), ?_⟩
  rw [← hdb]
  exact requestedOwner_ok howner

/-- An audit row, and what is answered after it. -/
theorem HookStep.rest {α : Type} {p : Handler α} {db : Database} {t : World}
    (h : HookStep key now request db t.db.hooks) (hp : p.Emits (WritesAmong [.insertAuditLog])) :
    HookStep key now request db (p.run Op.exec t).2.db.hooks := by
  rw [Handler.run_hooks_eq hp (by decide)]
  exact h

theorem createHook_hookStep (ctx : Context) (payload : CreateHookPayload) (w : World) :
    HookStep key now request w.db ((createHook ctx key payload).run Op.exec w).2.db.hooks := by
  refine Handler.bind_read (K := fun db => HookStep key now request w.db db.hooks)
    (Program.emits_ofExcept _) .kept fun checked t _ ht => ?_
  rw [← ht]
  set row := newHook ctx key payload checked with hrow
  rcases insertNewHook_run row t with ⟨hfree, hrun⟩ | ⟨-, _, hrun⟩
  · rw [Program.bind_eq, Program.run_bind_ok hrun, Handler.run_hooks_eq
      (W := [.insertHookParameter, .upsertPermission, .insertAuditLog]) ?_ (by decide)]
    · exact .created row (fun h hmem => (hfree h hmem).1) rfl
    · exact (insertDeclared_writes (by decide) _ _ _ _).bind fun _ =>
        .bind (emits_write rfl (by decide)) fun _ =>
        .bind (createAuditLog_writes (by decide) _ _ _ _ _ _) fun _ =>
        .bind (findHookById_writes _) fun _ => .bind (emits_orElse _ _) fun _ =>
        buildHookDetail_writes _ _
  · rw [Program.bind_eq, Program.run_bind_error hrun]
    exact .kept

theorem updateHook_hookStep (ctx : Context) (identifier : String) (payload : UpdateHookPayload)
    (w : World) : HookStep key now request w.db
      ((updateHook ctx key identifier payload).run Op.exec w).2.db.hooks := by
  let K : World → Prop := fun t => HookStep key now request w.db t.db.hooks
  refine Program.run_bind_read (K := K) (by simp) .kept fun model hmodel => ?_
  obtain ⟨hmem, -⟩ := Database.resolveLive_mem (run_resolveHook_ok.mp hmodel).2
  refine Program.run_bind_read (K := K) (guardUpdateHook_snd _ _ _ _) .kept
    fun runAsUser hguard => ?_
  obtain ⟨-, hmay, howner⟩ := guardUpdateHook_ok hguard
  refine Program.run_bind_read (K := K) (by simp) .kept fun _ _ => ?_
  refine Program.run_bind_read (K := K) (by simp) .kept fun hmacSecret _ => ?_
  refine Program.run_bind_read (K := K) (run_sql_snd _ _) .kept fun declared _ => ?_
  refine Program.run_bind_read (K := K) (by simp) .kept fun _ _ => ?_
  refine Handler.bind_keep (K := fun db => HookStep key now request w.db db.hooks) ?_
    fun _ _ hstep => hstep.rest ((createAuditLog_writes (by decide) _ _ _ _ _ _).bind fun _ =>
      buildHookDetail_writes _ _)
  refine .update (u := hookChanges payload runAsUser hmacSecret (ctx.draws.now 0)) hmem hmay ?_
    (writeHookUpdate_hooks _ _ _)
  rcases howner with hnone | ⟨hmaster, owner, hexists, hsome⟩
  · exact .inl (by simp [hookChanges, hnone])
  · exact .inr ⟨hmaster, owner, hexists, by simp [hookChanges, hsome]⟩

/-- The trash takes the row the condition selects, which is the one with the
identifier. -/
theorem Database.updateHooks_trash {db : Database} {model : Hook} {u : HookUpdate}
    (hwf : db.WellFormed) (hmem : model ∈ db.hooks) (hlive : model.isDeleted = false) :
    (db.updateHooks (.and (.idEq model.id) (.isDeleted false)) u).2.hooks = db.hooks ∨
      (db.updateHooks (.and (.idEq model.id) (.isDeleted false)) u).2.hooks =
        db.hooks.map (u.at_ model.id) := by
  unfold updateHooks
  dsimp only
  split
  · refine .inr (List.map_congr_left fun h hh => ?_)
    by_cases hid : h.id = model.id
    · obtain rfl := hwf.hook_eq_of_id hh hmem hid
      simp [HookCondition.holds, HookUpdate.at_, hlive]
    · simp [HookCondition.holds, HookUpdate.at_, hid]
  · exact .inl rfl

theorem deleteHook_hookStep (ctx : Context) (identifier : String) (query : DeleteHookQuery)
    {w : World} (hwf : w.db.WellFormed) : HookStep key now request w.db
      ((deleteHook ctx key identifier query).run Op.exec w).2.db.hooks := by
  let K : World → Prop := fun t => HookStep key now request w.db t.db.hooks
  have hresolve : ((if query.hard.getD false then resolveHookIncludingDeleted identifier
      else resolveHook identifier).run Op.exec w).2 = w := by
    split <;> simp
  refine Program.run_bind_read (K := K) hresolve .kept fun model hmodel => ?_
  refine Program.run_bind_read (K := K) (guardManage_snd _ _ _) .kept fun _ _ => ?_
  refine Program.run_bind_read (K := K) (by simp) .kept fun _ _ => ?_
  refine Program.run_bind_read (K := K) (by simp) .kept fun _ hprivileged => ?_
  have hmay := privileged_of_guard (by simpa using hprivileged)
  cases hhard : query.hard.getD false with
  | true =>
    refine Program.run_bind_read (K := K) (by simp) .kept fun _ hrequire => ?_
    have hmaster := isMaster_of_require hrequire
    refine Handler.bind_keep (K := fun db => HookStep key now request w.db db.hooks) ?_
      fun _ _ hstep => hstep.rest (.bind (Program.emits_require _ _) fun _ =>
        createAuditLog_writes (by decide) _ _ _ _ _ _)
    rw [run_sql_snd]
    exact .purged _ hmaster
  | false =>
    refine Handler.bind_keep (K := fun db => HookStep key now request w.db db.hooks) ?_
      fun _ _ hstep => hstep.rest (.bind (Program.emits_require _ _) fun _ =>
        createAuditLog_writes (by decide) _ _ _ _ _ _)
    rw [hhard] at hmodel
    obtain ⟨hmem, hlive⟩ := Database.resolveLive_mem (run_resolveHook_ok.mp hmodel).2
    rw [run_sql_snd]
    exact .update (u := trashUpdate key (ctx.draws.now 0)) hmem hmay (.inl rfl)
      (Database.updateHooks_trash hwf hmem hlive)

theorem restoreHook_hookStep (ctx : Context) (identifier : String) (w : World) :
    HookStep key now request w.db
      ((restoreHook ctx key identifier).run Op.exec w).2.db.hooks := by
  let K : World → Prop := fun t => HookStep key now request w.db t.db.hooks
  refine Program.run_bind_read (K := K) (by simp) .kept fun _ hrequire => ?_
  have hmaster := isMaster_of_require hrequire
  refine Program.run_bind_read (K := K) (by simp) .kept fun model hmodel => ?_
  refine Program.run_bind_read (K := K) (by simp) .kept fun _ _ => ?_
  refine Handler.bind_keep (K := fun db => HookStep key now request w.db db.hooks) ?_
    fun _ _ hstep => hstep.rest ((createAuditLog_writes (by decide) _ _ _ _ _ _).bind fun _ =>
      (findHookById_writes _).bind fun _ => .bind (emits_orElse _ _) fun _ =>
      buildHookDetail_writes _ _)
  have hmem : model ∈ w.db.hooks := by
    rw [run_resolveHookIncludingDeleted] at hmodel
    cases hres : w.db.resolve identifier with
    | none => simp [hres] at hmodel
    | some found =>
      obtain rfl : found = model := by simpa [hres] using hmodel
      exact Database.resolve_mem hres
  rw [run_sql_snd]
  exact .update hmem (.inl hmaster) (.inl rfl) (w.db.updateHook_hooks _ _)

theorem purgeDeletedHooks_hookStep (ctx : Context) (query : PurgeQuery) (w : World) :
    HookStep key now request w.db
      ((purgeDeletedHooks ctx key query).run Op.exec w).2.db.hooks := by
  let K : World → Prop := fun t => HookStep key now request w.db t.db.hooks
  refine Program.run_bind_read (K := K) (by simp) .kept fun _ hrequire => ?_
  have hmaster := isMaster_of_require hrequire
  refine Program.run_bind_read (K := K) (by simp) .kept fun days _ => ?_
  refine Handler.bind_keep (K := fun db => HookStep key now request w.db db.hooks) ?_
    fun _ _ hstep => hstep.rest ((createAuditLog_writes (by decide) _ _ _ _ _ _).bind
      fun _ => trivial)
  unfold purgeExpiredDeletedHooks
  split
  · exact .kept
  · refine Program.run_bind_read (K := K) (by simp) .kept fun threshold _ => ?_
    rw [run_sql_snd]
    exact .purged _ hmaster

theorem deleteApiKey_hookStep (ctx : Context) {id : Uuid} {payload : DeleteApiKeyPayload}
    {w : World} (hwf : w.db.WellFormed) :
    HookStep key (ctx.draws.now 0) (.deleteApiKey id payload) w.db
      ((deleteApiKey ctx key id payload).run Op.exec w).2.db.hooks := by
  rcases deleteApiKey_outcome ctx key id payload hwf with
    ⟨target, hdeletes, hhooks, -⟩ | ⟨-, hsame⟩
  · rw [hhooks]
    exact .resolved rfl hdeletes
  · rw [hsame]
    exact .kept

/-- Whatever a request is and however it ends. -/
theorem handleAdmin_hookStep (ctx : Context) (request : AdminRequest) {w : World}
    (hwf : w.db.WellFormed) :
    HookStep key (ctx.draws.now 0) request w.db
      ((handleAdmin ctx key request).run Op.exec w).2.db.hooks := by
  have hmap : ∀ {α β : Type} {p : Handler α} (f : α → β), HookStep key (ctx.draws.now 0) request
      w.db (p.run Op.exec w).2.db.hooks → HookStep key (ctx.draws.now 0) request
      w.db ((f <$> p).run Op.exec w).2.db.hooks := fun f h =>
    Handler.map_keep (K := fun db => HookStep key _ request w.db db.hooks) f h
  cases request with
  | createHook payload => exact hmap _ (createHook_hookStep ctx payload w)
  | updateHook identifier payload => exact hmap _ (updateHook_hookStep ctx identifier payload w)
  | deleteHook identifier query => exact hmap _ (deleteHook_hookStep ctx identifier query hwf)
  | restoreHook identifier => exact hmap _ (restoreHook_hookStep ctx identifier w)
  | purgeDeletedHooks query => exact hmap _ (purgeDeletedHooks_hookStep ctx query w)
  | deleteApiKey id payload => exact hmap _ (deleteApiKey_hookStep ctx hwf)
  | _ =>
    rw [Handler.run_hooks_eq (handleAdmin_writes ctx key _) (by simp [AdminRequest.writes,
      Write.tables])]
    exact .kept

end Hooks

/-! ### Parameters -/

/-- The key may rewrite what belongs to a hook of this identifier. -/
def Database.MayTouch (db : Database) (key : ApiKey) (hookId : Uuid) : Prop :=
  ∀ h ∈ db.hooks, h.id = hookId → key.isMaster = true ∨ ¬h.Privileged

/-- A row, edited if it is the one. -/
def HookParameterUpdate.at_ (u : HookParameterUpdate) (id : Uuid) (p : HookParameter) :
    HookParameter :=
  if p.id == id then u.apply p else p

/-- The ways one request of a key can leave the parameters. -/
inductive ParameterStep (key : ApiKey) (db : Database) : List HookParameter → Prop
  | kept : ParameterStep key db db.hookParameters
  | declared {hookId : Uuid} (rows : List HookParameter) (may : db.MayTouch key hookId)
      (belong : ∀ row ∈ rows, row.hookId = hookId) :
      ParameterStep key db (db.hookParameters ++ rows)
  | edited {param : HookParameter} (u : HookParameterUpdate) (mem : param ∈ db.hookParameters)
      (may : db.MayTouch key param.hookId) :
      ParameterStep key db (db.hookParameters.map (u.at_ param.id))
  | removed {param : HookParameter} (mem : param ∈ db.hookParameters)
      (may : db.MayTouch key param.hookId) :
      ParameterStep key db (db.hookParameters.filter (·.id != param.id))
  | purged (p : HookParameter → Bool) (master : key.isMaster = true) :
      ParameterStep key db (db.hookParameters.filter p)

section Parameters

variable {ctx : Context} {key : ApiKey} {w : World}

theorem Handler.run_hookParameters_eq {W : List Write} {α : Type} {p : Handler α}
    (hp : p.Emits (WritesAmong W)) (hW : ∀ k ∈ W, Table.hookParameters ∉ k.tables) (w : World) :
    (p.run Op.exec w).2.db.hookParameters = w.db.hookParameters :=
  Handler.run_agree (t := .hookParameters) hp hW w

theorem ParameterStep.rest {α : Type} {p : Handler α} {db : Database} {t : World}
    (h : ParameterStep key db t.db.hookParameters) (hp : p.Emits (WritesAmong [.insertAuditLog])) :
    ParameterStep key db (p.run Op.exec t).2.db.hookParameters := by
  rw [Handler.run_hookParameters_eq hp (by decide)]
  exact h

theorem mayTouch_of_guard {model : Hook} {action : String} (hwf : w.db.WellFormed)
    (hmem : model ∈ w.db.hooks) (h : guardMasterForPrivilegedHook key model action = .ok ()) :
    w.db.MayTouch key model.id := by
  intro g hg hid
  obtain rfl := hwf.hook_eq_of_id hg hmem hid
  exact privileged_of_guard h

theorem insertParameter_hookParameters (row : HookParameter) (duplicate : AppError) (w : World) :
    ((insertParameter row duplicate).run Op.exec w).2.db.hookParameters = w.db.hookParameters ∨
      ((insertParameter row duplicate).run Op.exec w).2.db.hookParameters =
        w.db.hookParameters ++ [row] := by
  refine Handler.bind_keep (K := fun db => db.hookParameters = w.db.hookParameters ∨
    db.hookParameters = w.db.hookParameters ++ [row]) ?_ fun inserted t ht => ?_
  · rw [Handler.exec_trySql]
    change (w.db.insertHookParameter row).2.hookParameters = _ ∨
      (w.db.insertHookParameter row).2.hookParameters = _
    unfold Database.insertHookParameter
    split
    · exact .inl rfl
    · split
      · exact .inr rfl
      · exact .inl rfl
  · cases inserted with
    | ok _ => exact ht
    | error e => cases e <;> exact ht

/-- However far the declarations come, they add rows of their hook. -/
theorem insertDeclared_hookParameters (hookId : Uuid) (declared : List ParameterInput)
    (draw : Nat) (w : World) : ∃ rows : List HookParameter, (∀ row ∈ rows, row.hookId = hookId) ∧
      ((insertDeclared ctx hookId draw declared).run Op.exec w).2.db.hookParameters =
        w.db.hookParameters ++ rows := by
  induction declared generalizing draw w with
  | nil => exact ⟨[], by simp, by simp [insertDeclared]⟩
  | cons param rest ih =>
    set row := parameterRow ctx draw hookId param with hrow
    set duplicate : AppError := .conflict s!"Duplicate parameter '{param.paramKey}' for this hook"
    have hfirst : ∃ rows : List HookParameter, (∀ row ∈ rows, row.hookId = hookId) ∧
        ((insertParameter row duplicate).run Op.exec w).2.db.hookParameters =
          w.db.hookParameters ++ rows := by
      rcases insertParameter_hookParameters row duplicate w with h | h
      · exact ⟨[], by simp, by simpa using h⟩
      · exact ⟨[row], by simp [hrow, parameterRow], h⟩
    refine Handler.bind_keep (K := fun db => ∃ rows : List HookParameter,
      (∀ row ∈ rows, row.hookId = hookId) ∧ db.hookParameters = w.db.hookParameters ++ rows)
      hfirst ?_
    rintro _ t ⟨rows, hrows, ht⟩
    obtain ⟨more, hmore, hafter⟩ := ih (draw + 1) t
    refine ⟨rows ++ more, fun r hr => ?_, by rw [hafter, ht, List.append_assoc]⟩
    rcases List.mem_append.mp hr with hr | hr
    · exact hrows r hr
    · exact hmore r hr

theorem createHook_parameterStep (ctx : Context) (payload : CreateHookPayload) (w : World) :
    ParameterStep key w.db
      ((createHook ctx key payload).run Op.exec w).2.db.hookParameters := by
  let K : World → Prop := fun t => ParameterStep key w.db t.db.hookParameters
  refine Program.run_bind_read (K := K) (by simp) .kept fun checked _ => ?_
  set row := newHook ctx key payload checked
  rcases insertNewHook_run row w with ⟨hfree, hrun⟩ | ⟨-, _, hrun⟩
  · rw [Program.bind_eq, Program.run_bind_ok hrun]
    refine Handler.bind_keep (K := fun db => ParameterStep key w.db db.hookParameters) ?_
      fun _ t ht => ?_
    · obtain ⟨rows, hrows, hafter⟩ := @insertDeclared_hookParameters ctx row.id
        checked.declared 3 { w with db := { w.db with hooks := w.db.hooks ++ [row] } }
      rw [hafter]
      exact .declared rows (fun g hg hid => absurd hid (hfree g hg).1) hrows
    · rw [Handler.run_hookParameters_eq (W := [.upsertPermission, .insertAuditLog]) ?_ (by decide)]
      · exact ht
      · exact .bind (emits_write rfl (by decide)) fun _ =>
          .bind (createAuditLog_writes (by decide) _ _ _ _ _ _) fun _ =>
          .bind (findHookById_writes _) fun _ => .bind (emits_orElse _ _) fun _ =>
          buildHookDetail_writes _ _
  · rw [Program.bind_eq, Program.run_bind_error hrun]
    exact .kept

theorem findParameterOf_ok {model : Hook} {paramId : Uuid} {param : HookParameter} {w' : World}
    (h : (findParameterOf model paramId).run Op.exec w = (.ok param, w')) :
    param ∈ w.db.hookParameters ∧ param.id = paramId ∧ param.hookId = model.id := by
  simp only [findParameterOf, Program.bind_eq, Program.run_bind_eq_ok_iff, Handler.exec_sql,
    Stmt.exec, Except.mapError, Prod.mk.injEq, Except.ok.injEq, run_orElse] at h
  obtain ⟨found, t, ⟨rfl, -⟩, hfound, -⟩ := h
  cases hrow : w.db.hookParameters.find? (·.id == paramId) with
  | none => simp [hrow] at hfound
  | some row =>
    by_cases hhook : row.hookId = model.id
    · obtain rfl : row = param := by simpa [hrow, hhook, Option.filter] using hfound
      exact ⟨List.mem_of_find?_eq_some hrow, by simpa using List.find?_some hrow, hhook⟩
    · simp [hrow, hhook, Option.filter] at hfound

theorem findParameterOf_snd (model : Hook) (paramId : Uuid) (w : World) :
    ((findParameterOf model paramId).run Op.exec w).2 = w :=
  Program.run_bind_read (K := fun t => t = w) (by simp [Stmt.exec]) rfl fun _ _ => by simp

/-- The guards in front of a write to a hook's parameters. -/
theorem guarded_parameterStep {α : Type} {identifier action : String} {f : Hook → Handler α}
    (hwf : w.db.WellFormed)
    (hf : ∀ model ∈ w.db.hooks, w.db.MayTouch key model.id →
      ParameterStep key w.db ((f model).run Op.exec w).2.db.hookParameters) :
    ParameterStep key w.db (((resolveHook identifier).bind fun model =>
      (guardManage key model).bind fun _ =>
        (Program.ofExcept (guardMasterForPrivilegedHook key model action)).bind fun _ =>
          f model).run Op.exec w).2.db.hookParameters := by
  let K : World → Prop := fun t => ParameterStep key w.db t.db.hookParameters
  refine Program.run_bind_read (K := K) (by simp) .kept fun model hmodel => ?_
  refine Program.run_bind_read (K := K) (guardManage_snd _ _ _) .kept fun _ _ => ?_
  refine Program.run_bind_read (K := K) (by simp) .kept fun _ hprivileged => ?_
  have hmem := (Database.resolveLive_mem (run_resolveHook_ok.mp hmodel).2).1
  exact hf model hmem (mayTouch_of_guard hwf hmem (by simpa using hprivileged))

theorem createHookParameter_parameterStep (ctx : Context) (identifier : String)
    (payload : ParameterInput) (hwf : w.db.WellFormed) : ParameterStep key w.db
      ((createHookParameter ctx key identifier payload).run Op.exec w).2.db.hookParameters := by
  refine guarded_parameterStep hwf fun model _ hmay => ?_
  let K : World → Prop := fun t => ParameterStep key w.db t.db.hookParameters
  refine Program.run_bind_read (K := K) (by simp) .kept fun _ _ => ?_
  refine Handler.bind_keep (K := fun db => ParameterStep key w.db db.hookParameters) ?_
    fun _ _ hstep => hstep.rest ((createAuditLog_writes (by decide) _ _ _ _ _ _).bind fun _ =>
      .bind (emits_read rfl) fun _ => emits_orElse _ _)
  rcases insertParameter_hookParameters (parameterRow ctx 0 model.id payload) _ w with h | h
  · rw [h]
    exact .kept
  · rw [h]
    exact .declared _ hmay (by simp [parameterRow])

theorem updateHookParameter_parameterStep (ctx : Context) (identifier : String) (paramId : Uuid)
    (payload : UpdateParameterPayload) (hwf : w.db.WellFormed) : ParameterStep key w.db
      ((updateHookParameter ctx key identifier paramId payload).run Op.exec
        w).2.db.hookParameters := by
  refine guarded_parameterStep hwf fun model _ hmay => ?_
  refine Program.run_bind_read (K := fun t : World => ParameterStep key w.db t.db.hookParameters)
    (findParameterOf_snd _ _ _) .kept fun param hparam => ?_
  obtain ⟨hmem, rfl, hhook⟩ := findParameterOf_ok hparam
  refine Handler.bind_keep (K := fun db => ParameterStep key w.db db.hookParameters) ?_
    fun _ _ hstep => hstep.rest ((createAuditLog_writes (by decide) _ _ _ _ _ _).bind
      fun _ => trivial)
  rw [run_sql_snd]
  change ParameterStep key w.db (w.db.updateHookParameter param.id _).2.hookParameters
  unfold Database.updateHookParameter
  split
  · exact .kept
  · exact .edited _ hmem (hhook ▸ hmay)

theorem deleteHookParameter_parameterStep (ctx : Context) (identifier : String) (paramId : Uuid)
    (hwf : w.db.WellFormed) : ParameterStep key w.db
      ((deleteHookParameter ctx key identifier paramId).run Op.exec w).2.db.hookParameters := by
  refine guarded_parameterStep hwf fun model _ hmay => ?_
  refine Program.run_bind_read (K := fun t : World => ParameterStep key w.db t.db.hookParameters)
    (findParameterOf_snd _ _ _) .kept fun param hparam => ?_
  obtain ⟨hmem, rfl, hhook⟩ := findParameterOf_ok hparam
  refine Handler.bind_keep (K := fun db => ParameterStep key w.db db.hookParameters) ?_
    fun _ _ hstep => hstep.rest (createAuditLog_writes (by decide) _ _ _ _ _ _)
  rw [run_sql_snd]
  exact .removed hmem (hhook ▸ hmay)

/-- Purging hooks is the master's alone, by name or by age. -/
theorem purge_parameterStep {db : Database} (c : HookCondition) (hmaster : key.isMaster = true) :
    ParameterStep key db (db.deleteHooks c).2.hookParameters :=
  .purged _ hmaster

theorem deleteHook_parameterStep (ctx : Context) (identifier : String) (query : DeleteHookQuery)
    (w : World) : ParameterStep key w.db
      ((deleteHook ctx key identifier query).run Op.exec w).2.db.hookParameters := by
  let K : World → Prop := fun t => ParameterStep key w.db t.db.hookParameters
  have hresolve : ((if query.hard.getD false then resolveHookIncludingDeleted identifier
      else resolveHook identifier).run Op.exec w).2 = w := by
    split <;> simp
  refine Program.run_bind_read (K := K) hresolve .kept fun model _ => ?_
  refine Program.run_bind_read (K := K) (guardManage_snd _ _ _) .kept fun _ _ => ?_
  refine Program.run_bind_read (K := K) (by simp) .kept fun _ _ => ?_
  refine Program.run_bind_read (K := K) (by simp) .kept fun _ _ => ?_
  cases query.hard.getD false with
  | true =>
    refine Program.run_bind_read (K := K) (by simp) .kept fun _ hmaster => ?_
    refine Handler.bind_keep (K := fun db => ParameterStep key w.db db.hookParameters) ?_
      fun _ _ hstep => hstep.rest (.bind (Program.emits_require _ _) fun _ =>
        createAuditLog_writes (by decide) _ _ _ _ _ _)
    rw [run_sql_snd]
    exact purge_parameterStep _ (isMaster_of_require hmaster)
  | false =>
    change ParameterStep key w.db _
    rw [Handler.run_hookParameters_eq (W := [.updateHooks, .insertAuditLog]) ?_ (by decide)]
    · exact .kept
    · exact .bind (emits_write rfl (by decide)) fun _ => .bind (Program.emits_require _ _)
        fun _ => createAuditLog_writes (by decide) _ _ _ _ _ _

theorem purgeDeletedHooks_parameterStep (ctx : Context) (query : PurgeQuery) (w : World) :
    ParameterStep key w.db
      ((purgeDeletedHooks ctx key query).run Op.exec w).2.db.hookParameters := by
  let K : World → Prop := fun t => ParameterStep key w.db t.db.hookParameters
  refine Program.run_bind_read (K := K) (by simp) .kept fun _ hmaster => ?_
  refine Program.run_bind_read (K := K) (by simp) .kept fun days _ => ?_
  refine Handler.bind_keep (K := fun db => ParameterStep key w.db db.hookParameters) ?_
    fun _ _ hstep => hstep.rest ((createAuditLog_writes (by decide) _ _ _ _ _ _).bind
      fun _ => trivial)
  unfold purgeExpiredDeletedHooks
  split
  · exact .kept
  · refine Program.run_bind_read (K := K) (by simp) .kept fun threshold _ => ?_
    rw [run_sql_snd]
    exact purge_parameterStep _ (isMaster_of_require hmaster)

/-- Whatever a request is and however it ends. -/
theorem handleAdmin_parameterStep (ctx : Context) (request : AdminRequest)
    (hwf : w.db.WellFormed) : ParameterStep key w.db
      ((handleAdmin ctx key request).run Op.exec w).2.db.hookParameters := by
  have hmap : ∀ {α β : Type} {p : Handler α} (f : α → β),
      ParameterStep key w.db (p.run Op.exec w).2.db.hookParameters →
      ParameterStep key w.db ((f <$> p).run Op.exec w).2.db.hookParameters := fun f h =>
    Handler.map_keep (K := fun db => ParameterStep key w.db db.hookParameters) f h
  cases request with
  | createHook payload => exact hmap _ (createHook_parameterStep ctx payload w)
  | deleteHook identifier query => exact hmap _ (deleteHook_parameterStep ctx identifier query w)
  | purgeDeletedHooks query => exact hmap _ (purgeDeletedHooks_parameterStep ctx query w)
  | createHookParameter identifier payload =>
    exact hmap _ (createHookParameter_parameterStep ctx identifier payload hwf)
  | updateHookParameter identifier paramId payload =>
    exact hmap _ (updateHookParameter_parameterStep ctx identifier paramId payload hwf)
  | deleteHookParameter identifier paramId =>
    exact hmap _ (deleteHookParameter_parameterStep ctx identifier paramId hwf)
  | _ =>
    rw [Handler.run_hookParameters_eq (handleAdmin_writes ctx key _) (by simp [AdminRequest.writes,
      Write.tables])]
    exact .kept

/-- The parameters of a hook. -/
def Database.parametersOf (db : Database) (hookId : Uuid) : List HookParameter :=
  db.hookParameters.filter (·.hookId == hookId)

/-- Parameters have identifiers of their own. -/
def Database.DistinctParameters (db : Database) : Prop := (db.hookParameters.map (·.id)).Nodup

/-- What an insert checks for and an edit leaves alone stays different from row
to row. -/
theorem Stmt.exec_nodupParameters {δ : Type} (f : HookParameter → δ)
    (hupdate : ∀ (u : HookParameterUpdate) (p : HookParameter), f (u.apply p) = f p)
    (hinsert : ∀ p row : HookParameter, f p = f row →
      p.id = row.id ∨ p.hookId = row.hookId ∧ p.paramKey = row.paramKey)
    {β : Type} (s : Stmt β) {db : Database} (h : (db.hookParameters.map f).Nodup) :
    ((s.exec db).2.hookParameters.map f).Nodup := by
  have hsub : ∀ {rows : List HookParameter}, rows.Sublist db.hookParameters →
      (rows.map f).Nodup := fun hrows => h.sublist (hrows.map _)
  have hother : (∀ k ∈ s.write?, Table.hookParameters ∉ k.tables) →
      ((s.exec db).2.hookParameters.map f).Nodup := fun hs => by
    rw [show (s.exec db).2.hookParameters = db.hookParameters from s.exec_agree db hs]
    exact h
  cases s with
  | insertHookParameter row =>
    change ((db.insertHookParameter row).2.hookParameters.map f).Nodup
    unfold Database.insertHookParameter
    split
    · exact h
    · rename_i hfree
      split
      · simp only [List.map_append, List.map_cons, List.map_nil]
        refine List.Nodup.append h (List.nodup_singleton _) ?_
        intro d hd hrow
        obtain ⟨p, hp, rfl⟩ := List.mem_map.mp hd
        refine hfree (List.any_eq_true.mpr ⟨p, hp, ?_⟩)
        simpa using hinsert p row (List.mem_singleton.mp hrow)
      · exact h
  | updateHookParameter id u =>
    change ((db.updateHookParameter id u).2.hookParameters.map f).Nodup
    unfold Database.updateHookParameter
    split
    · exact h
    · have hkept : (db.hookParameters.map fun p => if p.id == id then u.apply p else p).map f =
          db.hookParameters.map f := by
        rw [List.map_map]
        refine List.map_congr_left fun p _ => ?_
        simp only [Function.comp_apply]
        split
        · exact hupdate u p
        · rfl
      rw [hkept]
      exact h
  | deleteHookParameter id => exact hsub List.filter_sublist
  | deleteHooks c => exact hsub List.filter_sublist
  | _ => exact hother (by simp [Stmt.write?, Write.tables])

theorem Stmt.exec_distinctParameters {β : Type} (s : Stmt β) {db : Database}
    (h : db.DistinctParameters) : (s.exec db).2.DistinctParameters :=
  s.exec_nodupParameters (·.id) (fun _ _ => rfl) (fun _ _ hid => .inl hid) h

theorem Reachable.distinctParameters {state : AppState} {w : World} (h : Reachable state w) :
    w.db.DistinctParameters :=
  h.database (J := Database.DistinctParameters) List.nodup_nil Stmt.exec_distinctParameters

/-- No hook declares a key twice. -/
theorem Reachable.declaresOnce {state : AppState} {w : World} (h : Reachable state w) :
    (w.db.hookParameters.map fun p => (p.hookId, p.paramKey)).Nodup :=
  h.database (J := fun db => (db.hookParameters.map fun p => (p.hookId, p.paramKey)).Nodup)
    List.nodup_nil (Stmt.exec_nodupParameters _ (fun _ _ => rfl)
      fun _ _ hkey => .inr (Prod.mk.inj hkey))

/-- Nobody but the master moves the parameters of a hook that runs as another
account. -/
theorem ParameterStep.parametersOf_eq {db after : Database} {h : Hook}
    (hstep : ParameterStep key db after.hookParameters) (hdistinct : db.DistinctParameters)
    (hordinary : key.isMaster = false) (hmem : h ∈ db.hooks) (hprivileged : h.Privileged) :
    after.parametersOf h.id = db.parametersOf h.id := by
  have hother : ∀ {hookId : Uuid}, db.MayTouch key hookId → hookId ≠ h.id := by
    intro hookId hmay heq
    rcases hmay h hmem heq.symm with hmaster | hnot
    · simp [hmaster] at hordinary
    · exact hnot hprivileged
  have hrow : ∀ {param p : HookParameter}, param ∈ db.hookParameters → p ∈ db.hookParameters →
      db.MayTouch key param.hookId → p.hookId = h.id → p.id ≠ param.id := by
    intro param p hparam hp hmay hhook hid
    obtain rfl := List.inj_on_of_nodup_map hdistinct hp hparam hid
    exact hother hmay hhook
  unfold Database.parametersOf
  generalize after.hookParameters = rows at hstep
  cases hstep with
  | kept => rfl
  | declared rows may belong =>
    have hnone : rows.filter (·.hookId == h.id) = [] := by
      refine List.filter_eq_nil_iff.mpr fun row hrow' => ?_
      simpa [belong row hrow'] using hother may
    rw [List.filter_append, hnone, List.append_nil]
  | @edited param u mem may =>
    have hkept : (fun p : HookParameter => p.hookId == h.id) ∘ u.at_ param.id =
        fun p => p.hookId == h.id := by
      funext p
      simp only [Function.comp_apply, HookParameterUpdate.at_]
      split <;> rfl
    rw [List.filter_map, hkept]
    refine List.map_congr_left (g := id) (fun p hp => ?_) |>.trans (List.map_id _)
    obtain ⟨hpmem, hhook⟩ := List.mem_filter.mp hp
    exact if_neg (by simpa using hrow mem hpmem may (by simpa using hhook))
  | @removed param mem may =>
    rw [List.filter_filter]
    refine List.filter_congr fun p hp => ?_
    by_cases hhook : p.hookId = h.id
    · simp [hhook, hrow mem hp may hhook]
    · simp [hhook]
  | purged p master => simp [master] at hordinary

end Parameters

end HookExecutor
