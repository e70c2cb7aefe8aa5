import HookExecutor.Lib.Notes
import HookExecutor.Verification.HookCustody
import HookExecutor.Verification.Lifetime
import HookExecutor.Verification.Parties

/-!
# The audit trail

Every administrative request that changes something leaves one row of the trail,
written after the change it reports. The trail itself is only ever added to: no
row is removed, moved or edited, and all that can happen to one is that it loses
the identifier of its key, when that key is deleted. The name and the prefix stay.
-/

namespace HookExecutor

def AuditLog.unnamed (l : AuditLog) : AuditLog := { l with apiKeyId := none }

abbrev AuditLog.Ages : AuditLog → AuditLog → Prop := Ledger.Fades AuditLog.unnamed

theorem AuditLog.Ages.trans {x y z : AuditLog} (h : x.Ages y) (h' : y.Ages z) : x.Ages z :=
  Ledger.Fades.trans h h' fun _ => rfl

/-- A row that went into the trail. -/
def noteOf : ((β : Type) × Op β × β) → Option AuditLog
  | ⟨_, .db (.insertAuditLog row), .ok _⟩ => some row
  | _ => none

def rowsNoted (h : Heard Op) : List AuditLog := h.filterMap noteOf

/-- The write a request asks for, and what the row that reports it says was done. -/
def AdminRequest.audited : AdminRequest → Option (Write × String)
  | .createHook _ => some (.insertHook, "HOOK_CREATE")
  | .updateHook _ _ => some (.updateHook, "HOOK_UPDATE")
  | .deleteHook _ query =>
    if query.hard.getD false then some (.deleteHooks, "HOOK_HARD_DELETE")
    else some (.updateHooks, "HOOK_DELETE")
  | .restoreHook _ => some (.updateHook, "HOOK_RESTORE")
  | .createHookParameter _ _ => some (.insertHookParameter, "HOOK_PARAM_CREATE")
  | .updateHookParameter _ _ _ => some (.updateHookParameter, "HOOK_PARAM_UPDATE")
  | .deleteHookParameter _ _ => some (.deleteHookParameter, "HOOK_PARAM_DELETE")
  | .createApiKey _ => some (.insertApiKey, "KEY_CREATE")
  | .updateApiKey _ _ => some (.updateApiKey, "KEY_UPDATE")
  | .deleteApiKey _ _ => some (.deleteApiKeys, "KEY_DELETE")
  | .rotateApiKey _ => some (.updateApiKey, "KEY_ROTATE")
  | .regenerateKey _ => some (.updateApiKey, "KEY_REGENERATE_KEY")
  | .regenerateSecret _ => some (.updateApiKey, "KEY_REGENERATE_SECRET")
  | .updateKeyHookPermissions _ _ => some (.upsertPermission, "KEY_PERM_UPDATE")
  | .revokeKeyHookPermission _ _ => some (.deletePermissions, "KEY_PERM_REVOKE")
  | .purgeExecutions _ => some (.deleteExecutions, "EXECUTION_PURGE")
  | .deleteExecution _ => some (.deleteExecutions, "EXECUTION_DELETE")
  | .purgeDeletedHooks _ => some (.deleteHooks, "HOOK_PURGE")
  | _ => none

/-- A purge whose window keeps everything has nothing to write. -/
def AdminRequest.Idle (config : RuntimeConfig) : AdminRequest → Prop
  | .purgeExecutions query => query.olderThanDays.getD config.logRetentionDays ≤ 0
  | .purgeDeletedHooks query => query.olderThanDays.getD config.deletedHookRetentionDays ≤ 0
  | _ => False

/-- A row says who asked, from where, and for what. -/
structure Party.Signs (p : Party) (row : AuditLog) : Prop where
  keyId : row.apiKeyId = some p.key.id
  keyName : row.apiKeyName = p.key.name
  keyPrefix : row.apiKeyPrefix = p.key.prefixText
  clientIp : row.clientIp = p.ctx.clientIp.toText
  action : p.request.audited.map (·.2) = some row.action

/-- A write of this kind went through. -/
def Wrote (k : Write) (h : Heard Op) : Prop :=
  ∃ (β : Type) (s : Stmt β) (b : β), s.write? = some k ∧ Answered h s b

/-- What the request asks for was done, or was nothing. -/
def Party.Acted (p : Party) (h : Heard Op) : Prop :=
  p.request.Idle p.ctx.state.config ∨ ∃ k action, p.request.audited = some (k, action) ∧ Wrote k h

theorem Party.Acted.mono {p : Party} {h h' : Heard Op} (hsub : h ⊆ h') (hp : p.Acted h) :
    p.Acted h' := by
  obtain hidle | ⟨k, action, haudited, β, s, b, hs, hanswered⟩ := hp
  · exact .inl hidle
  · exact .inr ⟨k, action, haudited, β, s, b, hs, hanswered.mono hsub⟩

/-! ### What each handler notes -/

section Handlers

open Program

variable {α β : Type} {p : Party} {h : Heard Op} {W : List Write} {k : Write} {action : String}

/-- The rows a party may write. -/
def Party.Reports (p : Party) (h : Heard Op) (row : AuditLog) : Prop := p.Signs row ∧ p.Acted h

abbrev Notes (p : Party) (h : Heard Op) (q : Handler α) (P : Heard Op → α → Prop) : Prop :=
  q.Ensures (NotesOnce noteOf p.Reports) h P

theorem unnoted_of_writes (hW : Write.insertAuditLog ∉ W) {q : Op β} (hq : WritesAmong W β q) :
    Unnoted noteOf β q := by
  intro b
  cases q with
  | db s =>
    cases s with
    | insertAuditLog row => exact absurd (hq _ rfl) hW
    | _ => rfl
  | _ => rfl

theorem unnoted_stmt {s : Stmt β} (hs : s.write? = some k) (hk : k ≠ .insertAuditLog) :
    Unnoted noteOf _ (.db s) :=
  unnoted_of_writes (W := [k]) (by simpa using hk.symm) (by simp [hs])

/-- A part of a request that writes no row of the trail. -/
theorem notes_aside {q : Handler α} {f : α → Handler β} {P : Heard Op → β → Prop}
    (hq : q.Emits (WritesAmong W)) (hW : Write.insertAuditLog ∉ W)
    (hf : ∀ a h', h ⊆ h' → rowsNoted h' = rowsNoted h → Notes p h' (f a) P) :
    Notes p h (q.bind f) P := by
  have hquiet : q.Emits (Unnoted noteOf) := hq.mono fun _ _ => unnoted_of_writes hW
  have hboth : Notes p h q fun h' _ => h ⊆ h' ∧ rowsNoted h' = rowsNoted h :=
    hquiet.unnoted.mono fun h' _ hsub hsame => ⟨hsub, hsame⟩
  exact hboth.bind fun h' a _ hM => hf a h' hM.1 hM.2

/-- What comes before the write. -/
theorem notes_before {q : Handler α} {f : α → Handler β} {P : Heard Op → β → Prop}
    (hq : q.Emits (WritesAmong [])) (hh : rowsNoted h = [])
    (hf : ∀ a h', rowsNoted h' = [] → Notes p h' (f a) P) : Notes p h (q.bind f) P :=
  notes_aside hq (by decide) fun a h' _ hsame => hf a h' (hsame.trans hh)

/-- What comes between the write and the row that reports it. -/
theorem notes_between {q : Handler α} {f : α → Handler β} {P : Heard Op → β → Prop}
    (hq : q.Emits (WritesAmong W)) (hW : Write.insertAuditLog ∉ W) (hh : rowsNoted h = [])
    (hacted : p.Acted h) (hf : ∀ a h', rowsNoted h' = [] → p.Acted h' → Notes p h' (f a) P) :
    Notes p h (q.bind f) P :=
  notes_aside hq hW fun a h' hsub hsame => hf a h' (hsame.trans hh) (hacted.mono hsub)

/-- The write itself. -/
theorem notes_write {s : Stmt β} {f : β → Handler α} {P : Heard Op → α → Prop}
    (haudited : p.request.audited = some (k, action)) (hs : s.write? = some k)
    (hk : k ≠ .insertAuditLog) (hh : rowsNoted h = [])
    (hf : ∀ b h', rowsNoted h' = [] → p.Acted h' → Notes p h' (f b) P) :
    Notes p h ((sql s).bind f) P := by
  have hquiet := unnoted_stmt hs hk
  refine ⟨hquiet.notesOnce, fun answer => ?_⟩
  cases answer with
  | error err => trivial
  | ok b =>
    refine hf b _ ?_ (.inr ⟨k, action, haudited, _, s, b, hs, List.mem_cons_self⟩)
    rw [rowsNoted, List.filterMap_cons_none (hquiet _)]
    exact hh

/-- A write whose failure is looked at before it is answered. -/
theorem notes_tryWrite {s : Stmt β} {f : Except DbErr β → Handler α} {P : Heard Op → α → Prop}
    (haudited : p.request.audited = some (k, action)) (hs : s.write? = some k)
    (hk : k ≠ .insertAuditLog) (hh : rowsNoted h = [])
    (hok : ∀ b h', rowsNoted h' = [] → p.Acted h' → Notes p h' (f (.ok b)) P)
    (herror : ∀ err h', rowsNoted h' = [] → Notes p h' (f (.error err)) P) :
    Notes p h ((trySql s).bind f) P := by
  have hquiet := unnoted_stmt hs hk
  have hnone : ∀ answer, rowsNoted (⟨_, .db s, answer⟩ :: h) = [] := by
    intro answer
    rw [rowsNoted, List.filterMap_cons_none (hquiet _)]
    exact hh
  refine ⟨hquiet.notesOnce, fun answer => ?_⟩
  cases answer with
  | error err => exact herror err _ (hnone _)
  | ok b => exact hok b _ (hnone _) (.inr ⟨k, action, haudited, _, s, b, hs, List.mem_cons_self⟩)

/-- The row that reports it. -/
theorem notes_audit {draw : Nat} {resource details : Option String}
    (haudited : p.request.audited = some (k, action)) (hh : rowsNoted h = [])
    (hacted : p.Acted h) :
    Notes p h (createAuditLog p.ctx p.key draw action resource details) fun h' _ =>
      rowsNoted h' ≠ [] := by
  refine ⟨fun answer row hrow => ?_, fun answer => ?_⟩
  · cases answer with
    | error err => cases hrow
    | ok b =>
      cases hrow
      exact ⟨hh, ⟨rfl, rfl, rfl, rfl, by rw [haudited]; rfl⟩, hacted⟩
  · cases answer with
    | error err => trivial
    | ok b => exact List.cons_ne_nil _ _

/-- What comes after it. -/
theorem notes_after {q : Handler α} (hq : q.Emits (WritesAmong [])) (hh : rowsNoted h ≠ []) :
    Notes p h q fun h' _ => rowsNoted h' ≠ [] := by
  have hquiet : q.Emits (Unnoted noteOf) := hq.mono fun _ _ => unnoted_of_writes (by decide)
  exact hquiet.unnoted.mono fun _ _ _ hsame => hsame.trans_ne hh

variable {ctx : Context} {key : ApiKey} {identifier : String} {id : Uuid}

/-- A handler that leaves its row behind if it succeeds. -/
abbrev LeavesRow (ctx : Context) (key : ApiKey) (request : AdminRequest) (q : Handler α) : Prop :=
  Notes ⟨ctx, key, request⟩ [] q fun h _ => rowsNoted h ≠ []

theorem createHook_notes (payload : CreateHookPayload) :
    LeavesRow ctx key (.createHook payload) (createHook ctx key payload) := by
  refine notes_before (emits_ofExcept _) rfl fun checked _ hh => ?_
  refine Ensures.bind (M := fun h' _ => rowsNoted h' = [] ∧
    Party.Acted ⟨ctx, key, .createHook payload⟩ h') ?_ fun _ _ _ hdone => ?_
  · refine notes_tryWrite rfl rfl (by decide) hh (fun _ _ hh hacted => ⟨hh, hacted⟩)
      fun err _ hh => ?_
    cases err with
    | uniqueConstraintViolation =>
      exact notes_before (.map _ (emits_read rfl)) hh fun _ _ _ => trivial
    | _ => trivial
  refine notes_between (insertDeclared_writes (W := [.insertHookParameter]) (by decide) _ _ _ _)
    (by decide) hdone.1 hdone.2 fun _ _ hh hacted => ?_
  refine notes_between (emits_write (W := [.upsertPermission]) rfl (by decide)) (by decide) hh
    hacted fun _ _ hh hacted => ?_
  refine (notes_audit rfl hh hacted).bind fun _ _ _ hnoted => notes_after ?_ hnoted
  exact (findHookById_writes _).bind fun _ => .bind (emits_orElse _ _) fun _ =>
    buildHookDetail_writes _ _

theorem updateHook_notes (payload : UpdateHookPayload) :
    LeavesRow ctx key (.updateHook identifier payload) (updateHook ctx key identifier payload) := by
  refine notes_before (resolveHook_writes _) rfl fun model _ hh => ?_
  refine notes_before (guardUpdateHook_writes _ _ _) hh fun runAsUser _ hh => ?_
  refine notes_before (emits_ofExcept _) hh fun _ _ hh => ?_
  refine notes_before (emits_ofExcept _) hh fun _ _ hh => ?_
  refine notes_before (loadParameters_writes _) hh fun _ _ hh => ?_
  refine notes_before (emits_ofExcept _) hh fun _ _ hh => ?_
  refine Ensures.bind (M := fun h' _ => rowsNoted h' = [] ∧
    Party.Acted ⟨ctx, key, .updateHook identifier payload⟩ h') ?_ fun _ _ _ hdone => ?_
  · refine notes_tryWrite rfl rfl (by decide) hh (fun _ _ hh hacted => ⟨hh, hacted⟩)
      fun err _ hh => ?_
    cases err <;> trivial
  exact (notes_audit rfl hdone.1 hdone.2).bind fun _ _ _ hnoted =>
    notes_after (buildHookDetail_writes _ _) hnoted

theorem deleteHook_notes (query : DeleteHookQuery) :
    LeavesRow ctx key (.deleteHook identifier query) (deleteHook ctx key identifier query) := by
  refine notes_before (resolveEither_writes (query.hard.getD false) _) rfl fun model _ hh => ?_
  refine notes_before (guardManage_writes _ _) hh fun _ _ hh => ?_
  refine notes_before (emits_ofExcept _) hh fun _ _ hh => ?_
  refine notes_before (emits_ofExcept _) hh fun _ _ hh => ?_
  cases hhard : query.hard.getD false with
  | true =>
    have haudited : (AdminRequest.deleteHook identifier query).audited =
        some (.deleteHooks, "HOOK_HARD_DELETE") := by simp [AdminRequest.audited, hhard]
    refine notes_before (emits_require _ _) hh fun _ _ hh => ?_
    refine notes_write haudited rfl (by decide) hh fun _ _ hh hacted => ?_
    exact notes_between (emits_require (P := WritesAmong []) _ _) (by decide) hh hacted
      fun _ _ hh hacted => notes_audit haudited hh hacted
  | false =>
    have haudited : (AdminRequest.deleteHook identifier query).audited =
        some (.updateHooks, "HOOK_DELETE") := by simp [AdminRequest.audited, hhard]
    refine notes_write haudited rfl (by decide) hh fun _ _ hh hacted => ?_
    exact notes_between (emits_require (P := WritesAmong []) _ _) (by decide) hh hacted
      fun _ _ hh hacted => notes_audit haudited hh hacted

theorem restoreHook_notes :
    LeavesRow ctx key (.restoreHook identifier) (restoreHook ctx key identifier) := by
  refine notes_before (emits_require _ _) rfl fun _ _ hh => ?_
  refine notes_before (resolveHookIncludingDeleted_writes _) hh fun model _ hh => ?_
  refine notes_before (emits_require _ _) hh fun _ _ hh => ?_
  refine notes_write rfl rfl (by decide) hh fun _ _ hh hacted => ?_
  refine (notes_audit rfl hh hacted).bind fun _ _ _ hnoted => notes_after ?_ hnoted
  exact (findHookById_writes _).bind fun _ => .bind (emits_orElse _ _) fun _ =>
    buildHookDetail_writes _ _

theorem createHookParameter_notes (payload : ParameterInput) :
    LeavesRow ctx key (.createHookParameter identifier payload)
      (createHookParameter ctx key identifier payload) := by
  refine notes_before (resolveHook_writes _) rfl fun model _ hh => ?_
  refine notes_before (guardManage_writes _ _) hh fun _ _ hh => ?_
  refine notes_before (emits_ofExcept _) hh fun _ _ hh => ?_
  refine notes_before (emits_require _ _) hh fun _ _ hh => ?_
  refine Ensures.bind (M := fun h' _ => rowsNoted h' = [] ∧
    Party.Acted ⟨ctx, key, .createHookParameter identifier payload⟩ h') ?_ fun _ _ _ hdone => ?_
  · refine notes_tryWrite rfl rfl (by decide) hh (fun _ _ hh hacted => ⟨hh, hacted⟩)
      fun err _ hh => ?_
    cases err <;> trivial
  refine (notes_audit rfl hdone.1 hdone.2).bind fun _ _ _ hnoted => notes_after ?_ hnoted
  exact .bind (emits_read rfl) fun _ => emits_orElse _ _

theorem updateHookParameter_notes (paramId : Uuid) (payload : UpdateParameterPayload) :
    LeavesRow ctx key (.updateHookParameter identifier paramId payload)
      (updateHookParameter ctx key identifier paramId payload) := by
  refine notes_before (resolveHook_writes _) rfl fun model _ hh => ?_
  refine notes_before (guardManage_writes _ _) hh fun _ _ hh => ?_
  refine notes_before (emits_ofExcept _) hh fun _ _ hh => ?_
  refine notes_before (findParameterOf_writes _ _) hh fun _ _ hh => ?_
  refine notes_write rfl rfl (by decide) hh fun _ _ hh hacted => ?_
  exact (notes_audit rfl hh hacted).bind fun _ _ _ hnoted => hnoted

theorem deleteHookParameter_notes (paramId : Uuid) :
    LeavesRow ctx key (.deleteHookParameter identifier paramId)
      (deleteHookParameter ctx key identifier paramId) := by
  refine notes_before (resolveHook_writes _) rfl fun model _ hh => ?_
  refine notes_before (guardManage_writes _ _) hh fun _ _ hh => ?_
  refine notes_before (emits_ofExcept _) hh fun _ _ hh => ?_
  refine notes_before (findParameterOf_writes _ _) hh fun _ _ hh => ?_
  exact notes_write rfl rfl (by decide) hh fun _ _ hh hacted => notes_audit rfl hh hacted

theorem createApiKey_notes (payload : CreateApiKeyPayload) :
    LeavesRow ctx key (.createApiKey payload) (createApiKey ctx key payload) := by
  refine notes_before (emits_ofExcept _) rfl fun _ _ hh => ?_
  refine notes_before (emits_ofExcept _) hh fun pair _ hh => ?_
  refine notes_write rfl rfl (by decide) hh fun _ _ hh hacted => ?_
  exact (notes_audit rfl hh hacted).bind fun _ _ _ hnoted => hnoted

theorem updateApiKey_notes (payload : UpdateApiKeyPayload) :
    LeavesRow ctx key (.updateApiKey id payload) (updateApiKey ctx key id payload) := by
  refine notes_before (emits_ofExcept _) rfl fun _ _ hh => ?_
  refine notes_before (loadAdministrableKey_writes _ _) hh fun target _ hh => ?_
  refine notes_before (emits_ofExcept _) hh fun _ _ hh => ?_
  refine notes_write rfl rfl (by decide) hh fun _ _ hh hacted => ?_
  exact (notes_audit rfl hh hacted).bind fun _ _ _ hnoted =>
    notes_after (buildApiKeySummary_writes _) hnoted

theorem deleteApiKey_notes (payload : DeleteApiKeyPayload) :
    LeavesRow ctx key (.deleteApiKey id payload) (deleteApiKey ctx key id payload) := by
  refine notes_before (emits_ofExcept _) rfl fun _ _ hh => ?_
  refine notes_before (emits_require _ _) hh fun _ _ hh => ?_
  refine notes_before (loadAdministrableKey_writes _ _) hh fun target _ hh => ?_
  refine notes_before (emits_ofExcept _) hh fun _ _ hh => ?_
  refine notes_before (emits_ofExcept _) hh fun _ _ hh => ?_
  refine notes_before (collectSubtreeInventory_writes _) hh fun found _ hh => ?_
  refine notes_before (emits_ofExcept _) hh fun _ _ hh => ?_
  refine notes_before (validateReassignments_writes _ _) hh fun _ _ hh => ?_
  -- the hooks are handed on before the keys go, under the same row
  refine notes_aside (applyResolutions_writes (W := [.updateHook]) (by decide) _ _ _ _)
    (by decide) fun counts _ _ hsame => ?_
  refine notes_write rfl rfl (by decide) (hsame.trans hh) fun _ _ hh hacted => ?_
  exact notes_between (emits_require (P := WritesAmong []) _ _) (by decide) hh hacted
    fun _ _ hh hacted => notes_audit rfl hh hacted

theorem rotateApiKey_notes :
    LeavesRow ctx key (.rotateApiKey id) (rotateApiKey ctx key id) := by
  refine notes_before (loadReissuableKey_writes _ _ _) rfl fun target _ hh => ?_
  refine notes_before (emits_ofExcept _) hh fun pair _ hh => ?_
  refine notes_write rfl rfl (by decide) hh fun _ _ hh hacted => ?_
  exact (notes_audit rfl hh hacted).bind fun _ _ _ hnoted => hnoted

theorem regenerateKey_notes :
    LeavesRow ctx key (.regenerateKey id) (regenerateKey ctx key id) := by
  refine notes_before (loadReissuableKey_writes _ _ _) rfl fun target _ hh => ?_
  refine notes_write rfl rfl (by decide) hh fun _ _ hh hacted => ?_
  exact (notes_audit rfl hh hacted).bind fun _ _ _ hnoted => hnoted

theorem regenerateSecret_notes :
    LeavesRow ctx key (.regenerateSecret id) (regenerateSecret ctx key id) := by
  refine notes_before (loadReissuableKey_writes _ _ _) rfl fun target _ hh => ?_
  refine notes_before (emits_ofExcept _) hh fun pair _ hh => ?_
  refine notes_write rfl rfl (by decide) hh fun _ _ hh hacted => ?_
  exact (notes_audit rfl hh hacted).bind fun _ _ _ hnoted => hnoted

theorem updateKeyHookPermissions_notes (payload : HookPermInput) :
    LeavesRow ctx key (.updateKeyHookPermissions id payload)
      (updateKeyHookPermissions ctx key id payload) := by
  refine notes_before (hasPermissionAdminStanding_writes _) rfl fun standing _ hh => ?_
  refine notes_before (emits_require _ _) hh fun _ _ hh => ?_
  refine notes_before (findApiKeyById_writes _) hh fun found _ hh => ?_
  refine notes_before (emits_orElse _ _) hh fun targetKey _ hh => ?_
  refine notes_before (keyVisibility_writes _ _) hh fun visibility _ hh => ?_
  refine notes_before (emits_require _ _) hh fun _ _ hh => ?_
  refine notes_before (emits_require _ _) hh fun _ _ hh => ?_
  refine notes_before (emits_ofExcept _) hh fun identifier _ hh => ?_
  refine notes_before (resolveHook_writes _) hh fun hook _ hh => ?_
  refine notes_before (hookPermission_writes _ _) hh fun existing _ hh => ?_
  refine notes_before (guardPermissionWrite_writes _ _ _ _ _) hh fun _ _ hh => ?_
  refine notes_before (emits_ofExcept _) hh fun _ _ hh => ?_
  exact notes_write rfl rfl (by decide) hh fun _ _ hh hacted => notes_audit rfl hh hacted

theorem revokeKeyHookPermission_notes :
    LeavesRow ctx key (.revokeKeyHookPermission id identifier)
      (revokeKeyHookPermission ctx key id identifier) := by
  refine notes_before (hasPermissionAdminStanding_writes _) rfl fun standing _ hh => ?_
  refine notes_before (emits_require _ _) hh fun _ _ hh => ?_
  refine notes_before (resolveHook_writes _) hh fun hook _ hh => ?_
  refine notes_before (guardRevocation_writes _ _) hh fun _ _ hh => ?_
  refine notes_write rfl rfl (by decide) hh fun _ _ hh hacted => ?_
  refine notes_between (emits_require (P := WritesAmong []) _ _) (by decide) hh hacted
    fun _ _ hh hacted => ?_
  refine notes_between (findApiKeyById_writes (W := []) _) (by decide) hh hacted
    fun found _ hh hacted => ?_
  exact notes_between (emits_orElse (P := WritesAmong []) _ _) (by decide) hh hacted
    fun _ _ hh hacted => notes_audit rfl hh hacted

/-- A sweep over a window that keeps everything is done with before it begins. -/
theorem notes_purge {now : DateTime} {days : Int} {s : DateTime → Stmt Nat}
    {f : Nat → Handler α} {P : Heard Op → α → Prop} (haudited : p.request.audited = some (k, action))
    (hs : ∀ threshold, (s threshold).write? = some k) (hk : k ≠ .insertAuditLog)
    (hidle : days ≤ 0 → p.request.Idle p.ctx.state.config) (hh : rowsNoted h = [])
    (hf : ∀ n h', rowsNoted h' = [] → p.Acted h' → Notes p h' (f n) P) :
    Notes p h (Program.bind (if days ≤ 0 then return 0 else do
      let threshold ← .ofExcept (purgeThreshold now days)
      sql (s threshold)) f) P := by
  by_cases hdays : days ≤ 0
  · rw [if_pos hdays]
    exact hf 0 h hh (.inl (hidle hdays))
  · rw [if_neg hdays]
    cases purgeThreshold now days with
    | error e => trivial
    | ok threshold => exact notes_write haudited (hs threshold) hk hh hf

theorem purgeDays_eq {query : PurgeQuery} {default days : Int}
    (h : purgeDays query default = .ok days) : days = query.olderThanDays.getD default := by
  simp only [purgeDays] at h
  split at h
  · cases h
  · exact (Except.ok.inj h).symm

theorem purgeDeletedHooks_notes (query : PurgeQuery) :
    LeavesRow ctx key (.purgeDeletedHooks query) (purgeDeletedHooks ctx key query) := by
  refine notes_before (emits_require _ _) rfl fun _ _ hh => ?_
  cases hdays : purgeDays query ctx.state.config.deletedHookRetentionDays with
  | error e => trivial
  | ok days =>
    have hwindow := purgeDays_eq hdays
    refine notes_purge rfl (fun _ => rfl) (by decide) (fun hle => ?_) hh fun _ _ hh hacted => ?_
    · rw [hwindow] at hle
      exact hle
    · exact (notes_audit rfl hh hacted).bind fun _ _ _ hnoted => hnoted

theorem purgeExecutions_notes (query : PurgeQuery) :
    LeavesRow ctx key (.purgeExecutions query) (purgeExecutions ctx key query) := by
  refine notes_before (emits_require _ _) rfl fun _ _ hh => ?_
  cases hdays : purgeDays query ctx.state.config.logRetentionDays with
  | error e => trivial
  | ok days =>
    have hwindow := purgeDays_eq hdays
    refine notes_purge rfl (fun _ => rfl) (by decide) (fun hle => ?_) hh fun _ _ hh hacted => ?_
    · rw [hwindow] at hle
      exact hle
    · exact (notes_audit rfl hh hacted).bind fun _ _ _ hnoted => hnoted

theorem deleteExecution_notes :
    LeavesRow ctx key (.deleteExecution id) (deleteExecution ctx key id) := by
  refine notes_before (.map _ (emits_read rfl)) rfl fun found _ hh => ?_
  refine notes_before (emits_orElse _ _) hh fun model _ hh => ?_
  refine notes_before (findHookById_writes _) hh fun foundHook _ hh => ?_
  refine notes_before (emits_orElse _ _) hh fun hook _ hh => ?_
  refine notes_before (guardManage_writes _ _) hh fun _ _ hh => ?_
  exact notes_write rfl rfl (by decide) hh fun _ _ hh hacted => notes_audit rfl hh hacted

/-- Every party takes at most one note, and one if it succeeds at what is to be
noted. -/
theorem handleAdmin_notes (p : Party) :
    Notes p [] p.program fun h _ => p.request.audited.isSome = true → rowsNoted h ≠ [] := by
  obtain ⟨ctx, key, request⟩ := p
  have hreads : request.writes = [] → request.audited = none →
      Notes ⟨ctx, key, request⟩ [] (handleAdmin ctx key request) fun h _ =>
        request.audited.isSome = true → rowsNoted h ≠ [] := by
    intro hwrites haudited
    have hquiet : (handleAdmin ctx key request).Emits (Unnoted noteOf) :=
      (hwrites ▸ handleAdmin_writes ctx key request).mono fun _ _ =>
        unnoted_of_writes (by decide)
    refine hquiet.unnoted.mono fun _ _ _ _ hsome => ?_
    rw [haudited] at hsome
    cases hsome
  have hleaves : ∀ {γ : Type} {q : Handler γ} {f : γ → AdminResponse},
      LeavesRow ctx key request q → Notes ⟨ctx, key, request⟩ [] (f <$> q) fun h _ =>
        request.audited.isSome = true → rowsNoted h ≠ [] :=
    fun hq => (hq.mono fun _ _ _ hnoted _ => hnoted).map
  cases request with
  | createHook payload => exact hleaves (createHook_notes payload)
  | updateHook identifier payload => exact hleaves (updateHook_notes payload)
  | deleteHook identifier query => exact hleaves (deleteHook_notes query)
  | restoreHook identifier => exact hleaves restoreHook_notes
  | createHookParameter identifier payload => exact hleaves (createHookParameter_notes payload)
  | updateHookParameter identifier paramId payload =>
    exact hleaves (updateHookParameter_notes paramId payload)
  | deleteHookParameter identifier paramId => exact hleaves (deleteHookParameter_notes paramId)
  | createApiKey payload => exact hleaves (createApiKey_notes payload)
  | updateApiKey id payload => exact hleaves (updateApiKey_notes payload)
  | deleteApiKey id payload => exact hleaves (deleteApiKey_notes payload)
  | rotateApiKey id => exact hleaves rotateApiKey_notes
  | regenerateKey id => exact hleaves regenerateKey_notes
  | regenerateSecret id => exact hleaves regenerateSecret_notes
  | updateKeyHookPermissions id payload => exact hleaves (updateKeyHookPermissions_notes payload)
  | revokeKeyHookPermission id identifier => exact hleaves revokeKeyHookPermission_notes
  | purgeExecutions query => exact hleaves (purgeExecutions_notes query)
  | deleteExecution id => exact hleaves deleteExecution_notes
  | purgeDeletedHooks query => exact hleaves (purgeDeletedHooks_notes query)
  | _ => exact hreads rfl rfl

end Handlers

/-! ### The trail of the database -/

theorem trail_refl (rows : List AuditLog) : List.Forall₂ AuditLog.Ages rows rows :=
  List.forall₂_same.mpr fun row _ => .refl _ row

/-- The trail is left alone by a statement that neither writes a row of it nor
deletes keys. -/
theorem Stmt.exec_trail {β : Type} (s : Stmt β) (db : Database)
    (hs : ∀ k ∈ s.write?, Table.auditLogs ∉ k.tables) :
    List.Forall₂ AuditLog.Ages (db.auditLogs ++ (noteOf ⟨_, .db s, (s.exec db).1⟩).toList)
      (s.exec db).2.auditLogs := by
  have hsame : (s.exec db).2.auditLogs = db.auditLogs := s.exec_agree db (t := .auditLogs) hs
  have hnone : noteOf ⟨_, .db s, (s.exec db).1⟩ = none := by
    cases s with
    | insertAuditLog row => exact absurd (List.mem_singleton_self _) (hs _ rfl)
    | _ => rfl
  rw [hsame, hnone, Option.toList_none, List.append_nil]
  exact trail_refl _

/-- The trail after an operation is the trail before, some of its rows without the
identifier of their key, and the row the operation put in, if it did. -/
theorem Op.exec_trail {β : Type} (q : Op β) (w : World) :
    List.Forall₂ AuditLog.Ages (w.db.auditLogs ++ (noteOf ⟨β, q, (Op.exec β q w).1⟩).toList)
      (Op.exec β q w).2.db.auditLogs := by
  cases q with
  | db s =>
    cases s with
    | insertAuditLog row =>
      change List.Forall₂ _ (_ ++ (noteOf ⟨_, .db (.insertAuditLog row),
        (w.db.insertAuditLog row).1⟩).toList) (w.db.insertAuditLog row).2.auditLogs
      simp only [Database.insertAuditLog]
      split
      · simpa [noteOf] using trail_refl w.db.auditLogs
      · split
        · exact trail_refl _
        · simpa [noteOf] using trail_refl w.db.auditLogs
    | deleteApiKeys c =>
      change List.Forall₂ _ (_ ++ []) (w.db.deleteApiKeys c).2.auditLogs
      rw [List.append_nil, Database.deleteApiKeys, List.forall₂_map_right_iff]
      refine List.forall₂_same.mpr fun row _ => ?_
      split
      · exact .inr rfl
      · exact .inl rfl
    | _ => exact Stmt.exec_trail _ w.db (by simp [Stmt.write?, Write.tables])
  | _ =>
    rw [Op.exec_db]
    exact (List.append_nil w.db.auditLogs).symm ▸ trail_refl _

theorem AdminRequest.writes_of_unaudited {request : AdminRequest} (h : request.audited = none) :
    request.writes = [] := by
  cases request with
  | deleteHook identifier query => cases hhard : query.hard.getD false <;> simp [audited, hhard] at h
  | _ => first | rfl | cases h

theorem Op.exec_db_of_read {β : Type} {q : Op β} (hq : WritesAmong [] β q) (w : World) :
    (Op.exec β q w).2.db = w.db := by
  rw [Op.exec_db]
  cases q with
  | db s =>
    refine Stmt.exec_snd_of_read (Option.eq_none_iff_forall_ne_some.mpr fun k hk => ?_) w.db
    exact List.not_mem_nil (hq k hk)
  | _ => rfl

section Trail

variable {ι : Type} [DecidableEq ι] {parties : ι → Party} {w : World}
  {c : Config Op AppError AdminResponse World ι}

/-- What requests in flight have put into the trail, each with its row: the trail is
what it was, older, and their rows in the order they went in; each has put in one at
most, and one if it succeeded at changing something; and each row is signed by its
author and was put in after what it reports was done. -/
structure TrailOf (parties : ι → Party) (w : World)
    (c : Config Op AppError AdminResponse World ι) (new : List (ι × AuditLog)) : Prop where
  trail : List.Forall₂ AuditLog.Ages (w.db.auditLogs ++ new.map (·.2)) c.state.db.auditLogs
  once : (new.map (·.1)).Nodup
  reported : ∀ i a, c.left i = .pure a → (parties i).request.audited.isSome = true →
    i ∈ new.map (·.1)
  signed : ∀ i row, (i, row) ∈ new → (parties i).Signs row
  after : ∀ i row, (i, row) ∈ new → ∃ later e early, c.log = later ++ e :: early ∧ e.who = i ∧
    noteOf (e.exchange Op.exec) = some row ∧ (parties i).Acted (heard Op.exec i early)

theorem InFlight.trail (h : InFlight parties w c) :
    TrailOf parties w c (journal Op.exec noteOf c.log) := by
  obtain ⟨hstate, hchained⟩ := h.chained
  have hnotes := fun i => handleAdmin_notes (parties i)
  obtain ⟨honce, hright⟩ := h.noted hnotes
  have hended := (h.ensures hnotes).1
  refine ⟨?_, honce, ?_, ?_, ?_⟩
  · rw [hstate]
    exact hchained.copies (fun w : World => w.db.auditLogs) AuditLog.Ages (.refl _)
      AuditLog.Ages.trans fun e _ => Op.exec_trail e.query e.before
  · intro i a hdone hsome
    have hi := hended i
    rw [hdone] at hi
    obtain ⟨row, hrow⟩ := List.exists_mem_of_ne_nil _ (hi hsome)
    exact List.mem_map.mpr ⟨(i, row), mem_journal_iff_heard.mpr hrow, rfl⟩
  · intro i row hnew
    obtain ⟨later, e, early, hlog, rfl, hnote⟩ := mem_journal.mp hnew
    exact (hright later e early row hlog hnote).1
  · intro i row hnew
    obtain ⟨later, e, early, hlog, rfl, hnote⟩ := mem_journal.mp hnew
    exact ⟨later, e, early, hlog, rfl, hnote, (hright later e early row hlog hnote).2⟩

end Trail

/-! ### Over the life of the service -/

section Life

variable {P : RequestCondition} {s t : Service} {ctx : Context} {clock : AuthClock} {w : World}

/-- A step of the service that let an administrative request through and put one row
in, which its sender signed. -/
inductive AddsRow (P : RequestCondition) (s : Service) : Service → AuditLog → Prop
  | serve {ctx : Context} {clock : AuthClock} {http : HttpRequest} {request : AdminRequest}
      {key : ApiKey} {row : AuditLog} {w₁ : World} (served : ctx.state = s.state)
      (meets : P s.world ctx clock (.admin http request))
      (authenticated : (authenticate ctx clock (.admin http request)).run Op.exec s.world =
        (.ok (.admin key request), w₁))
      (signed : Party.Signs ⟨ctx, key, request⟩ row)
      (added : List.Forall₂ AuditLog.Ages (s.world.db.auditLogs ++ [row])
        ((serve ctx clock (.admin http request)).run Op.exec s.world).2.db.auditLogs) :
      AddsRow P s ⟨s.state, ((serve ctx clock (.admin http request)).run Op.exec s.world).2⟩ row

/-- Handled by itself, a request puts in one row at most, signed by its sender. -/
theorem handleAdmin_trail (ctx : Context) (key : ApiKey) (request : AdminRequest) (w : World) :
    ∃ new : List AuditLog, List.Forall₂ AuditLog.Ages (w.db.auditLogs ++ new)
        ((handleAdmin ctx key request).run Op.exec w).2.db.auditLogs ∧
      new.length ≤ 1 ∧ ∀ row ∈ new, Party.Signs ⟨ctx, key, request⟩ row := by
  let party : Unit → Party := fun _ => ⟨ctx, key, request⟩
  obtain ⟨c, hrun, -, hstate⟩ := (Interleaved.initial (I := Op.exec)
    (g := fun i => (party i).program) (s := w)).finished ()
  have htrail : TrailOf party w c _ := InFlight.trail hrun
  change c.state = ((handleAdmin ctx key request).run Op.exec w).2 at hstate
  refine ⟨_, hstate ▸ htrail.trail, ?_, fun row hrow => ?_⟩
  · rw [List.length_map, ← List.length_map]
    exact List.Nodup.length_le_card htrail.once
  · obtain ⟨entry, hentry, rfl⟩ := List.mem_map.mp hrow
    exact htrail.signed () entry.2 hentry

/-- The trail after a request of either kind. -/
theorem Advances.appends_admin {http : HttpRequest} {request : AdminRequest}
    (served : ctx.state = s.state) (meets : P s.world ctx clock (.admin http request)) :
    ∃ new, List.Forall₂ AuditLog.Ages (s.world.db.auditLogs ++ new)
        ((serve ctx clock (.admin http request)).run Op.exec s.world).2.db.auditLogs ∧
      ∀ row ∈ new, AddsRow P s
        ⟨s.state, ((serve ctx clock (.admin http request)).run Op.exec s.world).2⟩ row := by
  cases hauth : (authenticate ctx clock (.admin http request)).run Op.exec s.world with
  | mk r w₁ =>
    have hdb : w₁.db = s.world.db := authenticate_db hauth
    cases r with
    | error e =>
      refine ⟨[], ?_, by simp⟩
      rw [serve, Program.bind_eq, Program.run_bind_error hauth, hdb, List.append_nil]
      exact trail_refl _
    | ok a =>
      obtain ⟨key, rfl⟩ := authenticated_admin hauth
      obtain ⟨new, htrail, hone, hsigned⟩ := handleAdmin_trail ctx key request w₁
      have hadded : List.Forall₂ AuditLog.Ages (s.world.db.auditLogs ++ new)
          ((serve ctx clock (.admin http request)).run Op.exec s.world).2.db.auditLogs := by
        rw [run_serve hauth, Authenticated.handle, Program.run_map, ← hdb]
        exact htrail
      refine ⟨new, hadded, fun row hrow => ?_⟩
      obtain rfl : new = [row] := by
        obtain ⟨only, rfl⟩ := List.length_eq_one_iff.mp
          (Nat.le_antisymm hone (List.length_pos_of_mem hrow))
        rw [List.mem_singleton.mp hrow]
      exact .serve served meets hauth (hsigned row hrow) hadded

theorem Advances.appends : Ledger.Appends (Advances P) (fun s => s.world.db.auditLogs)
    AuditLog.Ages (AddsRow P) := by
  intro s t hstep
  have hsame : ∀ {w' : World} {state' : AppState}, w'.db.auditLogs = s.world.db.auditLogs →
      ∃ new, List.Forall₂ AuditLog.Ages (s.world.db.auditLogs ++ new) w'.db.auditLogs ∧
        ∀ row ∈ new, AddsRow P s ⟨state', w'⟩ row := by
    intro w' state' heq
    refine ⟨[], ?_, by simp⟩
    rw [heq, List.append_nil]
    exact trail_refl _
  cases hstep with
  | @restarts state' w' start started =>
    have hkept := boot_agree (t := .auditLogs) (by decide) started
    exact hsame hkept
  | serves ctx clock req served meets =>
    cases req with
    | admin http request => exact Advances.appends_admin served meets
    | invoke inv =>
      exact hsame (Handler.run_agree (t := .auditLogs) (serve_invoke_writes ctx clock inv)
        (by decide) s.world)
  | sweepsExecutions now =>
    exact hsame (Handler.run_agree (t := .auditLogs)
      (purgeExpiredExecutions_writes now _ (W := [.deleteExecutions]) (by decide)) (by decide) _)
  | sweepsDeletedHooks now =>
    exact hsame (Handler.run_agree (t := .auditLogs)
      (purgeExpiredDeletedHooks_writes now _ (W := [.deleteHooks]) (by decide)) (by decide) _)

end Life

section Sample

open Sample

/-- The parent reissues its daughter's key while the master deletes the parent. -/
def crossing : Bool → Party
  | false => ⟨ctx 5, Sample.masterRow, .deleteApiKey 101 ⟨[], List.nodup_nil⟩⟩
  | true => ⟨ctx 6, parentRow, .regenerateKey 201⟩

/-- The key is reissued before the statement that removes parent and daughter. -/
def reissuedFirst : Config Op AppError AdminResponse World Bool :=
  ((Config.advance Op.exec false 4 ⟨fun i => (crossing i).program, withDaughter, []⟩).advance
    Op.exec true 30).advance Op.exec false 30

end Sample

end HookExecutor
