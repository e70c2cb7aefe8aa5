import HookExecutor.Verification.Amplification
import HookExecutor.Verification.Parties

/-!
# Grants and revocations at the same time

A write of a permission row is classified by the row the target had when it was
looked up: a write that turns on nothing the target did not have then needs no
verb of the caller. The write itself overwrites every verb of whatever row it
meets. So a verb that was taken away in between is given back, by a caller that
may never have held it.
-/

namespace HookExecutor

/-- The requests that write permission rows. -/
def AdminRequest.WritesGrant : AdminRequest → Prop
  | .updateKeyHookPermissions _ _ | .revokeKeyHookPermission _ _ => True
  | _ => False

def allVerbs : List PermissionColumn := [.canExecute, .canManage, .canViewExecution]

/-- The row of a key on a hook, as a request was answered it. -/
def ReadPermission (h : Heard Op) (keyId hookId : Uuid) (row : Permission) : Prop :=
  ∃ rows, Answered h (.selectPermissions (.and (.apiKeyIdEq keyId) (.hookIdEq hookId))) rows ∧
    rows.head? = some row

/-- The verbs of a row a key may write by the rows it read: those it has itself
on a hook it manages, and those the target had. -/
structure WritableBy (key : ApiKey) (h : Heard Op) (row : Permission) : Prop where
  scope : key.canManageKeys = true
  held : ∃ held, ReadPermission h key.id row.hookId held ∧ held.canManage = true ∧
    ∀ v, row.has v = true → held.has v = true ∨
      ∃ existing, ReadPermission h row.apiKeyId row.hookId existing ∧ existing.has v = true

/-- What these requests write: rows whose verbs they may write, every verb of
them, and deletions of rows. -/
def WritesByRows (key : ApiKey) : Heard Op → ∀ β, Op β → Prop
  | h, _, .db (.upsertPermission row columns) =>
    columns = allVerbs ∧ (key.isMaster = false → WritableBy key h row)
  | _, _, .db (.deletePermissions _) => True
  | _, β, q => WritesAmong [.insertAuditLog] β q

section Knowledge

open Program

variable {α : Type} {h h' : Heard Op} {key : ApiKey} {ctx : Context} {keyId hookId : Uuid}
  {row : Permission}

theorem ReadPermission.mono (hsub : h ⊆ h') :
    ReadPermission h keyId hookId row → ReadPermission h' keyId hookId row
  | ⟨rows, hrows, hhead⟩ => ⟨rows, hrows.mono hsub, hhead⟩

theorem WritableBy.mono (hsub : h ⊆ h') (hrow : WritableBy key h row) : WritableBy key h' row := by
  obtain ⟨hscope, held, hheld, hmanage, hverbs⟩ := hrow
  refine ⟨hscope, held, hheld.mono hsub, hmanage, fun v hv => (hverbs v hv).imp_right ?_⟩
  rintro ⟨existing, hexisting, hhas⟩
  exact ⟨existing, hexisting.mono hsub, hhas⟩

theorem allowsAudit_writesByRows : AllowsAudit (WritesByRows key) := by
  intro h β q hq
  cases q with
  | db s => cases s <;> simp_all [WritesByRows, Stmt.write?]
  | _ => trivial

theorem aside_byRows {p : Handler α} (hp : p.Emits (WritesAmong [.insertAuditLog])) :
    Ensures (WritesByRows key) h p fun _ _ => True :=
  ensures_audited allowsAudit_writesByRows hp

theorem ensures_hookPermission :
    Ensures (WritesByRows key) h (hookPermission keyId hookId) fun h' found =>
      ∀ row, found = some row → ReadPermission h' keyId hookId row :=
  (ensures_sql (allowsAudit_writesByRows.read rfl) fun _ _ hrows => hrows).bind
    fun _ _ _ hrows _ hrow => ⟨_, hrows, hrow⟩

/-- Who passes R2 was read to manage the hook. -/
theorem ensures_guardHookManageConjunction :
    Ensures (WritesByRows key) h (guardHookManageConjunction key hookId) fun h' held =>
      ReadPermission h' key.id hookId held ∧ key.canManageKeys = true ∧ held.canManage = true := by
  refine ensures_hookPermission.bind fun h₁ found _ hfound => ?_
  refine Ensures.bind (M := fun h' row => ReadPermission h' key.id hookId row)
    (ensures_orElse hfound) fun h₂ row _ hrow => ?_
  exact Ensures.bind (M := fun _ _ => key.canManageKeys = true ∧ row.canManage = true)
    (ensures_require id) fun h₃ _ hsub hmay => And.intro (hrow.mono hsub) hmay

/-- Who passes the guard of a write may write its row. -/
theorem ensures_guardPermissionWrite (row : Permission) {id : Uuid} {hook : Hook}
    {existing : Option Permission} {payload : HookPermInput} (hkey : key.isMaster = false)
    (hexisting : ∀ row, existing = some row → ReadPermission h id hook.id row)
    (hasked : ∀ v, row.has v = payload.asks v) (hid : row.apiKeyId = id)
    (hhook : row.hookId = hook.id) :
    Ensures (WritesByRows key) h (guardPermissionWrite key id hook existing payload) fun h' _ =>
      WritableBy key h' row := by
  subst hid
  unfold guardPermissionWrite
  rw [hkey]
  simp only [Bool.false_eq_true, if_false]
  split
  · -- a reduction: the target had every verb it asks for
    rename_i hreduction
    refine ensures_guardHookManageConjunction.bind fun h₁ held hsub hheld => ?_
    obtain ⟨hread, hscope, hmanage⟩ := hheld
    refine ⟨hscope, held, hhook ▸ hread, hmanage, fun v hv => .inr ?_⟩
    rw [hasked] at hv
    obtain ⟨old, hold, hhas⟩ := (Option.any_eq_true _ _).mp
      (isPermissionReduction_asks hreduction hv)
    exact ⟨old, hhook ▸ (hexisting old hold).mono hsub, hhas⟩
  · refine (aside_byRows (emits_require _ _)).bind fun h₁ _ _ _ => ?_
    unfold guardDelegatedHookGrant
    simp only [hkey, Bool.false_eq_true, if_false]
    refine ensures_guardHookManageConjunction.bind fun h₂ held _ hheld => ?_
    obtain ⟨hread, hscope, hmanage⟩ := hheld
    split
    · rename_i hover
      refine ⟨hscope, held, hhook ▸ hread, hmanage, fun v hv => .inl ?_⟩
      rw [hasked] at hv
      exact grantOverreach_asks hover hv
    · trivial

theorem updateKeyHookPermissions_byRows (id : Uuid) (payload : HookPermInput) :
    Ensures (WritesByRows key) h (updateKeyHookPermissions ctx key id payload)
      fun _ _ => True := by
  refine (aside_byRows (hasPermissionAdminStanding_writes _)).bind fun h₁ _ _ _ => ?_
  refine (aside_byRows (emits_require _ _)).bind fun h₂ _ _ _ => ?_
  refine (aside_byRows (findApiKeyById_writes _)).bind fun h₃ _ _ _ => ?_
  refine (aside_byRows (emits_orElse _ _)).bind fun h₄ targetKey _ _ => ?_
  refine (aside_byRows (keyVisibility_writes _ _)).bind fun h₅ _ _ _ => ?_
  refine (aside_byRows (emits_require _ _)).bind fun h₆ _ _ _ => ?_
  refine (aside_byRows (emits_require _ _)).bind fun h₇ _ _ _ => ?_
  refine (aside_byRows (emits_ofExcept _)).bind fun h₈ identifier _ _ => ?_
  refine (aside_byRows (resolveHook_writes _)).bind fun h₉ hook _ _ => ?_
  refine ensures_hookPermission.bind fun h₁₀ existing _ hexisting => ?_
  let row : Permission :=
    { id := ctx.draws.uuid 0
      apiKeyId := id
      hookId := hook.id
      canExecute := payload.canExecute
      canManage := payload.canManage
      canViewExecution := payload.canViewExecution
      createdAt := ctx.draws.now 0 }
  have hguard : Ensures (WritesByRows key) h₁₀ (guardPermissionWrite key id hook existing payload)
      fun h' _ => key.isMaster = false → WritableBy key h' row := by
    by_cases hkey : key.isMaster = false
    · exact (ensures_guardPermissionWrite row hkey hexisting (fun v => by cases v <;> rfl)
        rfl rfl).mono fun _ _ _ hrow _ => hrow
    · exact (aside_byRows (guardPermissionWrite_writes _ _ _ _ _)).mono
        fun _ _ _ _ hno => absurd hno hkey
  refine hguard.bind fun h₁₁ _ _ hrow => ?_
  refine (aside_byRows (emits_ofExcept _)).bind fun h₁₂ _ hsub _ => ?_
  refine (ensures_sql (P := fun _ _ => True) ⟨rfl, fun hkey => (hrow hkey).mono hsub⟩
    fun _ _ _ => trivial).bind fun h₁₃ _ _ _ => ?_
  exact aside_byRows (createAuditLog_writes (by decide) _ _ _ _ _ _)

theorem revokeKeyHookPermission_byRows (id : Uuid) (identifier : String) :
    Ensures (WritesByRows key) h (revokeKeyHookPermission ctx key id identifier)
      fun _ _ => True := by
  refine (aside_byRows (hasPermissionAdminStanding_writes _)).bind fun h₁ _ _ _ => ?_
  refine (aside_byRows (emits_require _ _)).bind fun h₂ _ _ _ => ?_
  refine (aside_byRows (resolveHook_writes _)).bind fun h₃ hook _ _ => ?_
  refine (aside_byRows (guardRevocation_writes _ _)).bind fun h₄ _ _ _ => ?_
  refine (ensures_sql (P := fun _ _ => True) trivial fun _ _ _ => trivial).bind fun h₅ _ _ _ => ?_
  refine (aside_byRows (emits_require _ _)).bind fun h₆ _ _ _ => ?_
  refine (aside_byRows (findApiKeyById_writes _)).bind fun h₇ _ _ _ => ?_
  refine (aside_byRows (emits_orElse _ _)).bind fun h₈ target _ _ => ?_
  exact aside_byRows (createAuditLog_writes (by decide) _ _ _ _ _ _)

theorem ensures_writesGrant {p : Party} (hwrites : p.request.WritesGrant) :
    Ensures (WritesByRows p.key) [] p.program fun _ _ => True := by
  obtain ⟨ctx, key, request⟩ := p
  cases request with
  | updateKeyHookPermissions id payload =>
    exact (updateKeyHookPermissions_byRows id payload).bind fun _ _ _ _ => trivial
  | revokeKeyHookPermission id identifier =>
    exact (revokeKeyHookPermission_byRows id identifier).bind fun _ _ _ _ => trivial
  | _ => exact hwrites.elim

end Knowledge

/-! ### Runs -/

section Race

variable {ι : Type}

/-- The event is a look at the row of a key on a hook. -/
def LooksAtPermission (a : Event Op World ι) (keyId hookId : Uuid) : Prop :=
  ∃ answer, a.exchange Op.exec =
    ⟨_, .db (.selectPermissions (.and (.apiKeyIdEq keyId) (.hookIdEq hookId))), answer⟩

/-- At this event a key is seen to pass R2 on a hook and to hold a verb on it. -/
structure SeenToHold (key : ApiKey) (v : Verb) (hookId : Uuid) (a : Event Op World ι) :
    Prop where
  looks : LooksAtPermission a key.id hookId
  scope : key.canManageKeys = true
  manage : a.before.db.Holds key.id .manage hookId
  verb : a.before.db.Holds key.id v hookId

/-- The caller was seen to hold the verb when its request was checked. -/
def HeldWhenChecked (parties : ι → Party) (e : Event Op World ι) (early : List (Event Op World ι))
    (v : Verb) (hookId : Uuid) : Prop :=
  ∃ a ∈ early, a.who = e.who ∧ SeenToHold (parties e.who).key v hookId a

/-- Whoever gets a verb at this event gets it from the master, or from a caller
that held it when its request was checked. -/
def GivesWhatWasHeld (parties : ι → Party) (e : Event Op World ι)
    (early : List (Event Op World ι)) : Prop :=
  (parties e.who).key.isMaster = false → ∀ T v h, (e.after Op.exec).db.Holds T v h →
    ¬e.before.db.Holds T v h → HeldWhenChecked parties e early v h

/-- The target still has the verbs it was seen to have, those apart that the
caller was seen to hold itself. -/
def MeetsVerbsRead (parties : ι → Party) (e : Event Op World ι)
    (early : List (Event Op World ι)) : Prop :=
  (parties e.who).key.isMaster = false →
    ∀ row columns, e.exchange Op.exec = ⟨_, .db (.upsertPermission row columns), .ok ()⟩ →
    ∀ v, row.has v = true → ¬HeldWhenChecked parties e early v row.hookId →
    ∀ a ∈ early, a.who = e.who → LooksAtPermission a row.apiKeyId row.hookId →
      a.before.db.Holds row.apiKeyId v row.hookId → e.before.db.Holds row.apiKeyId v row.hookId

theorem ReadPermission.event [DecidableEq ι] {i : ι} {log : List (Event Op World ι)}
    {keyId hookId : Uuid} {row : Permission}
    (hread : ReadPermission (heard Op.exec i log) keyId hookId row) :
    ∃ a ∈ log, a.who = i ∧ LooksAtPermission a keyId hookId ∧
      ∀ v, row.has v = true → a.before.db.Holds keyId v hookId := by
  obtain ⟨rows, hrows, hhead⟩ := hread
  obtain ⟨a, ha, hwho, hexchange⟩ := mem_heard.mp hrows
  refine ⟨a, ha, hwho, ⟨_, hexchange⟩, fun v hv => ?_⟩
  have hanswer := (exchange_eq hexchange).1
  cases hanswer
  obtain ⟨hmem, hholds⟩ := List.mem_filter.mp (List.mem_of_mem_head? hhead)
  simp only [PermissionCondition.holds, Bool.and_eq_true, beq_iff_eq] at hholds
  exact ⟨row, hmem, hholds.1, hholds.2, hv⟩

/-- An upsert of every verb leaves the target the verbs of its row. -/
theorem Database.holds_of_upsertPermission {db : Database} {row : Permission} {v : Verb}
    (hok : (db.upsertPermission row allVerbs).1 = .ok ()) (hv : row.has v = true) :
    (db.upsertPermission row allVerbs).2.Holds row.apiKeyId v row.hookId := by
  unfold Database.upsertPermission at hok ⊢
  dsimp only at hok ⊢
  split
  · rename_i hsome
    obtain ⟨p, hp, hsame⟩ := List.any_eq_true.mp hsome
    refine ⟨overwritePermission allVerbs row p, List.mem_map.mpr ⟨p, hp, if_pos hsame⟩, ?_, ?_, ?_⟩
    · simpa [overwritePermission] using (Bool.and_eq_true_iff.mp hsame).1
    · simpa [overwritePermission] using (Bool.and_eq_true_iff.mp hsame).2
    · cases v <;> exact hv
  · rename_i hnone
    rw [if_neg hnone] at hok
    split
    · rename_i hid
      rw [if_pos hid] at hok
      cases hok
    · rename_i hid
      rw [if_neg hid] at hok
      split
      · exact ⟨row, List.mem_append_right _ (List.mem_singleton_self _), rfl, rfl, hv⟩
      · rename_i href
        rw [if_neg href] at hok
        cases hok

theorem Database.upsertPermission_error {db : Database} {row : Permission}
    {columns : List PermissionColumn} (hfailed : (db.upsertPermission row columns).1 ≠ .ok ()) :
    (db.upsertPermission row columns).2 = db := by
  unfold Database.upsertPermission at hfailed ⊢
  dsimp only at hfailed ⊢
  split
  · rename_i hsome
    exact absurd (by rw [if_pos hsome]) hfailed
  · rename_i hnone
    rw [if_neg hnone] at hfailed
    split
    · rfl
    · rename_i hid
      rw [if_neg hid] at hfailed
      split
      · rename_i href
        exact absurd (by rw [if_pos href]) hfailed
      · rfl

/-- Who gets a verb at an event gets it from an upsert that went through. -/
theorem gained_upsert {key : ApiKey} {h : Heard Op} {e : Event Op World ι}
    (hq : WritesByRows key h _ e.query) {T hookId : Uuid} {v : Verb}
    (hafter : (e.after Op.exec).db.Holds T v hookId) (hbefore : ¬e.before.db.Holds T v hookId) :
    ∃ row, e.exchange Op.exec = ⟨_, .db (.upsertPermission row allVerbs), .ok ()⟩ ∧
      T = row.apiKeyId ∧ hookId = row.hookId ∧ row.has v = true ∧
      (key.isMaster = false → WritableBy key h row) := by
  obtain ⟨who, query, before⟩ := e
  have hother : ∀ {β : Type} {q : Op β}, WritesAmong [.insertAuditLog] β q →
      ¬(Op.exec β q before).2.db.Holds T v hookId := fun {β q} hq hgained =>
    hbefore (Handler.run_noVerbGained (p := (.ask q : Handler β)) ⟨hq, fun _ => trivial⟩
      (by decide) before _ _ _ hgained)
  cases query with
  | db s =>
    cases s with
    | upsertPermission row columns =>
      obtain ⟨rfl, hwritable⟩ := hq
      have hgained : (before.db.upsertPermission row allVerbs).2.Holds T v hookId := hafter
      rcases Database.holds_upsertPermission hgained with hold | ⟨hT, hhook, hv⟩
      · exact absurd hold hbefore
      · refine ⟨row, ?_, hT, hhook, hv, hwritable⟩
        by_cases hok : (before.db.upsertPermission row allVerbs).1 = .ok ()
        · unfold Event.exchange
          rw [show Event.answer Op.exec ⟨who, .db (.upsertPermission row allVerbs), before⟩ =
            .ok () from hok]
        · rw [Database.upsertPermission_error hok] at hgained
          exact absurd hgained hbefore
    | deletePermissions c =>
      exact absurd (Stmt.exec_noVerbGained (.deletePermissions c) before.db (by simp [Stmt.write?])
        _ _ _ hafter) hbefore
    | _ => exact absurd hafter (hother hq)
  | _ => exact absurd hafter (hother trivial)

variable [DecidableEq ι] {parties : ι → Party} {w : World}
  {c : Config Op AppError AdminResponse World ι}

/-- An event gives what its caller held if and only if it meets the verbs that
were read. -/
theorem givesWhatWasHeld_iff {e : Event Op World ι} {early : List (Event Op World ι)}
    (hq : WritesByRows (parties e.who).key (heard Op.exec e.who early) _ e.query) :
    GivesWhatWasHeld parties e early ↔ MeetsVerbsRead parties e early := by
  constructor
  · intro hgives hkey row columns hexchange v hv hheld _ _ _ _ _
    by_contra hlost
    refine hheld (hgives hkey _ v _ ?_ hlost)
    obtain ⟨hok, hafter⟩ := exchange_eq hexchange
    have hwritten : ∀ a : (β : Type) × Op β × β,
        a = ⟨_, .db (.upsertPermission row columns), .ok ()⟩ →
        WritesByRows (parties e.who).key (heard Op.exec e.who early) a.1 a.2.1 →
        columns = allVerbs := by
      rintro _ rfl hq
      exact hq.1
    obtain rfl := hwritten _ hexchange hq
    rw [hafter]
    exact Database.holds_of_upsertPermission hok hv
  · intro hmeets hkey T v h hafter hbefore
    obtain ⟨row, hexchange, rfl, rfl, hv, hwritable⟩ := gained_upsert hq hafter hbefore
    obtain ⟨hscope, held, hheld, hmanage, hverbs⟩ := hwritable hkey
    obtain ⟨a, ha, hwho, hlooks, hholds⟩ := hheld.event
    by_contra hunheld
    rcases hverbs v hv with hown | ⟨existing, hexisting, hhas⟩
    · exact hunheld ⟨a, ha, hwho, hlooks, hscope, hholds .manage hmanage, hholds v hown⟩
    · obtain ⟨b, hb, hwho', hlooks', hholds'⟩ := hexisting.event
      exact hbefore (hmeets hkey row allVerbs hexchange v hv hunheld b hb hwho' hlooks'
        (hholds' v hhas))

/-- A write of a caller that is not the master only ever gives what that caller
held when it was checked, if and only if every such write meets the verbs it
went by. -/
theorem grants_survive (hrun : InFlight parties w c)
    (hwrites : ∀ i, (parties i).request.WritesGrant) :
    (∀ later e early, c.log = later ++ e :: early → GivesWhatWasHeld parties e early) ↔
      ∀ later e early, c.log = later ++ e :: early → MeetsVerbsRead parties e early := by
  have hall : ∀ later e early, c.log = later ++ e :: early →
      (GivesWhatWasHeld parties e early ↔ MeetsVerbsRead parties e early) :=
    fun later e early hlog => givesWhatWasHeld_iff
      ((Interleaved.ensures hrun fun i => ensures_writesGrant (hwrites i)).2 later e early hlog)
  exact ⟨fun h later e early hlog => (hall later e early hlog).mp (h later e early hlog),
    fun h later e early hlog => (hall later e early hlog).mpr (h later e early hlog)⟩

end Race

section Sample

open Sample

/-- The hook once the daughter may see its executions, which the parent that
manages it may not. -/
def overseen : World :=
  ((handleAdmin (ctx 5) Sample.masterRow (.updateKeyHookPermissions 201
    { hookName := some "deploy", canExecute := false, canManage := false,
      canViewExecution := true })).run Op.exec entrusted).2

theorem reachable_overseen : Reachable Sample.state overseen :=
  reachable_master reachable_entrusted 5 (daughterPath ++ "/permissions") _ rfl rfl rfl

/-- The parent writes the row of its daughter as it is, and the master deletes
that row. -/
def granters : Bool → Party
  | false => ⟨ctx 6, parentRow, .updateKeyHookPermissions 201
      { hookName := some "deploy", canExecute := false, canManage := false,
        canViewExecution := true }⟩
  | true => ⟨ctx 7, Sample.masterRow, .revokeKeyHookPermission 201 "deploy"⟩

theorem granters_write (i : Bool) : (granters i).request.WritesGrant := by
  cases i <;> trivial

/-- One after the other. -/
def revokedAfter : Config Op AppError AdminResponse World Bool :=
  (Config.advance Op.exec false 30 ⟨fun i => (granters i).program, overseen, []⟩).advance
    Op.exec true 30

theorem grants_survive_in_turn :
    (∀ later e early, revokedAfter.log = later ++ e :: early → GivesWhatWasHeld granters e early) ↔
      ∀ later e early, revokedAfter.log = later ++ e :: early → MeetsVerbsRead granters e early :=
  grants_survive ((Interleaved.initial.scheduled false 30).scheduled true 30) granters_write

/-- The row is deleted between the parent's look at it and its write. -/
def revokedBetween : Config Op AppError AdminResponse World Bool :=
  (Config.advance Op.exec false 7 ⟨fun i => (granters i).program, overseen, []⟩).advance
    Op.exec true 30

/-- The daughter is given back a verb that the parent never held. -/
theorem revoked_verb_restored : ¬∀ {state : AppState} {parties : Bool → Party} {w : World}
    {c : Config Op AppError AdminResponse World Bool}, Reachable state w → InFlight parties w c →
    (∀ i, (parties i).request.WritesGrant) →
    ∀ later e early, c.log = later ++ e :: early → GivesWhatWasHeld parties e early := by
  intro hclaim
  have hrun : InFlight granters overseen revokedBetween :=
    (Interleaved.initial.scheduled false 7).scheduled true 30
  obtain ⟨e, hwho, hbefore, hafter, hturn⟩ := hrun.turn (i := false) (by decide)
  have hgives := hclaim reachable_overseen hturn granters_write [] e _ rfl
  have hgained : (e.after Op.exec).db.Holds 201 .view 301 := by
    rw [hafter]
    decide
  have hlacked : ¬e.before.db.Holds 201 .view 301 := by
    rw [hbefore]
    decide
  have hkey : (granters e.who).key = parentRow := by
    rw [hwho]
    rfl
  obtain ⟨a, ha, -, hseen⟩ := hgives (by rw [hkey]; rfl) 201 .view 301 hgained hlacked
  rw [hkey] at hseen
  have hnever : ∀ a ∈ revokedBetween.log, ¬a.before.db.Holds 101 .view 301 := by decide
  exact hnever a ha hseen.verb

end Sample

end HookExecutor
