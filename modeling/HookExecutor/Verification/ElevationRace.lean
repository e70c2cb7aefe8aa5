import HookExecutor.Verification.Parties
import HookExecutor.Verification.HookTakeover

/-!
# Editing a hook while the master elevates it

An edit looks its hook up, checks on that copy that it does not run as another
account, and writes later to whatever is there under the identifier. So a
request that is not the master's writes only to hooks it has seen unelevated;
what it cannot rule out is that the master elevates the hook in between.
-/

namespace HookExecutor

/-- The requests that edit a hook or its parameters. -/
def AdminRequest.EditsHook : AdminRequest → Prop
  | .updateHook _ _ | .createHookParameter _ _ | .updateHookParameter _ _ _
  | .deleteHookParameter _ _ => True
  | _ => False

/-! ### What an edit knows of the hook it writes to -/

/-- The hook of this identifier was seen running as the daemon. -/
def SeenUnelevated (h : Heard Op) (hookId : Uuid) : Prop :=
  ∃ model, HeardHook h model ∧ model.id = hookId ∧ ¬model.Privileged

/-- The parameter of this identifier was seen on such a hook. -/
def SeenOnUnelevated (h : Heard Op) (paramId : Uuid) : Prop :=
  ∃ p : HookParameter, Answered h (.findHookParameter paramId) (some p) ∧ SeenUnelevated h p.hookId

/-- The update elevates nothing. -/
def HookUpdate.Plain (u : HookUpdate) : Prop :=
  ∀ runAsUser, u.runAsUser = some runAsUser → Executor.effectiveRunAsUser runAsUser = none

/-- What a request that is not the master's may write. -/
def WritesUnelevated : Heard Op → ∀ β, Op β → Prop
  | h, _, .db (.updateHook id u) => SeenUnelevated h id ∧ u.Plain
  | h, _, .db (.insertHookParameter row) => SeenUnelevated h row.hookId
  | h, _, .db (.updateHookParameter id _) => SeenOnUnelevated h id
  | h, _, .db (.deleteHookParameter id) => SeenOnUnelevated h id
  | _, β, q => WritesAmong [.insertAuditLog] β q

section Knowledge

open Program

variable {α : Type} {h h' : Heard Op} {hookId : Uuid} {key : ApiKey} {ctx : Context}

theorem SeenUnelevated.mono (hsub : h ⊆ h') :
    SeenUnelevated h hookId → SeenUnelevated h' hookId
  | ⟨model, hmodel, hrest⟩ => ⟨model, hmodel.mono hsub, hrest⟩

theorem allowsAudit_writesUnelevated : AllowsAudit WritesUnelevated := by
  intro h β q hq
  cases q with
  | db s => cases s <;> simp_all [WritesUnelevated, Stmt.write?]
  | _ => trivial

theorem aside_unelevated {p : Handler α} (hp : p.Emits (WritesAmong [.insertAuditLog])) :
    Ensures WritesUnelevated h p fun _ _ => True :=
  ensures_audited allowsAudit_writesUnelevated hp

/-- Past the guard, the hook that was resolved was seen unelevated. -/
theorem ensures_unelevated {model : Hook} {action : String} (hordinary : key.isMaster = false)
    (hmodel : HeardHook h model) :
    Ensures WritesUnelevated h (ofExcept (guardMasterForPrivilegedHook key model action))
      fun h' _ => SeenUnelevated h' model.id :=
  ensures_ofExcept fun _ hguard =>
    ⟨model, hmodel, rfl, guardMasterForPrivilegedHook_ok hordinary hguard⟩

theorem normalizeRequestedRunAsUser_plain {requested : Option String}
    {runAsUser : Option (Option String)} {stored : Option String} (hordinary : key.isMaster = false)
    (h : normalizeRequestedRunAsUser key requested = .ok runAsUser)
    (hset : runAsUser = some stored) :
    Executor.effectiveRunAsUser stored = none := by
  subst hset
  cases requested with
  | none => cases h
  | some raw =>
    simp only [normalizeRequestedRunAsUser, normalizeRunAsUser, hordinary] at h
    cases hraw : Executor.effectiveRunAsUser (some raw) with
    | none =>
      rw [hraw] at h
      cases h
      rfl
    | some user =>
      rw [hraw] at h
      cases h

theorem ensures_guardUpdateHook {model : Hook} {payload : UpdateHookPayload}
    (hordinary : key.isMaster = false) (hmodel : HeardHook h model) :
    Ensures WritesUnelevated h (guardUpdateHook key model payload) fun h' runAsUser =>
      SeenUnelevated h' model.id ∧
        ∀ stored, runAsUser = some stored → Executor.effectiveRunAsUser stored = none := by
  refine (aside_unelevated (guardManage_writes _ _)).bind fun h₁ _ hsub₁ _ => ?_
  refine Ensures.bind (aside_unelevated ?_) fun h₂ _ hsub₂ _ => ?_
  · cases touchesDispatch payload with
    | true => exact guardDispatchConfiguration_writes _ _
    | false => trivial
  refine (ensures_unelevated hordinary ((hmodel.mono hsub₁).mono hsub₂)).bind
    fun h₃ _ _ hseen => ?_
  refine Ensures.bind (M := fun h' runAsUser => SeenUnelevated h' model.id ∧
    ∀ stored, runAsUser = some stored → Executor.effectiveRunAsUser stored = none)
    (ensures_ofExcept fun _ hnormal => ⟨hseen, fun _ hset =>
      normalizeRequestedRunAsUser_plain hordinary hnormal hset⟩) fun h₄ runAsUser _ hknown => ?_
  refine Ensures.bind (aside_unelevated ?_) fun h₅ _ hsub₅ _ => ?_
  · cases payload.name.isSome with
    | true => exact emits_ofExcept _
    | false => trivial
  refine (aside_unelevated (requestedOwner_writes _ _)).bind fun h₆ _ hsub₆ _ => ?_
  exact ⟨(hknown.1.mono hsub₅).mono hsub₆, hknown.2⟩

theorem ensures_writeHookUpdate {id : Uuid} {u : HookUpdate} (hseen : SeenUnelevated h id)
    (hplain : u.Plain) : Ensures WritesUnelevated h (writeHookUpdate id u) fun _ _ => True := by
  refine Ensures.bind (M := fun _ _ => True) (p := trySql _) ⟨⟨hseen, hplain⟩, fun _ => trivial⟩
    fun h' updated _ _ => ?_
  cases updated with
  | ok hook => trivial
  | error err => cases err <;> trivial

theorem ensures_updateHook (identifier : String) (payload : UpdateHookPayload)
    (hordinary : key.isMaster = false) :
    Ensures WritesUnelevated h (updateHook ctx key identifier payload) fun _ _ => True := by
  refine (ensures_resolveHook allowsAudit_writesUnelevated _).bind fun h₁ model _ hmodel => ?_
  refine (ensures_guardUpdateHook hordinary hmodel.1).bind fun h₂ runAsUser _ hknown => ?_
  refine (aside_unelevated (emits_ofExcept _)).bind fun h₃ _ hsub₃ _ => ?_
  refine (aside_unelevated (emits_ofExcept _)).bind fun h₄ _ hsub₄ _ => ?_
  refine (aside_unelevated (loadParameters_writes _)).bind fun h₅ _ hsub₅ _ => ?_
  refine (aside_unelevated (emits_ofExcept _)).bind fun h₆ _ hsub₆ _ => ?_
  have hseen := (((hknown.1.mono hsub₃).mono hsub₄).mono hsub₅).mono hsub₆
  refine (ensures_writeHookUpdate hseen fun stored hset => hknown.2 stored hset).bind
    fun _ _ _ _ => ?_
  exact (aside_unelevated (createAuditLog_writes (by decide) _ _ _ _ _ _)).bind fun _ _ _ _ =>
    aside_unelevated (buildHookDetail_writes _ _)

theorem ensures_createHookParameter (identifier : String) (payload : ParameterInput)
    (hordinary : key.isMaster = false) :
    Ensures WritesUnelevated h (createHookParameter ctx key identifier payload)
      fun _ _ => True := by
  refine (ensures_resolveHook allowsAudit_writesUnelevated _).bind fun h₁ model _ hmodel => ?_
  refine (aside_unelevated (guardManage_writes _ _)).bind fun h₂ _ hsub₂ _ => ?_
  refine (ensures_unelevated hordinary (hmodel.1.mono hsub₂)).bind fun h₃ _ _ hseen => ?_
  refine (aside_unelevated (emits_require _ _)).bind fun h₄ _ hsub₄ _ => ?_
  refine Ensures.bind (M := fun _ _ => True) ?_ fun _ _ _ _ => ?_
  · refine Ensures.bind (M := fun _ _ => True) (p := trySql _)
      ⟨hseen.mono hsub₄, fun _ => trivial⟩ fun _ inserted _ _ => ?_
    cases inserted with
    | ok _ => trivial
    | error err => cases err <;> trivial
  refine (aside_unelevated (createAuditLog_writes (by decide) _ _ _ _ _ _)).bind fun _ _ _ _ => ?_
  exact (aside_unelevated (emits_read rfl)).bind fun _ _ _ _ =>
    aside_unelevated (emits_orElse _ _)

theorem SeenOnUnelevated.mono {paramId : Uuid} (hsub : h ⊆ h') :
    SeenOnUnelevated h paramId → SeenOnUnelevated h' paramId
  | ⟨p, hp, hseen⟩ => ⟨p, hp.mono hsub, hseen.mono hsub⟩

/-- A parameter that was found was read on this hook. -/
theorem ensures_findParameterOf {model : Hook} {paramId : Uuid}
    (hseen : SeenUnelevated h model.id) :
    Ensures WritesUnelevated h (findParameterOf model paramId)
      fun h' _ => SeenOnUnelevated h' paramId := by
  refine Ensures.bind (M := fun h' found => Answered h' (.findHookParameter paramId) found)
    (ensures_sql (allowsAudit_writesUnelevated.read rfl) fun _ _ hfound => hfound)
    fun h₁ found hsub hfound => ensures_orElse fun p hp => ?_
  obtain ⟨rfl, hhook⟩ := Option.filter_eq_some_iff.mp hp
  refine ⟨p, hfound, ?_⟩
  rw [show p.hookId = model.id by simpa using hhook]
  exact hseen.mono hsub

theorem ensures_updateHookParameter (identifier : String) (paramId : Uuid)
    (payload : UpdateParameterPayload) (hordinary : key.isMaster = false) :
    Ensures WritesUnelevated h (updateHookParameter ctx key identifier paramId payload)
      fun _ _ => True := by
  refine (ensures_resolveHook allowsAudit_writesUnelevated _).bind fun h₁ model _ hmodel => ?_
  refine (aside_unelevated (guardManage_writes _ _)).bind fun h₂ _ hsub₂ _ => ?_
  refine (ensures_unelevated hordinary (hmodel.1.mono hsub₂)).bind fun h₃ _ _ hseen => ?_
  refine (ensures_findParameterOf hseen).bind fun h₄ _ _ hparam => ?_
  refine (ensures_sql (P := fun _ _ => True) hparam fun _ _ _ => trivial).bind fun _ _ _ _ => ?_
  exact (aside_unelevated (createAuditLog_writes (by decide) _ _ _ _ _ _)).bind fun _ _ _ _ =>
    trivial

theorem ensures_deleteHookParameter (identifier : String) (paramId : Uuid)
    (hordinary : key.isMaster = false) :
    Ensures WritesUnelevated h (deleteHookParameter ctx key identifier paramId)
      fun _ _ => True := by
  refine (ensures_resolveHook allowsAudit_writesUnelevated _).bind fun h₁ model _ hmodel => ?_
  refine (aside_unelevated (guardManage_writes _ _)).bind fun h₂ _ hsub₂ _ => ?_
  refine (ensures_unelevated hordinary (hmodel.1.mono hsub₂)).bind fun h₃ _ _ hseen => ?_
  refine (ensures_findParameterOf hseen).bind fun h₄ _ _ hparam => ?_
  refine (ensures_sql (P := fun _ _ => True) hparam fun _ _ _ => trivial).bind fun _ _ _ _ => ?_
  exact aside_unelevated (createAuditLog_writes (by decide) _ _ _ _ _ _)

/-- An edit that is not the master's writes to hooks it has seen unelevated. -/
theorem ensures_party {p : Party} (hedits : p.request.EditsHook)
    (hordinary : p.key.isMaster = false) :
    Ensures WritesUnelevated [] p.program fun _ _ => True := by
  obtain ⟨ctx, key, request⟩ := p
  cases request with
  | updateHook identifier payload =>
    exact (ensures_updateHook identifier payload hordinary).bind fun _ _ _ _ => trivial
  | createHookParameter identifier payload =>
    exact (ensures_createHookParameter identifier payload hordinary).bind fun _ _ _ _ => trivial
  | updateHookParameter identifier paramId payload =>
    exact (ensures_updateHookParameter identifier paramId payload hordinary).bind fun _ _ _ _ =>
      trivial
  | deleteHookParameter identifier paramId =>
    exact (ensures_deleteHookParameter identifier paramId hordinary).bind fun _ _ _ _ => trivial
  | _ => exact hedits.elim

end Knowledge

/-! ### What such a write does -/

/-- No hook of this identifier runs as another account. -/
def Database.Unelevated (db : Database) (hookId : Uuid) : Prop :=
  ∀ hook ∈ db.hooks, hook.id = hookId → ¬hook.Privileged

/-- The hooks a statement writes to: to their row, or to a parameter of theirs. -/
def Stmt.hooksWritten (db : Database) : {β : Type} → Stmt β → List Uuid
  | _, updateHook id _ => [id]
  | _, updateHooks c _ | _, deleteHooks c => (db.hooks.filter c.holds).map (·.id)
  | _, insertHookParameter row => [row.hookId]
  | _, updateHookParameter id _ | _, deleteHookParameter id =>
    (db.hookParameters.filter (·.id == id)).map (·.hookId)
  | _, _ => []

def Op.hooksWritten (db : Database) : {β : Type} → Op β → List Uuid
  | _, .db s => s.hooksWritten db
  | _, _ => []

section Writes

variable {β : Type} {h : Heard Op} {q : Op β} {w : World} {hookId : Uuid} {hook : Hook}

theorem Database.Unelevated.updateHook {db : Database} {id : Uuid} {u : HookUpdate}
    (hplain : u.Plain) (hbefore : db.Unelevated hookId) :
    (db.updateHook id u).2.Unelevated hookId := by
  intro hook hmem hid
  rcases db.updateHook_hooks id u with hsame | hedited
  · exact hbefore hook (hsame ▸ hmem) hid
  · rw [hedited] at hmem
    obtain ⟨old, hold, rfl⟩ := List.mem_map.mp hmem
    unfold HookUpdate.at_ at hid ⊢
    split at hid
    · rename_i heq
      rw [if_pos heq]
      cases hset : u.runAsUser with
      | none =>
        have hkept : (u.apply old).runAsUser = old.runAsUser := by simp [HookUpdate.apply, hset]
        unfold Hook.Privileged
        rw [hkept]
        exact hbefore old hold hid
      | some stored =>
        have hnew : (u.apply old).runAsUser = stored := by simp [HookUpdate.apply, hset]
        unfold Hook.Privileged
        rw [hnew, hplain stored hset]
        simp
    · rename_i hne
      rw [if_neg hne]
      exact hbefore old hold hid

/-- It elevates nothing. -/
theorem WritesUnelevated.unelevated (hok : WritesUnelevated h β q)
    (hbefore : w.db.Unelevated hookId) : (Op.exec _ q w).2.db.Unelevated hookId := by
  rw [Op.exec_db]
  cases q with
  | db s =>
    have hother : (∀ k ∈ s.write?, Table.hooks ∉ k.tables) →
        (s.exec w.db).2.Unelevated hookId := by
      intro hs hook hmem
      rw [show (s.exec w.db).2.hooks = w.db.hooks from s.exec_agree w.db hs] at hmem
      exact hbefore hook hmem
    cases s with
    | updateHook id u => exact hbefore.updateHook hok.2
    | updateHooks c u => simp [WritesUnelevated, Stmt.write?] at hok
    | deleteHooks c => simp [WritesUnelevated, Stmt.write?] at hok
    | insertHook row => simp [WritesUnelevated, Stmt.write?] at hok
    | _ => exact hother (by simp [Stmt.write?, Write.tables])
  | _ => exact hbefore

/-- If every hook it writes to runs as the daemon, it moves parameters of those
hooks only. -/
theorem WritesUnelevated.parameterStep {key : ApiKey} (hok : WritesUnelevated h β q)
    (hquiet : ∀ id ∈ q.hooksWritten w.db, w.db.Unelevated id) :
    ParameterStep key w.db (Op.exec _ q w).2.db.hookParameters := by
  have hmay : ∀ {id : Uuid}, w.db.Unelevated id → w.db.MayTouch key id :=
    fun hid hook hmem heq => .inr (hid hook hmem heq)
  rw [Op.exec_db]
  cases q with
  | db s =>
    have hother : (∀ k ∈ s.write?, Table.hookParameters ∉ k.tables) →
        ParameterStep key w.db (s.exec w.db).2.hookParameters := fun hs => by
      rw [show (s.exec w.db).2.hookParameters = w.db.hookParameters from s.exec_agree w.db hs]
      exact .kept
    have hwritten : ∀ {id : Uuid} {p : HookParameter}, p ∈ w.db.hookParameters → p.id = id →
        p.hookId ∈ (w.db.hookParameters.filter (·.id == id)).map (·.hookId) :=
      fun hp hid => List.mem_map_of_mem (List.mem_filter.mpr ⟨hp, by simpa using hid⟩)
    cases s with
    | insertHookParameter row =>
      change ParameterStep key w.db (w.db.insertHookParameter row).2.hookParameters
      unfold Database.insertHookParameter
      split
      · exact .kept
      · split
        · exact .declared [row] (hmay (hquiet row.hookId (List.mem_singleton_self _))) (by simp)
        · exact .kept
    | updateHookParameter id u =>
      change ParameterStep key w.db (w.db.updateHookParameter id u).2.hookParameters
      unfold Database.updateHookParameter
      cases hfound : w.db.hookParameters.find? (·.id == id) with
      | none => exact .kept
      | some p =>
        have hmem := List.mem_of_find?_eq_some hfound
        obtain rfl : p.id = id := by simpa using List.find?_some hfound
        exact .edited u hmem (hmay (hquiet p.hookId (hwritten hmem rfl)))
    | deleteHookParameter id =>
      change ParameterStep key w.db (w.db.hookParameters.filter (·.id != id))
      by_cases hexists : ∃ p ∈ w.db.hookParameters, p.id = id
      · obtain ⟨p, hmem, rfl⟩ := hexists
        exact .removed hmem (hmay (hquiet p.hookId (hwritten hmem rfl)))
      · have hall : w.db.hookParameters.filter (·.id != id) = w.db.hookParameters :=
          List.filter_eq_self.mpr fun p hp => by simpa using fun hid => hexists ⟨p, hp, hid⟩
        rw [hall]
        exact .kept
    | deleteHooks c => simp [WritesUnelevated, Stmt.write?] at hok
    | _ => exact hother (by simp [Stmt.write?, Write.tables])
  | _ => exact .kept

/-- And it leaves every other hook in its row. -/
theorem WritesUnelevated.hook_mem (hok : WritesUnelevated h β q)
    (hquiet : ∀ id ∈ q.hooksWritten w.db, w.db.Unelevated id) (hmem : hook ∈ w.db.hooks)
    (hprivileged : hook.Privileged) : hook ∈ (Op.exec _ q w).2.db.hooks := by
  rw [Op.exec_db]
  cases q with
  | db s =>
    have hother : (∀ k ∈ s.write?, Table.hooks ∉ k.tables) → hook ∈ (s.exec w.db).2.hooks :=
      fun hs => by
        rw [show (s.exec w.db).2.hooks = w.db.hooks from s.exec_agree w.db hs]
        exact hmem
    cases s with
    | updateHook id u =>
      have hne : ¬hook.id = id := fun hid =>
        hquiet id (List.mem_singleton_self _) hook hmem hid hprivileged
      change hook ∈ (w.db.updateHook id u).2.hooks
      rcases w.db.updateHook_hooks id u with hsame | hedited
      · rwa [hsame]
      · rw [hedited]
        exact List.mem_map.mpr ⟨hook, hmem, if_neg (by simpa using hne)⟩
    | updateHooks c u => simp [WritesUnelevated, Stmt.write?] at hok
    | deleteHooks c => simp [WritesUnelevated, Stmt.write?] at hok
    | insertHook row => simp [WritesUnelevated, Stmt.write?] at hok
    | _ => exact hother (by simp [Stmt.write?, Write.tables])
  | _ => exact hmem

end Writes

/-! ### Runs -/

section Race

variable {ι : Type} [DecidableEq ι]

/-- The event is a write to the hook or to a parameter of it. -/
def WritesTo (e : Event Op World ι) (hookId : Uuid) : Prop :=
  hookId ∈ e.query.hooksWritten e.before.db

/-- The event elevates the hook. -/
def Elevates (e : Event Op World ι) (hookId : Uuid) : Prop :=
  e.before.db.Unelevated hookId ∧ ¬(e.after Op.exec).db.Unelevated hookId

/-- The event asks for this row to be inserted. -/
def InsertsParameter (e : Event Op World ι) (row : HookParameter) : Prop :=
  ∃ answer, e.exchange Op.exec = ⟨_, .db (.insertHookParameter row), answer⟩

/-- Nobody elevates a hook between a request's look at it and a write of that
request to it, the master's own aside. -/
def ElevatesApart (parties : ι → Party) (log : List (Event Op World ι)) : Prop :=
  ∀ later e mid a before, log = later ++ e :: (mid ++ a :: before) →
    (parties e.who).key.isMaster = false → a.who = e.who →
    ∀ model, HeardHook [a.exchange Op.exec] model → WritesTo e model.id →
    ∀ b ∈ mid, ¬Elevates b model.id

/-- The identifier drawn for a parameter is none there ever was. -/
def FreshParameterIds (log : List (Event Op World ι)) : Prop :=
  ∀ later b early, log = later ++ b :: early → ∀ row, InsertsParameter b row →
    ∀ a ∈ early, ∀ p ∈ a.before.db.hookParameters, p.id ≠ row.id

/-- An identifier of a parameter stays with its hook, but for inserts. -/
theorem parameterHook_break {db : Database} {β : Type} {s : Stmt β} {paramId hookId : Uuid}
    (hbefore : ∀ p ∈ db.hookParameters, p.id = paramId → p.hookId = hookId)
    (hafter : ¬∀ p ∈ (s.exec db).2.hookParameters, p.id = paramId → p.hookId = hookId) :
    ∃ row, (⟨β, s⟩ : (β : Type) × Stmt β) = ⟨_, .insertHookParameter row⟩ ∧ row.id = paramId := by
  have hother : (∀ k ∈ s.write?, Table.hookParameters ∉ k.tables) → False := fun hs => by
    rw [show (s.exec db).2.hookParameters = db.hookParameters from s.exec_agree db hs] at hafter
    exact hafter hbefore
  have hsub : ∀ {rows : List HookParameter}, rows ⊆ db.hookParameters →
      ∀ p ∈ rows, p.id = paramId → p.hookId = hookId := fun hrows p hp => hbefore p (hrows hp)
  cases s with
  | insertHookParameter row =>
    refine ⟨row, rfl, ?_⟩
    by_contra hne
    apply hafter
    change ∀ p ∈ (db.insertHookParameter row).2.hookParameters, _
    unfold Database.insertHookParameter
    split
    · exact hbefore
    · split
      · intro p hp hid
        rcases List.mem_append.mp hp with hold | hnew
        · exact hbefore p hold hid
        · obtain rfl := List.mem_singleton.mp hnew
          exact absurd hid hne
      · exact hbefore
  | updateHookParameter id u =>
    refine absurd ?_ hafter
    change ∀ p ∈ (db.updateHookParameter id u).2.hookParameters, _
    unfold Database.updateHookParameter
    split
    · exact hbefore
    · intro p hp hid
      obtain ⟨old, hold, rfl⟩ := List.mem_map.mp hp
      split at hid
      · rename_i heq
        rw [if_pos heq]
        exact hbefore old hold hid
      · rename_i hne
        rw [if_neg hne]
        exact hbefore old hold hid
  | deleteHookParameter id => exact absurd (hsub (List.filter_subset_self _)) hafter
  | deleteHooks c => exact absurd (hsub (List.filter_subset_self _)) hafter
  | _ => exact (hother (by simp [Stmt.write?, Write.tables])).elim

variable {parties : ι → Party} {w : World} {c : Config Op AppError AdminResponse World ι}
  {later early : List (Event Op World ι)} {e : Event Op World ι} {state : AppState}

/-- What a request that is not the master's issued was right by what it had
heard. -/
theorem InFlight.writesUnelevated (hrun : InFlight parties w c)
    (hedits : ∀ i, (parties i).request.EditsHook) (hlog : c.log = later ++ e :: early)
    (hordinary : (parties e.who).key.isMaster = false) :
    WritesUnelevated (heard Op.exec e.who early) _ e.query := by
  have hall := (Interleaved.ensures (A := fun i h β q =>
    (parties i).key.isMaster = false → WritesUnelevated h β q) (P := fun _ _ _ => True) hrun
    fun i => ?_).2
  · exact hall later e early hlog hordinary
  · cases hmaster : (parties i).key.isMaster with
    | true => exact (Program.emits_any _).ensures fun _ _ _ _ h => by cases h
    | false => exact (ensures_party (hedits i) hmaster).weaken fun _ _ _ h _ => h

/-- A hook a request has seen unelevated still is, unless it was elevated since. -/
theorem InFlight.unelevated_since (hw : Reachable state w) (hrun : InFlight parties w c)
    (hlog : c.log = later ++ e :: early) {hookId : Uuid}
    (hseen : SeenUnelevated (heard Op.exec e.who early) hookId) :
    e.before.db.Unelevated hookId ∨ ∃ mid a before model, early = mid ++ a :: before ∧
      a.who = e.who ∧ HeardHook [a.exchange Op.exec] model ∧ model.id = hookId ∧
      ∃ b ∈ mid, Elevates b hookId := by
  obtain ⟨model, hmodel, rfl, hplain⟩ := hseen
  obtain ⟨a, ha, hwho, hshown, hmem, hsame⟩ := hmodel.event
  obtain ⟨mid, before, rfl, hsince⟩ := (hlog ▸ hrun.chained.2).since ha
  have hwf := (hrun.wellFormed hw.sound.wellFormed).2 a (by simp [hlog])
  have hstart : (a.after Op.exec).db.Unelevated model.id := by
    rw [hsame]
    intro hook hhook hid
    rwa [hwf.hook_eq_of_id hhook hmem hid]
  rcases hsince (fun w => w.db.Unelevated model.id) hstart with hnow | ⟨b, hb, hbroken⟩
  · exact .inl hnow
  · exact .inr ⟨mid, a, before, model, rfl, hwho, hshown, rfl, b, hb, hbroken⟩

/-- A parameter a request has found is still the same hook's. -/
theorem InFlight.parameterHook_since (hw : Reachable state w) (hrun : InFlight parties w c)
    (hfresh : FreshParameterIds c.log) (hlog : c.log = later ++ e :: early) {paramId : Uuid}
    {p : HookParameter}
    (hfound : Answered (heard Op.exec e.who early) (.findHookParameter paramId) (some p)) :
    ∀ q ∈ e.before.db.hookParameters, q.id = paramId → q.hookId = p.hookId := by
  obtain ⟨a, ha, -, -, hanswer, hsame⟩ := hfound.event
  have hfind := Except.ok.inj hanswer
  have hmem := List.mem_of_find?_eq_some hfind
  obtain rfl : p.id = paramId := by simpa using List.find?_some hfind
  have hdistinct := (hrun.database (J := Database.DistinctParameters) hw.distinctParameters
    Stmt.exec_distinctParameters).2 a (by simp [hlog, ha])
  obtain ⟨mid, before, rfl, hsince⟩ := (hlog ▸ hrun.chained.2).since ha
  have hstart : ∀ q ∈ (a.after Op.exec).db.hookParameters, q.id = p.id → q.hookId = p.hookId := by
    rw [hsame]
    intro q hq hid
    rw [List.inj_on_of_nodup_map hdistinct hq hmem hid]
  refine (hsince (fun w => ∀ q ∈ w.db.hookParameters, q.id = p.id → q.hookId = p.hookId)
    hstart).resolve_right ?_
  rintro ⟨b, hb, hkept, hbroken⟩
  obtain ⟨mid₁, mid₂, rfl⟩ := List.append_of_mem hb
  have hinsert : ∃ row, InsertsParameter b row ∧ row.id = p.id := by
    obtain ⟨who, query, world⟩ := b
    simp only [Event.after, Op.exec_db] at hbroken
    cases query with
    | db s =>
      obtain ⟨row, heq, hid⟩ := parameterHook_break hkept hbroken
      cases heq
      exact ⟨row, ⟨_, rfl⟩, hid⟩
    | _ => exact absurd hkept hbroken
  obtain ⟨row, hrow, hid⟩ := hinsert
  exact hfresh (later ++ e :: mid₁) b (mid₂ ++ a :: before) (by simp [hlog]) row hrow a (by simp)
    p hmem hid.symm

/-- If elevations keep apart, a request that is not the master's writes to hooks
that run as the daemon. -/
theorem InFlight.unelevated_of_writesTo (hw : Reachable state w) (hrun : InFlight parties w c)
    (hedits : ∀ i, (parties i).request.EditsHook) (hfresh : FreshParameterIds c.log)
    (hapart : ElevatesApart parties c.log) (hlog : c.log = later ++ e :: early)
    (hordinary : (parties e.who).key.isMaster = false) {hookId : Uuid}
    (hwrites : WritesTo e hookId) : e.before.db.Unelevated hookId := by
  have hok := hrun.writesUnelevated hedits hlog hordinary
  have hseen : ∀ {id : Uuid}, SeenUnelevated (heard Op.exec e.who early) id → WritesTo e id →
      e.before.db.Unelevated id := by
    intro id hid hto
    refine (hrun.unelevated_since hw hlog hid).resolve_right ?_
    rintro ⟨mid, a, before, model, rfl, hwho, hshown, rfl, b, hb, helevates⟩
    exact hapart later e mid a before hlog hordinary hwho model hshown hto b hb helevates
  have hon : ∀ {id : Uuid}, SeenOnUnelevated (heard Op.exec e.who early) id →
      hookId ∈ (e.before.db.hookParameters.filter (·.id == id)).map (·.hookId) →
      SeenUnelevated (heard Op.exec e.who early) hookId := by
    rintro id ⟨p, hp, hunelevated⟩ hmem
    obtain ⟨q, hq, rfl⟩ := List.mem_map.mp hmem
    obtain ⟨hqmem, hqid⟩ := List.mem_filter.mp hq
    rwa [hrun.parameterHook_since hw hfresh hlog hp q hqmem (by simpa using hqid)]
  refine hseen ?_ hwrites
  obtain ⟨who, query, world⟩ := e
  cases query with
  | db s =>
    cases s with
    | updateHook id u =>
      obtain rfl : hookId = id := List.mem_singleton.mp hwrites
      exact hok.1
    | insertHookParameter row =>
      obtain rfl : hookId = row.hookId := List.mem_singleton.mp hwrites
      exact hok
    | updateHookParameter id u => exact hon hok hwrites
    | deleteHookParameter id => exact hon hok hwrites
    | updateHooks c u => simp [WritesUnelevated, Stmt.write?] at hok
    | deleteHooks c => simp [WritesUnelevated, Stmt.write?] at hok
    | _ => cases hwrites
  | _ => cases hwrites

/-- Where elevations keep apart from other requests' edits, nobody but the master
changes a hook that runs as another account, and what was written to it by
anybody else was there before the master elevated it. -/
theorem elevation_not_raced (hw : Reachable state w) (hrun : InFlight parties w c)
    (hedits : ∀ i, (parties i).request.EditsHook) (hfresh : FreshParameterIds c.log)
    (hapart : ElevatesApart parties c.log) :
    (∀ e ∈ c.log, (parties e.who).key.isMaster = false →
      ∀ hook ∈ e.before.db.hooks, hook.Privileged → hook ∈ (e.after Op.exec).db.hooks ∧
        (e.after Op.exec).db.parametersOf hook.id = e.before.db.parametersOf hook.id) ∧
    ∀ hook ∈ c.state.db.hooks, hook.Privileged →
      ∀ later e early, c.log = later ++ e :: early → (parties e.who).key.isMaster = false →
        WritesTo e hook.id →
        ∃ b ∈ later, (parties b.who).key.isMaster = true ∧ Elevates b hook.id := by
  constructor
  · intro e he hordinary hook hmem hprivileged
    obtain ⟨later, early, hlog⟩ := List.append_of_mem he
    have hok := hrun.writesUnelevated hedits hlog hordinary
    have hquiet : ∀ id ∈ e.query.hooksWritten e.before.db, e.before.db.Unelevated id :=
      fun _ hto => hrun.unelevated_of_writesTo hw hedits hfresh hapart hlog hordinary hto
    have hdistinct := (hrun.database (J := Database.DistinctParameters) hw.distinctParameters
      Stmt.exec_distinctParameters).2 e he
    exact ⟨hok.hook_mem hquiet hmem hprivileged,
      (hok.parameterStep hquiet).parametersOf_eq hdistinct hordinary hmem hprivileged⟩
  · intro hook hmem hprivileged later e early hlog hordinary hto
    have hbefore := hrun.unelevated_of_writesTo hw hedits hfresh hapart hlog hordinary hto
    obtain ⟨hstate, hchained⟩ := hrun.chained
    rw [hlog] at hstate hchained
    have hlost : ¬(stateAfter Op.exec w (later ++ e :: early)).db.Unelevated hook.id := by
      rw [← hstate]
      exact fun h => h hook hmem rfl hprivileged
    -- the write itself elevates nothing, and neither does any other of theirs
    have hstart : (stateAfter Op.exec w (e :: early)).db.Unelevated hook.id :=
      (hrun.writesUnelevated hedits hlog hordinary).unelevated hbefore
    obtain ⟨b, hb, helevates⟩ := hchained.exists_break (φ := fun w => w.db.Unelevated hook.id)
      hstart hlost
    refine ⟨b, hb, ?_, helevates⟩
    by_contra hmaster
    obtain ⟨later₁, later₂, rfl⟩ := List.append_of_mem hb
    have hlog' : c.log = later₁ ++ b :: (later₂ ++ e :: early) := by simp [hlog]
    have hok := hrun.writesUnelevated hedits hlog' (by simpa using hmaster)
    exact helevates.2 (hok.unelevated helevates.1)

end Race

section Sample

open Sample

/-- The maker declares a parameter on its hook while the master lets the hook run
as another user. -/
def declaringParty : Party :=
  ⟨ctx 3, maker, .createHookParameter "deploy" { paramKey := "target", defaultValue := some "all" }⟩

def elevatingParty : Party :=
  ⟨ctx 4, Sample.masterRow, .updateHook "deploy" { runAsUser := some "backup" }⟩

def racers : Bool → Party
  | false => declaringParty
  | true => elevatingParty

theorem editsHook_racers (i : Bool) : (racers i).request.EditsHook := by
  cases i <;> trivial

/-- The maker alone, its two statements apart from anybody's. -/
theorem elevation_not_raced_alone : ∃ c : Config Op AppError AdminResponse World Bool,
    InFlight racers withOwned c ∧ c.log.length = 2 ∧
      (∀ e ∈ c.log, (racers e.who).key.isMaster = false →
        ∀ hook ∈ e.before.db.hooks, hook.Privileged → hook ∈ (e.after Op.exec).db.hooks ∧
          (e.after Op.exec).db.parametersOf hook.id = e.before.db.parametersOf hook.id) ∧
      ∀ hook ∈ c.state.db.hooks, hook.Privileged →
        ∀ later e early, c.log = later ++ e :: early → (racers e.who).key.isMaster = false →
          WritesTo e hook.id →
          ∃ b ∈ later, (racers b.who).key.isMaster = true ∧ Elevates b hook.id := by
  obtain ⟨e₁, e₂, c, hrun, hlog, -, -, hbefore, -⟩ := Interleaved.opening (I := Op.exec)
    (g := fun i => (racers i).program) (s := withOwned) (i := false) (by decide)
    (by decide)
  refine ⟨c, hrun, by rw [hlog]; rfl,
    elevation_not_raced reachable_withOwned hrun editsHook_racers ?_ ?_⟩
  · intro later b early hsplit row _ a ha p hp
    have hone : a = e₁ := by
      rw [hlog] at hsplit
      cases later with
      | nil =>
        obtain ⟨-, rfl⟩ := List.cons.inj hsplit
        exact List.mem_singleton.mp ha
      | cons x later =>
        cases later with
        | nil =>
          obtain ⟨-, rfl⟩ := List.cons.inj (List.cons.inj hsplit).2
          cases ha
        | cons y later => simp at hsplit
    rw [hone, hbefore] at hp
    cases hp
  · intro later e mid a before hsplit _ _ _ _ _ b hb
    have hlen := congrArg List.length (hlog.symm.trans hsplit)
    simp only [List.length_append, List.length_cons, List.length_nil] at hlen
    have hmid : mid = [] := List.length_eq_zero_iff.mp (by omega)
    simp [hmid] at hb

/-- The maker's parameter lands on the hook the master has elevated meanwhile. -/
theorem elevation_is_raced :
    ¬∀ (parties : Bool → Party) (w : World) (c : Config Op AppError AdminResponse World Bool),
      Reachable state w → (∀ i, (parties i).request.EditsHook) → InFlight parties w c →
      ∀ e ∈ c.log, (parties e.who).key.isMaster = false →
        ∀ hook ∈ e.before.db.hooks, hook.Privileged → hook ∈ (e.after Op.exec).db.hooks ∧
          (e.after Op.exec).db.parametersOf hook.id = e.before.db.parametersOf hook.id := by
  intro hclaim
  obtain ⟨e, c, hrun, he, hwho, hbefore, hafter, -⟩ := Interleaved.overtaken (I := Op.exec)
    (g := fun i => (racers i).program) (s := withOwned) (show false ≠ true by decide) 1 20
    (by decide)
  have hhook : { makerHook with runAsUser := some "backup", updatedAt := (ctx 4).draws.now 0 } ∈
      e.before.db.hooks := by
    rw [hbefore]
    decide
  obtain ⟨-, hsame⟩ := hclaim racers withOwned c reachable_withOwned editsHook_racers hrun e he
    (by rw [hwho]; rfl) _ hhook (by unfold Hook.Privileged; decide)
  rw [hafter, hbefore] at hsame
  exact absurd hsame (by decide)

end Sample

end HookExecutor
