import HookExecutor.Verification.HookEffects
import HookExecutor.Verification.Parties
import HookExecutor.Verification.Runs
import HookExecutor.Verification.Sample

/-!
# Hook secrets under concurrent edits

A hook whose callers sign with its secret has one. An edit checks that on the row
it read, and writes the secret column whether or not it was asked to: left out,
the secret it read is written back. So an edit can undo what another wrote in
between, and the check can be made on a row that is not there any more.
-/

namespace HookExecutor

/-- Where the secret is what callers sign with, there is one. -/
def Hook.Secured (hook : Hook) : Prop := hook.authMode = .hmacOnly → hook.hmacSecret ≠ none

def Database.HooksSecured (db : Database) : Prop := ∀ hook ∈ db.hooks, hook.Secured

/-! ### One request at a time -/

/-- An update that leaves mode and secret alone. -/
def HookUpdate.LeavesSecret (u : HookUpdate) : Prop := u.authMode = none ∧ u.hmacSecret = none

theorem HookUpdate.LeavesSecret.apply {u : HookUpdate} (h : u.LeavesSecret) (hook : Hook) :
    (u.apply hook).authMode = hook.authMode ∧ (u.apply hook).hmacSecret = hook.hmacSecret := by
  simp [HookUpdate.apply, h.1, h.2]

theorem HookUpdate.LeavesSecret.secured {u : HookUpdate} (h : u.LeavesSecret) {hook : Hook}
    (hsecured : hook.Secured) : (u.apply hook).Secured := by
  unfold Hook.Secured
  rw [(h.apply hook).1, (h.apply hook).2]
  exact hsecured

namespace Database.HooksSecured

variable {db db' : Database}

theorem congr (h : db.HooksSecured) (hhooks : db'.hooks = db.hooks) : db'.HooksSecured := by
  unfold Database.HooksSecured
  rw [hhooks]
  exact h

theorem map (h : db.HooksSecured) {f : Hook → Hook} (hhooks : db'.hooks = db.hooks.map f)
    (hf : ∀ hook ∈ db.hooks, hook.Secured → (f hook).Secured) : db'.HooksSecured := by
  unfold Database.HooksSecured
  rw [hhooks]
  intro hook hmem
  obtain ⟨old, hold, rfl⟩ := List.mem_map.mp hmem
  exact hf old hold (h old hold)

theorem filter (h : db.HooksSecured) {keep : Hook → Bool}
    (hhooks : db'.hooks = db.hooks.filter keep) : db'.HooksSecured := by
  unfold Database.HooksSecured
  rw [hhooks]
  exact fun hook hmem => h hook (List.mem_of_mem_filter hmem)

theorem updateHook (h : db.HooksSecured) {id : Uuid} {u : HookUpdate}
    (hrow : ∀ hook ∈ db.hooks, hook.id = id → hook.Secured → (u.apply hook).Secured) :
    (db.updateHook id u).2.HooksSecured := by
  rcases db.updateHook_hooks id u with hsame | hedited
  · exact h.congr hsame
  · refine h.map hedited fun hook hmem hsecured => ?_
    unfold HookUpdate.at_
    split
    · rename_i hid
      exact hrow hook hmem (by simpa using hid) hsecured
    · exact hsecured

theorem updateHooks (h : db.HooksSecured) {c : HookCondition} {u : HookUpdate}
    (hu : u.LeavesSecret) : (db.updateHooks c u).2.HooksSecured := by
  unfold Database.updateHooks
  dsimp only
  split
  · refine h.map rfl fun hook _ hsecured => ?_
    split
    · exact hu.secured hsecured
    · exact hsecured
  · exact h

end Database.HooksSecured

section Handlers

variable {ctx : Context} {key : ApiKey} {w : World}

theorem hooksSecured_rest {W : List Write} {α : Type} {p : Handler α} {t : World}
    (h : t.db.HooksSecured) (hp : p.Emits (WritesAmong W)) (hW : ∀ k ∈ W, Table.hooks ∉ k.tables) :
    (p.run Op.exec t).2.db.HooksSecured :=
  h.congr (Handler.run_hooks_eq hp hW t)

/-- What the validation lets through is secured in the mode it was checked for. -/
theorem validateAndSealHmacSecret_secured {draw : Nat} {mode : AuthMode}
    {named stored secret : Option String}
    (h : validateAndSealHmacSecret ctx draw mode named stored = .ok secret)
    (hmode : mode = .hmacOnly) : secret ≠ none := by
  subst hmode
  unfold validateAndSealHmacSecret at h
  split at h
  · cases h
  · rename_i raw _
    cases hseal : sealSecret ctx draw raw with
    | error e =>
      rw [hseal] at h
      cases h
    | ok sealedSecret =>
      rw [hseal] at h
      cases h
      exact nofun
  · cases stored with
    | none => cases h
    | some text =>
      cases h
      exact nofun

theorem validateAndSealHmacSecret_cleared {draw : Nat} {mode : AuthMode}
    {stored secret : Option String}
    (h : validateAndSealHmacSecret ctx draw mode (some "") stored = .ok secret) :
    secret = none := by
  simp only [validateAndSealHmacSecret] at h
  split at h
  · cases h
  · exact (Except.ok.inj h).symm

theorem validateAndSealHmacSecret_sealed {draw : Nat} {mode : AuthMode} {raw : String}
    {stored secret : Option String} (hraw : raw ≠ "")
    (h : validateAndSealHmacSecret ctx draw mode (some raw) stored = .ok secret) :
    secret ≠ none := by
  simp only [validateAndSealHmacSecret] at h
  cases hseal : sealSecret ctx draw raw with
  | error e =>
    rw [hseal] at h
    cases h
  | ok sealedSecret =>
    rw [hseal] at h
    cases h
    exact Option.some_ne_none _

theorem newHook_secured {payload : CreateHookPayload} {checked : CheckedHook}
    (h : validateCreateHook ctx key payload = .ok checked) :
    (newHook ctx key payload checked).Secured := by
  simp only [validateCreateHook, Except.bind_eq_ok_iff] at h
  obtain ⟨_, -, _, -, _, -, _, -, _, -, _, -, secret, hsecret, _, -, _, -, h⟩ := h
  cases h
  exact validateAndSealHmacSecret_secured hsecret

theorem createHook_hooksSecured (h : w.db.HooksSecured) (ctx : Context)
    (payload : CreateHookPayload) :
    ((createHook ctx key payload).run Op.exec w).2.db.HooksSecured := by
  refine Program.run_bind_read (K := fun t : World => t.db.HooksSecured) (by simp) h
    fun checked hchecked => ?_
  have hrow := newHook_secured (by simpa using hchecked)
  rcases insertNewHook_run (newHook ctx key payload checked) w with ⟨-, hrun⟩ | ⟨-, _, hrun⟩
  · rw [Program.bind_eq, Program.run_bind_ok hrun]
    refine hooksSecured_rest (W := [.insertHookParameter, .upsertPermission, .insertAuditLog]) ?_
      ?_ (by decide)
    · intro hook hmem
      rcases List.mem_append.mp hmem with hmem | hmem
      · exact h hook hmem
      · rw [List.mem_singleton.mp hmem]
        exact hrow
    · exact (insertDeclared_writes (by decide) _ _ _ _).bind fun _ =>
        .bind (emits_write rfl (by decide)) fun _ =>
        .bind (createAuditLog_writes (by decide) _ _ _ _ _ _) fun _ =>
        .bind (findHookById_writes _) fun _ => .bind (emits_orElse _ _) fun _ =>
        buildHookDetail_writes _ _
  · rw [Program.bind_eq, Program.run_bind_error hrun]
    exact h

theorem updateHook_hooksSecured (h : w.db.HooksSecured) (hwf : w.db.WellFormed) (ctx : Context)
    (identifier : String) (payload : UpdateHookPayload) :
    ((updateHook ctx key identifier payload).run Op.exec w).2.db.HooksSecured := by
  let K : World → Prop := fun t => t.db.HooksSecured
  refine Program.run_bind_read (K := K) (by simp) h fun model hmodel => ?_
  obtain ⟨hmem, -⟩ := Database.resolveLive_mem (run_resolveHook_ok.mp hmodel).2
  refine Program.run_bind_read (K := K) (guardUpdateHook_snd _ _ _ _) h fun runAsUser _ => ?_
  refine Program.run_bind_read (K := K) (by simp) h fun _ _ => ?_
  refine Program.run_bind_read (K := K) (by simp) h fun hmacSecret hvalid => ?_
  refine Program.run_bind_read (K := K) (run_sql_snd _ _) h fun declared _ => ?_
  refine Program.run_bind_read (K := K) (by simp) h fun _ _ => ?_
  refine Handler.bind_keep (K := Database.HooksSecured) ?_ fun _ _ hstep =>
    hooksSecured_rest hstep ((createAuditLog_writes (W := [.insertAuditLog]) (by decide) _ _ _ _ _
      _).bind fun _ => buildHookDetail_writes _ _) (by decide)
  rcases writeHookUpdate_hooks model.id (hookChanges payload runAsUser hmacSecret (ctx.draws.now 0))
    w with hsame | hedited
  · exact h.congr hsame
  · refine h.map hedited fun hook hhook hsecured => ?_
    unfold HookUpdate.at_
    split
    · rename_i hid
      obtain rfl := hwf.hook_eq_of_id hhook hmem (by simpa using hid)
      have hvalid : validateAndSealHmacSecret ctx 0 (payload.authMode.getD hook.authMode)
          payload.hmacSecret hook.hmacSecret = .ok hmacSecret := by simpa using hvalid
      exact validateAndSealHmacSecret_secured hvalid
    · exact hsecured

theorem deleteHook_hooksSecured (h : w.db.HooksSecured) (ctx : Context) (identifier : String)
    (query : DeleteHookQuery) :
    ((deleteHook ctx key identifier query).run Op.exec w).2.db.HooksSecured := by
  let K : World → Prop := fun t => t.db.HooksSecured
  have hresolve : ((if query.hard.getD false then resolveHookIncludingDeleted identifier
      else resolveHook identifier).run Op.exec w).2 = w := by
    split <;> simp
  have hrest : ∀ {n : Nat} {action : String} {draw : Nat} {resource details : Option String},
      (Program.bind (.require (n ≠ 0) .notFound) fun _ =>
        createAuditLog ctx key draw action resource details : Handler Unit).Emits
          (WritesAmong [.insertAuditLog]) :=
    .bind (Program.emits_require _ _) fun _ => createAuditLog_writes (by decide) _ _ _ _ _ _
  refine Program.run_bind_read (K := K) hresolve h fun model _ => ?_
  refine Program.run_bind_read (K := K) (guardManage_snd _ _ _) h fun _ _ => ?_
  refine Program.run_bind_read (K := K) (by simp) h fun _ _ => ?_
  refine Program.run_bind_read (K := K) (by simp) h fun _ _ => ?_
  cases hhard : query.hard.getD false with
  | true =>
    refine Program.run_bind_read (K := K) (by simp) h fun _ _ => ?_
    refine Handler.bind_keep (K := Database.HooksSecured) ?_ fun _ _ hstep =>
      hooksSecured_rest hstep hrest (by decide)
    rw [run_sql_snd]
    exact h.filter rfl
  | false =>
    refine Handler.bind_keep (K := Database.HooksSecured) ?_ fun _ _ hstep =>
      hooksSecured_rest hstep hrest (by decide)
    rw [run_sql_snd]
    exact h.updateHooks ⟨rfl, rfl⟩

theorem restoreHook_hooksSecured (h : w.db.HooksSecured) (ctx : Context) (identifier : String) :
    ((restoreHook ctx key identifier).run Op.exec w).2.db.HooksSecured := by
  let K : World → Prop := fun t => t.db.HooksSecured
  refine Program.run_bind_read (K := K) (by simp) h fun _ _ => ?_
  refine Program.run_bind_read (K := K) (by simp) h fun model _ => ?_
  refine Program.run_bind_read (K := K) (by simp) h fun _ _ => ?_
  refine Handler.bind_keep (K := Database.HooksSecured) ?_ fun _ _ hstep =>
    hooksSecured_rest hstep ((createAuditLog_writes (W := [.insertAuditLog]) (by decide) _ _ _ _ _
      _).bind fun _ => (findHookById_writes _).bind fun _ => .bind (emits_orElse _ _) fun _ =>
      buildHookDetail_writes _ _) (by decide)
  rw [run_sql_snd]
  exact h.updateHook fun hook _ _ hsecured => HookUpdate.LeavesSecret.secured ⟨rfl, rfl⟩ hsecured

theorem purgeExpiredDeletedHooks_hooksSecured (h : w.db.HooksSecured) (now : DateTime)
    (days : Int) :
    ((purgeExpiredDeletedHooks now days).run Op.exec w).2.db.HooksSecured := by
  unfold purgeExpiredDeletedHooks
  split
  · exact h
  · refine Program.run_bind_read (K := fun t : World => t.db.HooksSecured) (by simp) h
      fun threshold _ => ?_
    rw [run_sql_snd]
    exact h.filter rfl

theorem settled_secured {now : DateTime} {resolutions : List (Uuid × EntityResolution)}
    {hook : Hook} (h : hook.Secured) : (settled key now resolutions hook).Secured := by
  unfold settled
  split
  · rename_i entry _
    exact HookUpdate.LeavesSecret.secured (by cases entry.2 <;> exact ⟨rfl, rfl⟩) h
  · exact h

/-- Whatever a request is and however it ends. -/
theorem handleAdmin_hooksSecured (h : w.db.HooksSecured) (hwf : w.db.WellFormed) (ctx : Context)
    (request : AdminRequest) :
    ((handleAdmin ctx key request).run Op.exec w).2.db.HooksSecured := by
  have hmap : ∀ {α β : Type} {p : Handler α} (f : α → β), (p.run Op.exec w).2.db.HooksSecured →
      ((f <$> p).run Op.exec w).2.db.HooksSecured := fun f hp =>
    Handler.map_keep (K := Database.HooksSecured) f hp
  cases request with
  | createHook payload => exact hmap _ (createHook_hooksSecured h ctx payload)
  | updateHook identifier payload =>
    exact hmap _ (updateHook_hooksSecured h hwf ctx identifier payload)
  | deleteHook identifier query => exact hmap _ (deleteHook_hooksSecured h ctx identifier query)
  | restoreHook identifier => exact hmap _ (restoreHook_hooksSecured h ctx identifier)
  | purgeDeletedHooks query =>
    refine hmap _ (Program.run_bind_read (K := fun t : World => t.db.HooksSecured) (by simp) h
      fun _ _ => ?_)
    refine Program.run_bind_read (K := fun t : World => t.db.HooksSecured) (by simp) h
      fun days _ => ?_
    exact Handler.bind_keep (K := Database.HooksSecured)
      (purgeExpiredDeletedHooks_hooksSecured h _ _) fun _ _ hstep =>
        hooksSecured_rest hstep ((createAuditLog_writes (W := [.insertAuditLog]) (by decide) _ _ _
          _ _ _).bind fun _ => trivial) (by decide)
  | deleteApiKey id payload =>
    refine hmap _ ?_
    rcases deleteApiKey_outcome ctx key id payload hwf with ⟨target, -, hhooks, -⟩ | ⟨-, hsame⟩
    · exact h.map hhooks fun hook _ => settled_secured
    · rw [hsame]
      exact h
  | _ =>
    exact hooksSecured_rest h (handleAdmin_writes ctx key _) (by simp [AdminRequest.writes,
      Write.tables])

end Handlers

/-- Between any two requests. -/
theorem Reachable.hooksSecured {state : AppState} {w : World} (h : Reachable state w) :
    w.db.HooksSecured := by
  have hboot : ∀ {state : AppState} {start : Startup} {db : Database} {w : World},
      db.HooksSecured → (boot state start).run Op.exec (startProcess state start db) = (.ok (), w) →
      w.db.HooksSecured := by
    intro state start db w hdb hstarted
    have hkept := hooksSecured_rest (t := startProcess state start db) hdb
      (boot_writes state start) (by decide)
    rwa [hstarted] at hkept
  induction h with
  | start start started => exact hboot (by simp [Database.HooksSecured, Database.empty]) started
  | restart _ start started ih => exact hboot ih started
  | @serve state w before ctx clock req _ ih =>
    rcases serve_agree_or_admin ctx clock req w with
      ⟨-, hkept⟩ | ⟨key, request, w₁, hauth, hdb, hserved⟩
    · exact ih.congr (hkept .hooks (by decide))
    · rw [hserved]
      rw [← hdb] at ih
      exact handleAdmin_hooksSecured ih (hdb ▸ before.sound.wellFormed) ctx request
  | sweepExecutions _ now ih =>
    exact hooksSecured_rest (W := [.deleteExecutions]) ih
      (purgeExpiredExecutions_writes _ _ (by decide)) (by decide)
  | sweepDeletedHooks _ now ih => exact purgeExpiredDeletedHooks_hooksSecured ih now _

/-! ### Edits in flight -/

/-- An update fails and changes nothing, or edits the row it found. -/
theorem Database.updateHook_cases (db : Database) (id : Uuid) (u : HookUpdate) :
    (∃ err, db.updateHook id u = (.error err, db)) ∨
      ∃ met, db.hookWithId id = some met ∧ (db.updateHook id u).1 = .ok (u.apply met) ∧
        HookEdited db (db.updateHook id u).2 id u := by
  unfold Database.updateHook
  cases hfound : db.hooks.find? (·.id == id) with
  | none => exact .inl ⟨_, rfl⟩
  | some met =>
    dsimp only
    split
    · exact .inl ⟨_, rfl⟩
    · exact .inr ⟨met, hfound, rfl, rfl, rfl, rfl⟩

/-- The hook a lookup was answered with. -/
def foundHook : ((β : Type) × Op β × β) → Option Hook
  | ⟨_, .db (.selectHooks _ _), .ok rows⟩ => rows.head?
  | _ => none

/-- The hook a request last found. -/
def hookRead (h : Heard Op) : Option Hook := h.findSome? foundHook

/-- An edit writes the columns it was checked for on the hook it read. -/
def EditsAsRead (ctx : Context) (payload : UpdateHookPayload) : Heard Op → ∀ β, Op β → Prop
  | h, _, .db (.updateHook id u) => ∃ model runAsUser hmacSecret, hookRead h = some model ∧
      model.id = id ∧ validateAndSealHmacSecret ctx 0 (payload.authMode.getD model.authMode)
        payload.hmacSecret model.hmacSecret = .ok hmacSecret ∧
      u = hookChanges payload runAsUser hmacSecret (ctx.draws.now 0)
  | _, β, q => WritesAmong [.insertAuditLog] β q

/-- A query that neither reads hooks nor writes anything. -/
def HooksUnread : ∀ β, Op β → Prop
  | _, .db (.selectHooks _ _) => False
  | _, .db s => s.write? = none
  | _, _ => True

section Knowledge

open Program

variable {α : Type} {h : Heard Op} {key : ApiKey} {ctx : Context} {payload : UpdateHookPayload}

theorem allowsAudit_editsAsRead : AllowsAudit (EditsAsRead ctx payload) := by
  intro h β q hq
  cases q with
  | db s => cases s <;> simp_all [EditsAsRead, Stmt.write?]
  | _ => trivial

theorem hookRead_cons_of_unread {β : Type} {q : Op β} (hq : HooksUnread β q) (b : β) :
    hookRead (⟨β, q, b⟩ :: h) = hookRead h := by
  have hnone : foundHook ⟨β, q, b⟩ = none := by
    cases q with
    | db s => cases s <;> first | exact hq.elim | rfl
    | _ => rfl
  unfold hookRead
  rw [List.findSome?_cons, hnone]

theorem hookRead_cons_of_found {c : HookCondition} {o : HookOrder} {rows : List Hook} {model : Hook}
    (hhead : rows.head? = some model) :
    hookRead (⟨_, .db (.selectHooks c o), .ok rows⟩ :: h) = some model := by
  unfold hookRead
  rw [List.findSome?_cons, show foundHook _ = rows.head? from rfl, hhead]

theorem ensures_unread {p : Handler α} (hp : p.Emits HooksUnread) {model : Hook}
    (hmodel : hookRead h = some model) :
    Ensures (EditsAsRead ctx payload) h p fun h' _ => hookRead h' = some model := by
  refine hp.ensures_keeps (fun h' β q hq => allowsAudit_editsAsRead h' β q ?_)
    (fun h' β q b hq hm => (hookRead_cons_of_unread hq b).trans hm) hmodel
  cases q with
  | db s => cases s <;> simp_all [HooksUnread, Stmt.write?]
  | _ => trivial

/-- What a lookup finds is the hook last found. -/
theorem ensures_lookup (c : HookCondition) (o : HookOrder) :
    Ensures (EditsAsRead ctx payload) h (List.head? <$> sql (.selectHooks c o)) fun h' found =>
      ∀ model, found = some model → hookRead h' = some model := by
  refine .map ⟨allowsAudit_editsAsRead.read rfl, fun answer => ?_⟩
  cases answer with
  | ok rows => exact fun model => hookRead_cons_of_found
  | error err => trivial

theorem ensures_hookRead (identifier : String) :
    Ensures (EditsAsRead ctx payload) h (resolveHook identifier) fun h' model =>
      hookRead h' = some model := by
  refine Ensures.bind (M := fun h' model => hookRead h' = some model) ?_ fun _ model _ hmodel =>
    (ensures_require (P := fun h' _ => hookRead h' = some model) fun _ => hmodel).bind
      fun _ _ _ hread => hread
  refine Ensures.bind
    (M := fun h' found => ∀ model, found = some model → hookRead h' = some model) ?_
    fun h' byId _ hfound => ?_
  · cases Uuid.parseStr identifier with
    | none => exact fun _ hnone => by cases hnone
    | some id => exact ensures_lookup _ _
  · cases byId with
    | some model => exact hfound model rfl
    | none => exact (ensures_lookup _ _).bind fun _ _ _ hbyName => ensures_orElse hbyName

theorem hookPermission_unread (keyId hookId : Uuid) :
    (hookPermission keyId hookId).Emits HooksUnread := .map _ ((emits_sql _).mpr rfl)

theorem guardHookManageConjunction_unread (key : ApiKey) (hookId : Uuid) :
    (guardHookManageConjunction key hookId).Emits HooksUnread :=
  (hookPermission_unread _ _).bind fun _ => .bind (emits_orElse _ _) fun _ =>
    .bind (Program.emits_require _ _) fun _ => trivial

theorem guardUpdateHook_unread (key : ApiKey) (model : Hook) (payload : UpdateHookPayload) :
    (guardUpdateHook key model payload).Emits HooksUnread := by
  have hconjunction : (do
      let _ ← guardHookManageConjunction key model.id
      return () : Handler Unit).Emits HooksUnread :=
    (guardHookManageConjunction_unread key model.id).bind fun _ => trivial
  refine .bind ?_ fun _ => .bind ?_ fun _ => .bind (Program.emits_ofExcept _) fun _ =>
    .bind (Program.emits_ofExcept _) fun _ => .bind ?_ fun _ => .bind ?_ fun _ => trivial
  · unfold guardManage
    split
    · trivial
    · exact hconjunction
  · split
    · unfold guardDispatchConfiguration
      split
      · trivial
      · exact hconjunction
    · trivial
  · split
    · exact Program.emits_ofExcept _
    · trivial
  · unfold requestedOwner
    split
    · trivial
    · exact .bind (Program.emits_require _ _) fun _ =>
        .bind (.map _ ((emits_sql _).mpr rfl)) fun _ => Program.emits_require _ _

/-- An edit writes what it was checked for. -/
theorem updateHook_editsAsRead (identifier : String) :
    Ensures (EditsAsRead ctx payload) h (updateHook ctx key identifier payload)
      fun _ _ => True := by
  refine (ensures_hookRead identifier).bind fun h₁ model _ hmodel => ?_
  refine (ensures_unread (guardUpdateHook_unread key model payload) hmodel).bind
    fun h₂ runAsUser _ hmodel => ?_
  refine Ensures.bind (M := fun h' _ => hookRead h' = some model)
    (ensures_ofExcept fun _ _ => hmodel) fun h₃ _ _ hmodel => ?_
  refine Ensures.bind (M := fun h' hmacSecret => hookRead h' = some model ∧
      validateAndSealHmacSecret ctx 0 (payload.authMode.getD model.authMode)
        payload.hmacSecret model.hmacSecret = .ok hmacSecret)
    (ensures_ofExcept fun _ hvalid => ⟨hmodel, hvalid⟩) fun h₄ hmacSecret _ hread => ?_
  obtain ⟨hmodel, hvalid⟩ := hread
  refine (ensures_unread (p := loadParameters model.id) ((emits_sql _).mpr rfl) hmodel).bind
    fun h₅ declared _ hmodel => ?_
  refine Ensures.bind (M := fun h' _ => hookRead h' = some model)
    (ensures_ofExcept fun _ _ => hmodel) fun h₆ _ _ hmodel => ?_
  refine Ensures.bind (M := fun _ _ => True) ?_ fun _ _ _ _ => ?_
  · refine Ensures.bind (M := fun _ _ => True)
      ⟨⟨model, runAsUser, hmacSecret, hmodel, rfl, hvalid, rfl⟩, fun _ => trivial⟩
      fun _ written _ _ => ?_
    cases written with
    | ok hook => trivial
    | error err => cases err <;> trivial
  · exact ensures_audited allowsAudit_editsAsRead
      ((createAuditLog_writes (by decide) _ _ _ _ _ _).bind fun _ => buildHookDetail_writes _ _)

end Knowledge

/-! ### What the hook is left with -/

def AdminRequest.namesSecret : AdminRequest → Bool
  | .updateHook _ payload => payload.hmacSecret.isSome
  | _ => false

def Database.storedSecret (db : Database) (id : Uuid) : Option String :=
  (db.hookWithId id).bind (·.hmacSecret)

/-- The secret an update that went through left on a hook. -/
def secretWritten (id : Uuid) : ((β : Type) × Op β × β) → Option (Option String)
  | ⟨_, .db (.updateHook hookId u), .ok _⟩ => if hookId = id then u.hmacSecret else none
  | _ => none

section Secrets

variable {ι : Type}

/-- The same, if the request named a secret. -/
def secretNamed (parties : ι → Party) (id : Uuid) (e : Event Op World ι) :
    Option (Option String) :=
  if (parties e.who).request.namesSecret then secretWritten id (e.exchange Op.exec) else none

/-- What the last request that named a secret wrote, if there was one. -/
def lastNamed (parties : ι → Party) (id : Uuid) (initial : Option String)
    (log : List (Event Op World ι)) : Option String :=
  (log.findSome? (secretNamed parties id)).getD initial

/-- After these events the hook has the secret that was last named, and has one if
its callers sign with it. -/
structure SecretKept (parties : ι → Party) (id : Uuid) (w : World)
    (log : List (Event Op World ι)) : Prop where
  last : (stateAfter Op.exec w log).db.storedSecret id =
    lastNamed parties id (w.db.storedSecret id) log
  secured : ∀ hook, (stateAfter Op.exec w log).db.hookWithId id = some hook → hook.Secured

/-- The row an edit meets is, as far as the edit goes by it, the one it read: it
has the same secret if the edit leaves the secret as it is, and its callers do
not sign with a secret that the edit clears without naming a mode. -/
structure UpdateHookPayload.MeetsRead (payload : UpdateHookPayload) (read met : Hook) : Prop where
  secret : payload.hmacSecret = none → met.hmacSecret = read.hmacSecret
  mode : payload.hmacSecret = some "" → payload.authMode = none → met.authMode ≠ .hmacOnly

/-- What the edit checked holds of the row it meets if that row is, as far as it
matters, the one it checked. -/
theorem meetsRead_iff {ctx : Context} {payload : UpdateHookPayload} {read met : Hook}
    {hmacSecret : Option String}
    (hvalid : validateAndSealHmacSecret ctx 0 (payload.authMode.getD read.authMode)
      payload.hmacSecret read.hmacSecret = .ok hmacSecret) (hsecured : met.Secured) :
    payload.MeetsRead read met ↔
      (payload.hmacSecret = none → met.hmacSecret = hmacSecret) ∧
        (payload.authMode.getD met.authMode = .hmacOnly → hmacSecret ≠ none) := by
  have hchecked := validateAndSealHmacSecret_secured hvalid
  cases hnamed : payload.hmacSecret with
  | none =>
    rw [hnamed] at hvalid
    obtain rfl := validateAndSealHmacSecret_none hvalid
    constructor
    · intro hmeets
      have hsame := hmeets.secret hnamed
      refine ⟨fun _ => hsame, fun hmode => ?_⟩
      cases hauth : payload.authMode with
      | none =>
        rw [hauth] at hmode
        rw [← hsame]
        exact hsecured hmode
      | some mode =>
        rw [hauth] at hmode hchecked
        exact hchecked hmode
    · rintro ⟨hsame, -⟩
      refine ⟨fun _ => hsame rfl, fun hcleared => ?_⟩
      rw [hnamed] at hcleared
      cases hcleared
  | some raw =>
    rw [hnamed] at hvalid
    refine ⟨fun hmeets => ⟨nofun, fun hmode => ?_⟩, fun h => ⟨fun hnone => ?_, fun hcleared hauth
      hmode => ?_⟩⟩
    · cases hauth : payload.authMode with
      | some mode =>
        rw [hauth] at hmode hchecked
        exact hchecked hmode
      | none =>
        rw [hauth] at hmode
        by_cases hraw : raw = ""
        · exact absurd hmode (hmeets.mode (hraw ▸ hnamed) hauth)
        · exact validateAndSealHmacSecret_sealed hraw hvalid
    · rw [hnamed] at hnone
      cases hnone
    · rw [hauth] at h
      obtain rfl : raw = "" := Option.some.inj (hnamed.symm.trans hcleared)
      exact h.2 hmode (validateAndSealHmacSecret_cleared hvalid)

end Secrets

section Runs

variable {ι : Type} [DecidableEq ι] {parties : ι → Party} {w : World} {id : Uuid}
  {c : Config Op AppError AdminResponse World ι}

/-- If this is an edit of the hook that goes through, it meets what it read. -/
def MeetsRead (parties : ι → Party) (id : Uuid) (e : Event Op World ι)
    (early : List (Event Op World ι)) : Prop :=
  ∀ identifier payload, (parties e.who).request = .updateHook identifier payload →
    (secretWritten id (e.exchange Op.exec)).isSome = true →
    ∀ read met, hookRead (heard Op.exec e.who early) = some read →
      e.before.db.hookWithId id = some met → payload.MeetsRead read met

omit [DecidableEq ι] in
/-- A statement other than an update of the hook leaves it as it is. -/
theorem hookWithId_congr {e : Event Op World ι} (hhooks : (e.after Op.exec).db.hooks =
    e.before.db.hooks) : (e.after Op.exec).db.hookWithId id = e.before.db.hookWithId id := by
  unfold Database.hookWithId
  rw [hhooks]

omit [DecidableEq ι] in
/-- What one event of an edit does to a hook: nothing, or the write it was checked for. -/
theorem edit_step (id : Uuid) {e : Event Op World ι} {h : Heard Op} {ctx : Context}
    {payload : UpdateHookPayload} (hq : EditsAsRead ctx payload h _ e.query) :
    (secretWritten id (e.exchange Op.exec) = none ∧
      (e.after Op.exec).db.hookWithId id = e.before.db.hookWithId id) ∨
    ∃ read met runAsUser hmacSecret, hookRead h = some read ∧
      e.before.db.hookWithId id = some met ∧
      validateAndSealHmacSecret ctx 0 (payload.authMode.getD read.authMode) payload.hmacSecret
        read.hmacSecret = .ok hmacSecret ∧
      secretWritten id (e.exchange Op.exec) = some hmacSecret ∧
      (e.after Op.exec).db.hookWithId id =
        some ((hookChanges payload runAsUser hmacSecret (ctx.draws.now 0)).apply met) := by
  obtain ⟨who, query, before⟩ := e
  have hother : ∀ {β : Type} {q : Op β}, WritesAmong [.insertAuditLog] β q →
      (Op.exec β q before).2.db.hooks = before.db.hooks := fun {β q} hq =>
    Handler.run_hooks_eq (p := (.ask q : Handler β)) ⟨hq, fun _ => trivial⟩ (by decide) before
  cases query with
  | db s =>
    cases s with
    | updateHook hookId u =>
      obtain ⟨read, runAsUser, hmacSecret, hread, -, hvalid, hu⟩ := hq
      have hanswered : ∀ r, (before.db.updateHook hookId u).1 = r → secretWritten id
          (Event.exchange Op.exec ⟨who, .db (.updateHook hookId u), before⟩) =
            secretWritten id ⟨_, .db (.updateHook hookId u), r⟩ := by
        rintro _ rfl
        rfl
      rcases before.db.updateHook_cases hookId u with ⟨err, hrun⟩ | ⟨met, hmet, hanswer, hedited⟩
      · exact .inl ⟨hanswered _ (congrArg Prod.fst hrun),
          hookWithId_congr (congrArg (fun r => r.2.hooks) hrun)⟩
      · subst hu
        have hwritten := hanswered _ hanswer
        have hrow := hedited.hookWithId id
        by_cases hid : hookId = id
        · subst hid
          refine .inr ⟨read, met, runAsUser, hmacSecret, hread, hmet, hvalid,
            hwritten.trans (if_pos rfl), ?_⟩
          refine hrow.trans ?_
          rw [hmet, Option.map_some, HookUpdate.at_, if_pos]
          simpa using (Database.hookWithId_mem hmet).2
        · refine .inl ⟨hwritten.trans (if_neg hid), hrow.trans ?_⟩
          cases hfound : before.db.hookWithId id with
          | none => rfl
          | some other =>
            have hother := (Database.hookWithId_mem hfound).2
            rw [Option.map_some, HookUpdate.at_, if_neg]
            rw [beq_iff_eq, hother]
            exact fun heq => hid heq.symm
    | _ => exact .inl ⟨rfl, hookWithId_congr (hother hq)⟩
  | _ => exact .inl ⟨rfl, hookWithId_congr (hother trivial)⟩

omit [DecidableEq ι] in
theorem SecretKept.start {state : AppState} (hw : Reachable state w) : SecretKept parties id w [] :=
  ⟨rfl, fun hook hhook => hw.hooksSecured hook (Database.hookWithId_mem hhook).1⟩

/-- An edit keeps the secret if and only if it meets what it read. -/
theorem secretKept_cons {e : Event Op World ι} {early : List (Event Op World ι)}
    {identifier : String} {payload : UpdateHookPayload} {ctx : Context}
    (hbefore : e.before = stateAfter Op.exec w early)
    (hrequest : (parties e.who).request = .updateHook identifier payload)
    (hq : EditsAsRead ctx payload (heard Op.exec e.who early) _ e.query)
    (hkept : SecretKept parties id w early) :
    SecretKept parties id w (e :: early) ↔ MeetsRead parties id e early := by
  obtain ⟨hlast, hsecured⟩ := hkept
  rw [← hbefore] at hlast hsecured
  have hnames : (parties e.who).request.namesSecret = payload.hmacSecret.isSome := by
    rw [hrequest]
    rfl
  have hcons : lastNamed parties id (w.db.storedSecret id) (e :: early) =
      ((secretNamed parties id e).or (early.findSome? (secretNamed parties id))).getD
        (w.db.storedSecret id) := by
    unfold lastNamed
    rw [List.findSome?_cons]
    cases secretNamed parties id e <;> rfl
  rcases edit_step id hq with ⟨hnone, hsame⟩ |
    ⟨read, met, runAsUser, hmacSecret, hread, hmet, hvalid, hwritten, hafter⟩
  · -- nothing happened to the hook
    have hunnamed : secretNamed parties id e = none := by
      unfold secretNamed
      rw [hnone, ite_self]
    refine iff_of_true ⟨?_, ?_⟩ ?_
    · rw [hcons, hunnamed, Option.none_or]
      change (e.after Op.exec).db.storedSecret id = _
      unfold Database.storedSecret
      rw [hsame]
      exact hlast
    · change ∀ hook, (e.after Op.exec).db.hookWithId id = some hook → hook.Secured
      rw [hsame]
      exact hsecured
    · intro _ _ _ hsome
      rw [hnone] at hsome
      cases hsome
  · have hstored : (stateAfter Op.exec w (e :: early)).db.storedSecret id = hmacSecret := by
      change ((e.after Op.exec).db.hookWithId id).bind _ = _
      rw [hafter]
      rfl
    have hstoredBefore : e.before.db.storedSecret id = met.hmacSecret := by
      unfold Database.storedSecret
      rw [hmet]
      rfl
    have hrow : (∀ hook, (stateAfter Op.exec w (e :: early)).db.hookWithId id = some hook →
        hook.Secured) ↔ (payload.authMode.getD met.authMode = .hmacOnly → hmacSecret ≠ none) := by
      change (∀ hook, (e.after Op.exec).db.hookWithId id = some hook → hook.Secured) ↔ _
      rw [hafter]
      exact ⟨fun h => h _ rfl, fun h hook hhook => Option.some.inj hhook ▸ h⟩
    have hnamed : lastNamed parties id (w.db.storedSecret id) (e :: early) = hmacSecret ↔
        (payload.hmacSecret = none → met.hmacSecret = hmacSecret) := by
      rw [hcons, secretNamed, hnames, hwritten]
      cases payload.hmacSecret with
      | none =>
        rw [if_neg (by simp), Option.none_or,
          show Option.getD _ _ = met.hmacSecret from hlast.symm.trans hstoredBefore]
        exact ⟨fun h _ => h, fun h => h rfl⟩
      | some raw =>
        rw [if_pos (by simp), Option.some_or]
        exact iff_of_true rfl nofun
    have hmeets : MeetsRead parties id e early ↔ payload.MeetsRead read met := by
      constructor
      · exact fun h => h identifier payload hrequest (by rw [hwritten]; rfl) read met hread hmet
      · intro h identifier' payload' hrequest' _ read' met' hread' hmet'
        cases hrequest.symm.trans hrequest'
        cases hread.symm.trans hread'
        cases hmet.symm.trans hmet'
        exact h
    rw [hmeets, meetsRead_iff hvalid (hsecured met hmet), ← hnamed, ← hrow]
    exact ⟨fun h => ⟨(h.last.symm.trans hstored), h.secured⟩,
      fun h => ⟨hstored.trans h.1.symm, h.2⟩⟩

/-- Every query of an edit is right by what it read. -/
theorem InFlight.editsAsRead (hrun : InFlight parties w c)
    (hedits : ∀ i, ∃ identifier payload, (parties i).request = .updateHook identifier payload)
    {later early : List (Event Op World ι)} {e : Event Op World ι}
    (hlog : c.log = later ++ e :: early) :
    e.before = stateAfter Op.exec w early ∧ ∃ identifier payload,
      (parties e.who).request = .updateHook identifier payload ∧
        EditsAsRead (parties e.who).ctx payload (heard Op.exec e.who early) _ e.query := by
  have hstart : ∀ i, (parties i).program.Ensures (fun h β q => ∀ identifier payload,
      (parties i).request = .updateHook identifier payload →
        EditsAsRead (parties i).ctx payload h β q) [] fun _ _ => True := by
    intro i
    obtain ⟨identifier, payload, hrequest⟩ := hedits i
    have hprogram : (parties i).program =
        .hook <$> updateHook (parties i).ctx (parties i).key identifier payload := by
      unfold Party.program
      rw [hrequest]
      rfl
    rw [hprogram]
    refine .map ((updateHook_editsAsRead identifier).weaken fun h β q hq identifier' payload'
      hrequest' => ?_)
    cases hrequest.symm.trans hrequest'
    exact hq
  obtain ⟨identifier, payload, hrequest⟩ := hedits e.who
  exact ⟨(hlog ▸ hrun.chained.2).before, identifier, payload, hrequest,
    (Interleaved.ensures hrun hstart).2 later e early hlog identifier payload hrequest⟩

/-- At every point of a run of edits a hook has the secret that was last named,
and has one if its callers sign with it, if and only if every edit of it meets
what it read. -/
theorem secrets_kept {state : AppState} (hw : Reachable state w) (hrun : InFlight parties w c)
    (hedits : ∀ i, ∃ identifier payload, (parties i).request = .updateHook identifier payload) :
    (∀ later early, c.log = later ++ early → SecretKept parties id w early) ↔
      ∀ later e early, c.log = later ++ e :: early → MeetsRead parties id e early := by
  constructor
  · intro hkept later e early hlog
    obtain ⟨hbefore, identifier, payload, hrequest, hq⟩ := hrun.editsAsRead hedits hlog
    exact (secretKept_cons hbefore hrequest hq (hkept (later ++ [e]) early (by simp [hlog]))).mp
      (hkept later (e :: early) hlog)
  · intro hmeets later early hlog
    induction early generalizing later with
    | nil => exact .start hw
    | cons e early ih =>
      obtain ⟨hbefore, identifier, payload, hrequest, hq⟩ := hrun.editsAsRead hedits hlog
      exact (secretKept_cons hbefore hrequest hq (ih (later ++ [e]) (by simp [hlog]))).mpr
        (hmeets later e early hlog)

end Runs

section Sample

open Sample

/-- The master describes the hook, and gives it a secret. -/
def secretEditors : Bool → Party
  | false => ⟨ctx 5, Sample.masterRow, .updateHook "deploy" { description := some "deploys" }⟩
  | true => ⟨ctx 6, Sample.masterRow, .updateHook "deploy" { hmacSecret := some "hunter2" }⟩

theorem secretEditors_edit (i : Bool) :
    ∃ identifier payload, (secretEditors i).request = .updateHook identifier payload := by
  cases i <;> exact ⟨_, _, rfl⟩

/-- The secret is set once the description is. -/
def editedInTurn : Config Op AppError AdminResponse World Bool :=
  (Config.advance Op.exec false 20 ⟨fun i => (secretEditors i).program, deployment, []⟩).advance
    Op.exec true 20

theorem secrets_kept_in_turn :
    (∀ later early, editedInTurn.log = later ++ early →
        SecretKept secretEditors 301 deployment early) ↔
      ∀ later e early, editedInTurn.log = later ++ e :: early →
        MeetsRead secretEditors 301 e early :=
  secrets_kept reachable_deployment ((Interleaved.initial.scheduled false 20).scheduled true 20)
    secretEditors_edit

/-- The hook is read for the description, and the secret set before that is
written. -/
def editedAtOnce : Config Op AppError AdminResponse World Bool :=
  ((Config.advance Op.exec false 1 ⟨fun i => (secretEditors i).program, deployment, []⟩).advance
    Op.exec true 20).advance Op.exec false 20

/-- The description is written with the secret that was read. -/
theorem secret_lost : ¬∀ {state : AppState} {parties : Bool → Party} {w : World} {id : Uuid}
    {c : Config Op AppError AdminResponse World Bool}, Reachable state w → InFlight parties w c →
    (∀ i, ∃ identifier payload, (parties i).request = .updateHook identifier payload) →
    ∀ later early, c.log = later ++ early → SecretKept parties id w early := by
  intro hclaim
  have hkept : SecretKept secretEditors 301 deployment editedAtOnce.log :=
    hclaim reachable_deployment
      (((Interleaved.initial.scheduled false 1).scheduled true 20).scheduled false 20)
      secretEditors_edit [] _ rfl
  have hlost : (stateAfter Op.exec deployment editedAtOnce.log).db.storedSecret 301 ≠
      lastNamed secretEditors 301 (deployment.db.storedSecret 301) editedAtOnce.log := by
    decide
  exact hlost hkept.last

end Sample

end HookExecutor
