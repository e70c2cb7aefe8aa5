import HookExecutor.Verification.Keyless
import HookExecutor.Verification.SignedRequests

/-!
# What an edit of a hook opens

Whoever edits a hook, as its owner or otherwise, edits no permission. So nobody
that presents a key and no signature may execute more than before; and if the
edit leaves the settings alone that the mode of the hook checks its callers by,
nobody may. An edit of those settings can let in callers that were kept out.
-/

namespace HookExecutor

open Text Crypto

/-- The request is let through and its handler goes on with this hook. -/
def Invocation.Authorized (ctx : Context) (clock : AuthClock) (w : World) (hookId : Uuid)
    (inv : Invocation) : Prop :=
  ∃ caller w₁ hook, (authenticate ctx clock (.invoke inv)).run Op.exec w =
      (.ok (.invoke caller inv), w₁) ∧
    inv.Reaches caller w₁ hook ∧ hook.id = hookId

/-- A request under a key and without a signature. -/
def Invocation.KeyedUnsigned (inv : Invocation) : Prop :=
  inv.headers.getStr apiKeyHeader ≠ none ∧ inv.headers.getStr signatureHeader = none

/-- A request that names the hook by its identifier. -/
def Invocation.AddressesById (hookId : Uuid) (inv : Invocation) : Prop :=
  ∃ identifier, percentDecode inv.segment = some identifier ∧
    Uuid.parseStr identifier = some hookId

/-- An edit that leaves alone what the mode of the hook checks its callers by. -/
structure UpdateHookPayload.KeepsGate (payload : UpdateHookPayload) (hook : Hook) : Prop where
  mode : payload.authMode.getD hook.authMode = hook.authMode
  open_ : hook.authMode = .noAuth → payload.signatureHeader = none
  hmac : hook.authMode = .hmacOnly → payload.hmacSecret = none ∧
    payload.signatureHeader = none ∧ payload.signaturePrefix = none
  canonical : hook.authMode = .canonicalV1 → payload.canonicalTemplate = none

/-! ### What an edit does to the world -/

/-- One hook row rewritten, and nothing else that authorization reads. -/
structure HookEdited (a b : Database) (hookId : Uuid) (u : HookUpdate) : Prop where
  hooks : b.hooks = a.hooks.map fun h => if h.id == hookId then u.apply h else h
  apiKeys : b.apiKeys = a.apiKeys
  permissions : b.permissions = a.permissions

section Edit

variable {ctx : Context} {key : ApiKey} {model : Hook} {identifier : String}
  {payload : UpdateHookPayload} {w w' : World} {detail : HookDetail}

theorem requestedOwner_snd (w : World) : ((requestedOwner key payload).run Op.exec w).2 = w := by
  unfold requestedOwner
  cases payload.ownerKeyId with
  | none => rfl
  | some owner =>
    refine Program.run_bind_read (K := fun t => t = w) (by simp) rfl fun _ _ => ?_
    refine Program.run_bind_read (K := fun t => t = w) (by simp) rfl fun _ _ => ?_
    simp

theorem guardHookManageConjunction_snd (hookId : Uuid) (w : World) :
    ((guardHookManageConjunction key hookId).run Op.exec w).2 = w := by
  refine Program.run_bind_read (K := fun t => t = w) (by simp) rfl fun held _ => ?_
  cases held with
  | none => rfl
  | some row =>
    change ((Program.bind (.require _ _) _).run Op.exec w).2 = w
    exact Program.run_bind_read (K := fun t => t = w) (by simp) rfl fun _ _ => rfl

theorem guardUpdateHook_snd (key : ApiKey) (model : Hook) (payload : UpdateHookPayload)
    (w : World) :
    ((guardUpdateHook key model payload).run Op.exec w).2 = w := by
  have hconjunction : ∀ (c : Bool), ((if c then pure () else
      guardHookManageConjunction key model.id >>= fun _ => pure () : Handler Unit).run Op.exec
        w).2 = w := by
    intro c
    cases c with
    | true => rfl
    | false =>
      exact Program.run_bind_read (K := fun t => t = w) (guardHookManageConjunction_snd _ w) rfl
        fun _ _ => rfl
  refine Program.run_bind_read (K := fun t => t = w) (hconjunction _) rfl fun _ _ => ?_
  refine Program.run_bind_read (K := fun t => t = w) ?_ rfl fun _ _ => ?_
  · split
    · exact hconjunction _
    · rfl
  refine Program.run_bind_read (K := fun t => t = w) (by simp) rfl fun _ _ => ?_
  refine Program.run_bind_read (K := fun t => t = w) (by simp) rfl fun _ _ => ?_
  refine Program.run_bind_read (K := fun t => t = w) ?_ rfl fun _ _ => ?_
  · split
    · simp
    · rfl
  exact Program.run_bind_read (K := fun t => t = w) (requestedOwner_snd w) rfl fun _ _ => rfl

theorem buildHookDetail_snd (model : Hook) (w : World) :
    ((buildHookDetail key model).run Op.exec w).2 = w := by
  refine Program.run_bind_read (K := fun t => t = w) (by simp [loadParameters, Stmt.exec]) rfl
    fun _ _ => ?_
  refine Program.run_bind_read (K := fun t => t = w) ?_ rfl fun _ _ => rfl
  split
  · rfl
  · simp

theorem Database.updateHook_eq_ok {db db' : Database} {id : Uuid} {u : HookUpdate} {row : Hook}
    (h : db.updateHook id u = (.ok row, db')) :
    db' = { db with hooks := db.hooks.map fun h => if h.id == id then u.apply h else h } := by
  unfold updateHook at h
  split at h
  · cases h
  · split at h
    · cases h
    · exact (Prod.mk.inj h).2.symm

theorem writeHookUpdate_ok {id : Uuid} {u : HookUpdate} {updated : Hook}
    (h : (writeHookUpdate id u).run Op.exec w = (.ok updated, w')) :
    w' = { w with db := { w.db with
      hooks := w.db.hooks.map fun h => if h.id == id then u.apply h else h } } := by
  simp only [writeHookUpdate, Program.bind_eq, Program.pure_eq, Program.run_bind,
    Handler.exec_trySql, Stmt.exec] at h
  cases hupdate : w.db.updateHook id u with
  | mk r db' =>
    rw [hupdate] at h
    cases r with
    | ok row =>
      cases h
      rw [← Database.updateHook_eq_ok hupdate]
    | error e => cases e <;> cases h

/-- What an edit that succeeded went through, and what it left. -/
theorem updateHook_ok
    (h : (updateHook ctx key identifier payload).run Op.exec w = (.ok detail, w')) :
    ∃ model runAsUser hmacSecret, w.db.resolveLive identifier = some model ∧
      (guardUpdateHook key model payload).run Op.exec w = (.ok runAsUser, w) ∧
      validateAndSealHmacSecret ctx 0 (payload.authMode.getD model.authMode) payload.hmacSecret
        model.hmacSecret = .ok hmacSecret ∧
      HookEdited w.db w'.db model.id (hookChanges payload runAsUser hmacSecret (ctx.draws.now 0)) ∧
      w'.replay = w.replay := by
  simp only [updateHook, Program.bind_eq, Program.run_bind_eq_ok_iff, run_resolveHook_ok,
    Program.run_ofExcept, loadParameters] at h
  obtain ⟨model, w₀, ⟨hw₀, hmodel⟩, runAsUser, w₁, hguard, _, _, hfields, hmacSecret, _, hsecret,
    declared, w₂, hdeclared, _, _, hcontract, updated, _, hwrite, _, w₃, haudit, hdetail⟩ := h
  subst w₀
  have hguarded := guardUpdateHook_snd key model payload w
  have hread := run_sql_snd (.selectHookParameters model.id) w
  rw [hguard] at hguarded
  obtain rfl : w₁ = w := hguarded
  obtain ⟨-, rfl⟩ := Prod.mk.inj hfields
  obtain ⟨hsealed, rfl⟩ := Prod.mk.inj hsecret
  rw [hdeclared] at hread
  obtain rfl : w₂ = w₁ := hread
  obtain ⟨-, rfl⟩ := Prod.mk.inj hcontract
  obtain rfl := writeHookUpdate_ok hwrite
  obtain rfl := createAuditLog_ok haudit
  obtain rfl := (congrArg Prod.snd hdetail).symm.trans (buildHookDetail_snd updated _)
  exact ⟨model, runAsUser, hmacSecret, hmodel, hguard, hsealed, ⟨rfl, rfl, rfl⟩, rfl⟩

end Edit

/-! ### What identifiers name afterwards -/

section Naming

variable {a b : Database} {hookId : Uuid} {u : HookUpdate} {identifier : String} {hook : Hook}

/-- A row, edited if it is the one. -/
def HookUpdate.at_ (u : HookUpdate) (hookId : Uuid) (h : Hook) : Hook :=
  if h.id == hookId then u.apply h else h

@[simp] theorem HookUpdate.at_id_field (h : Hook) : (u.at_ hookId h).id = h.id := by
  unfold at_
  split <;> rfl

theorem HookUpdate.at_isDeleted (hu : u.isDeleted = none) (h : Hook) :
    (u.at_ hookId h).isDeleted = h.isDeleted := by
  unfold at_
  split <;> simp [apply, hu]

theorem HookUpdate.at_name (hu : u.name = none) (h : Hook) : (u.at_ hookId h).name = h.name := by
  unfold at_
  split <;> simp [apply, hu]

theorem HookEdited.hookWithId (h : HookEdited a b hookId u) (id : Uuid) :
    b.hookWithId id = (a.hookWithId id).map (u.at_ hookId) := by
  have hsame : (fun g : Hook => g.id == id) ∘ u.at_ hookId = fun g => g.id == id := by
    funext g
    simp
  unfold Database.hookWithId
  rw [h.hooks]
  change (a.hooks.map (u.at_ hookId)).find? _ = _
  rw [List.find?_map, hsame]

/-- Under the same names, every identifier names the same row, as edited. -/
theorem HookEdited.resolveLive (h : HookEdited a b hookId u) (hname : u.name = none)
    (hdeleted : u.isDeleted = none) (identifier : String) :
    b.resolveLive identifier = (a.resolveLive identifier).map (u.at_ hookId) := by
  have hbyName : b.hookByName identifier = (a.hookByName identifier).map (u.at_ hookId) := by
    have hsame : (fun g : Hook => g.name == identifier) ∘ u.at_ hookId =
        fun g => g.name == identifier := by
      funext g
      simp [HookUpdate.at_name hname]
    unfold Database.hookByName
    rw [h.hooks]
    change (a.hooks.map (u.at_ hookId)).find? _ = _
    rw [List.find?_map, hsame]
  have hbyId : (Uuid.parseStr identifier).bind b.hookWithId =
      ((Uuid.parseStr identifier).bind a.hookWithId).map (u.at_ hookId) := by
    cases Uuid.parseStr identifier with
    | none => rfl
    | some id => exact h.hookWithId id
  unfold Database.resolveLive Database.resolve
  rw [hbyName, hbyId, ← Option.map_or]
  cases ((Uuid.parseStr identifier).bind a.hookWithId).or (a.hookByName identifier) with
  | none => rfl
  | some g => simp [Option.filter, HookUpdate.at_isDeleted hdeleted, apply_ite]

/-- An identifier in the form of the hook's id names it, whatever was edited. -/
theorem HookEdited.resolveLive_byId (h : HookEdited a b hookId u) (hdeleted : u.isDeleted = none)
    (hparse : Uuid.parseStr identifier = some hookId)
    (hfound : b.resolveLive identifier = some hook) (hknown : ∃ g ∈ a.hooks, g.id = hookId) :
    ∃ g, a.resolveLive identifier = some g ∧ g.id = hookId := by
  obtain ⟨g, hg, hgid⟩ := hknown
  cases hrow : a.hookWithId hookId with
  | none => exact absurd (by simp [hgid]) (List.find?_eq_none.mp hrow g hg)
  | some row =>
    have hedited : b.hookWithId hookId = some (u.at_ hookId row) := by rw [h.hookWithId, hrow]; rfl
    have hboth : ∀ (db : Database) (r : Hook), db.hookWithId hookId = some r →
        db.resolveLive identifier = (some r).filter fun hook => !hook.isDeleted := by
      intro db r hr
      simp [Database.resolveLive, Database.resolve, hparse, hr]
    rw [hboth b _ hedited] at hfound
    obtain ⟨hrow', hlive⟩ := Option.filter_eq_some_iff.mp hfound
    obtain rfl := Option.some.inj hrow'
    rw [HookUpdate.at_isDeleted hdeleted] at hlive
    refine ⟨row, ?_, (Database.hookWithId_mem hrow).2⟩
    rw [hboth a row hrow]
    exact Option.filter_eq_some_iff.mpr ⟨rfl, hlive⟩

end Naming

/-! ### What the gate makes of it -/

section Gate

variable {ctx : Context} {hook : Hook} {payload : UpdateHookPayload}
  {runAsUser : Option (Option String)} {hmacSecret : Option String} {now : DateTime}

theorem validateAndSealHmacSecret_none {mode : AuthMode} {existing : Option String}
    (h : validateAndSealHmacSecret ctx 0 mode none existing = .ok hmacSecret) :
    hmacSecret = existing := by
  simp only [validateAndSealHmacSecret] at h
  split at h
  · cases h
  · exact (Except.ok.inj h).symm

theorem templateInForce_congr {g g' : Hook} (hmode : g.authMode = g'.authMode)
    (htemplate : g'.authMode = .canonicalV1 → g.canonicalTemplate = g'.canonicalTemplate)
    (key : ApiKey) : templateInForce (some g) key = templateInForce (some g') key := by
  unfold templateInForce
  by_cases hcanonical : g'.authMode = .canonicalV1
  · simp [Option.filter, hmode, hcanonical, htemplate hcanonical]
  · simp [Option.filter, hmode, hcanonical]

theorem UpdateHookPayload.KeepsGate.templateInForce (h : payload.KeepsGate hook) (key : ApiKey) :
    HookExecutor.templateInForce
        (some ((hookChanges payload runAsUser hmacSecret now).apply hook)) key =
      HookExecutor.templateInForce (some hook) key :=
  templateInForce_congr h.mode
    (fun hcanonical => by simp [HookUpdate.apply, hookChanges, h.canonical hcanonical]) key

theorem UpdateHookPayload.KeepsGate.guardKeyless (h : payload.KeepsGate hook)
    (hsecret : validateAndSealHmacSecret ctx 0 (payload.authMode.getD hook.authMode)
      payload.hmacSecret hook.hmacSecret = .ok hmacSecret) (state : AppState) (req : HttpRequest) :
    HookExecutor.guardKeyless state ((hookChanges payload runAsUser hmacSecret now).apply hook)
      req =
      HookExecutor.guardKeyless state hook req := by
  have hmode : ((hookChanges payload runAsUser hmacSecret now).apply hook).authMode =
      hook.authMode := h.mode
  unfold HookExecutor.guardKeyless
  rw [hmode]
  cases hcase : hook.authMode with
  | canonicalV1 => rfl
  | apiKeyOnly => rfl
  | noAuth => simp [signatureMaterialPresent, HookUpdate.apply, hookChanges, h.open_ hcase]
  | hmacOnly =>
    obtain ⟨hkept, hheader, hpre⟩ := h.hmac hcase
    rw [hkept] at hsecret
    have hsame := validateAndSealHmacSecret_none hsecret
    simp [verifyHookSignature, recoverHookSecret, HookUpdate.apply, hookChanges, hheader, hpre,
      hsame]

end Gate

/-! ### Before and after -/

section Compare

variable {state : AppState} {clock : AuthClock} {presentedKey : String} {clientIp : IpAddr}
  {hook hook' : Option Hook} {req : HttpRequest} {w w' v : World} {key : ApiKey}

/-- A key that is accepted after an edit was accepted before it, over the same
template, by a guard that remembered no more. -/
theorem authenticateBearerKey_before (hook : Option Hook) (hsound : w.Sound) (hsound' : w'.Sound)
    (hkeys : w'.db.apiKeys = w.db.apiKeys) (hdistinct : w.replay.Distinct)
    (hsigned : req.headers.getStr signatureHeader ≠ none →
      (∀ id, w.replay.Remembers id clock.recordedAt → w'.replay.Remembers id clock.recordedAt) ∧
      templateInForce hook key = templateInForce hook' key)
    (hrun : (authenticateBearerKey state clock presentedKey clientIp hook' req).run Op.exec w' =
      (.ok key, v)) :
    ∃ v, (authenticateBearerKey state clock presentedKey clientIp hook req).run Op.exec w =
      (.ok key, v) := by
  obtain ⟨timestamp, record, _, htimestamp, hrecord, hprincipal, -, hcheck, hnetwork⟩ :=
    authenticateBearerKey_accepts.mp hrun
  rw [hkeys] at hrecord
  have hmem := List.mem_of_find?_eq_some hrecord
  obtain rfl : key = record := hprincipal.trans (hsound'.principal_eq (hkeys ▸ hmem))
  have haccept : ∀ {v : World}, (checkSignature state clock req hook key timestamp).run Op.exec
      { w with pinned := if key.isMaster then w.masterIdentity else w.pinned } = (.ok (), v) →
      (authenticateBearerKey state clock presentedKey clientIp hook req).run Op.exec w =
        (.ok key, v) := fun hv =>
    authenticateBearerKey_accepts.mpr ⟨timestamp, key, _, htimestamp, hrecord,
      (hsound.principal_eq hmem).symm, rfl, hv, hnetwork⟩
  cases hprovided : req.headers.getStr signatureHeader with
  | none =>
    obtain ⟨-, hoptional⟩ := (checkSignature_unsigned_ok hprovided).mp hcheck
    exact ⟨_, haccept ((checkSignature_unsigned_ok hprovided).mpr ⟨rfl, hoptional⟩)⟩
  | some provided =>
    obtain ⟨hmore, htemplate⟩ := hsigned (by simp [hprovided])
    obtain ⟨digest, hverify, hfirst, -⟩ := (checkSignature_signed_ok hprovided).mp hcheck
    have hverify' : verifyKeySignature state clock req hook key timestamp provided =
      .ok digest := by
      rw [verifyKeySignature_ok] at hverify ⊢
      rwa [htemplate]
    have hfirst' := ReplayGuard.checkAndRecord_fst_of_remembers ⟨key.id, digest⟩ hdistinct
      (hmore _) (congrArg Prod.fst hfirst)
    exact ⟨_, haccept (checkSignature_signed hprovided hverify' hfirst')⟩

theorem mayExecute_congr {a b : Database} (h : b.permissions = a.permissions) {hookId : Uuid} :
    b.MayExecute key hookId ↔ a.MayExecute key hookId := by
  unfold Database.MayExecute Database.permissionOf
  rw [h]

end Compare

/-- A request is authorized if its middleware lets it through and the decoded
segment names the hook, which the caller's key may run if there is one. -/
theorem authorized_iff {ctx : Context} {inv : Invocation} {hookId : Uuid} :
    inv.Authorized ctx clock w hookId ↔
      ∃ caller, (∃ v, (invocationAuthMiddleware ctx.state clock ctx.clientIp inv.toHttp).run Op.exec
          w = (.ok caller, v)) ∧
        ∃ identifier target, percentDecode inv.segment = some identifier ∧
          w.db.resolveLive identifier = some target ∧ target.id = hookId ∧
          ∀ key, caller = some key → w.db.MayExecute key hookId := by
  have hdb : ∀ {caller v}, (authenticate ctx clock (.invoke inv)).run Op.exec w =
      (.ok (.invoke caller inv), v) → v.db = w.db := authenticate_db
  constructor
  · rintro ⟨caller, v, target, hrun, hreach, rfl⟩
    obtain ⟨identifier, hdecoded, htarget, hmay⟩ := reaches_iff.mp hreach
    rw [hdb hrun] at htarget hmay
    exact ⟨caller, ⟨v, authenticate_invoke_ok.mp hrun⟩, identifier, target, hdecoded, htarget, rfl,
      hmay⟩
  · rintro ⟨caller, ⟨v, hrun⟩, identifier, target, hdecoded, htarget, rfl, hmay⟩
    have hauth := authenticate_invoke_ok.mpr hrun
    refine ⟨caller, v, target, hauth, reaches_iff.mpr ⟨identifier, hdecoded, ?_, ?_⟩, rfl⟩
    · rw [hdb hauth]
      exact htarget
    · rw [hdb hauth]
      exact hmay

section Edits

variable {state : AppState} {w w₁ w' : World} {ctx : Context} {clock : AuthClock}
  {http : HttpRequest} {key : ApiKey} {identifier : String} {payload : UpdateHookPayload}
  {hook : Hook} {r : Response}

/-- An edit that was served, from the world before its request to the world
after. -/
theorem serve_updateHook_ok
    (hauth : (authenticate ctx clock (.admin http (.updateHook identifier payload))).run Op.exec w =
      (.ok (.admin key (.updateHook identifier payload)), w₁))
    (hhook : w.db.resolveLive identifier = some hook)
    (hok : (serve ctx clock (.admin http (.updateHook identifier payload))).run Op.exec w =
      (.ok r, w')) :
    ∃ runAsUser hmacSecret,
      validateAndSealHmacSecret ctx 0 (payload.authMode.getD hook.authMode) payload.hmacSecret
        hook.hmacSecret = .ok hmacSecret ∧
      HookEdited w.db w'.db hook.id (hookChanges payload runAsUser hmacSecret (ctx.draws.now 0)) ∧
      ∀ id now, clock.recordedAt ≤ now → w.replay.Remembers id now →
        w'.replay.Remembers id now := by
  have hdb : w₁.db = w.db := authenticate_db hauth
  have hserved := hok
  rw [serve, Program.bind_eq, Program.run_bind_ok hauth] at hserved
  simp only [Authenticated.handle, handleAdmin, Program.map_eq, Program.run_bind_eq_ok_iff,
    Program.run_pure] at hserved
  obtain ⟨_, _, ⟨detail, _, hupdate, hret⟩, hret'⟩ := hserved
  cases hret
  cases hret'
  obtain ⟨model, runAsUser, hmacSecret, hmodel, -, hsecret, hedited, hreplay⟩ :=
    updateHook_ok hupdate
  rw [hdb] at hmodel hedited
  obtain rfl := Option.some.inj (hhook.symm.trans hmodel)
  refine ⟨runAsUser, hmacSecret, hsecret, hedited, fun id now hnow hlive => ?_⟩
  obtain ⟨_, -, hbearer⟩ := authenticate_keyed hauth rfl
  rw [hreplay, ← congrArg (·.2.replay) hbearer]
  exact authenticateBearerKey_replay (J := fun g => g.Remembers id now)
    (fun g sid hg => hg.checkAndRecord sid hnow) hlive

/-- In any reachable world, whoever edits a hook, be it as its owner: afterwards
no key may execute the hook by an unsigned request it could not have executed it
by before, whatever is edited, as long as the request names the hook by its
identifier or the edit renames nothing. And if the edit keeps the name and the
settings the mode of the hook checks callers by, nobody may execute it by any
later request that could not have before. -/
theorem edit_widens_nothing (hw : Reachable state w)
    (hauth : (authenticate ctx clock (.admin http (.updateHook identifier payload))).run Op.exec w =
      (.ok (.admin key (.updateHook identifier payload)), w₁))
    (hhook : w.db.resolveLive identifier = some hook)
    (hok : (serve ctx clock (.admin http (.updateHook identifier payload))).run Op.exec w =
      (.ok r, w')) :
    (∀ (ctx' : Context) (clock' : AuthClock) (inv : Invocation), inv.KeyedUnsigned →
      (payload.name = none ∨ inv.AddressesById hook.id) →
      inv.Authorized ctx' clock' w' hook.id → inv.Authorized ctx' clock' w hook.id) ∧
    (payload.name = none → payload.KeepsGate hook →
      ∀ (ctx' : Context) (clock' : AuthClock) (inv : Invocation),
      clock.recordedAt ≤ clock'.recordedAt →
      inv.Authorized ctx' clock' w' hook.id → inv.Authorized ctx' clock' w hook.id) := by
  have hsound := hw.sound
  have hsound' : w'.Sound := by
    have h := hsound.serve ctx clock (.admin http (.updateHook identifier payload))
    rwa [hok] at h
  have hmem := (Database.resolveLive_mem hhook).1
  obtain ⟨runAsUser, hmacSecret, hsecret, hedited, hremembers⟩ :=
    serve_updateHook_ok hauth hhook hok
  have hunnamed : payload.name = none →
      (hookChanges payload runAsUser hmacSecret (ctx.draws.now 0)).name = none := fun h => by
    simp [hookChanges, h]
  constructor
  · rintro ctx' clock' inv ⟨hkeyed, hunsigned⟩ hnamed hafter
    obtain ⟨caller, ⟨v, hrun⟩, text, target, hdecoded, htarget, hid, hmay⟩ :=
      authorized_iff.mp hafter
    cases caller with
    | none => exact absurd (invocationAuthMiddleware_keyless.mp hrun).2.1 hkeyed
    | some caller =>
      obtain ⟨presentedKey, hpresented, hbearer⟩ := invocationAuthMiddleware_keyed.mp hrun
      obtain ⟨v', hbefore⟩ := authenticateBearerKey_before
        ((hookIdentifierFromPath inv.toHttp.path).bind w.db.resolveLive) hsound hsound'
        hedited.apiKeys hw.distinct (fun hsigned => absurd hunsigned hsigned) hbearer
      have hwas : ∃ g, w.db.resolveLive text = some g ∧ g.id = hook.id := by
        rcases hnamed with hnamed | ⟨text', hdecoded', hparse⟩
        · rw [hedited.resolveLive (hunnamed hnamed) rfl] at htarget
          obtain ⟨g, hg, rfl⟩ := Option.map_eq_some_iff.mp htarget
          exact ⟨g, hg, by simpa using hid⟩
        · obtain rfl : text = text' := Option.some.inj (hdecoded.symm.trans hdecoded')
          exact hedited.resolveLive_byId rfl hparse htarget ⟨hook, hmem, rfl⟩
      obtain ⟨g, hg, hgid⟩ := hwas
      exact authorized_iff.mpr ⟨some caller, ⟨v', invocationAuthMiddleware_keyed.mpr
        ⟨presentedKey, hpresented, hbefore⟩⟩, text, g, hdecoded, hg, hgid,
        fun k hk => (mayExecute_congr hedited.permissions).mp (hmay k hk)⟩
  · intro hnamed hgate ctx' clock' inv hlater hafter
    have hnames := hedited.resolveLive (hunnamed hnamed) rfl
    have hrow : ∀ {text g}, w.db.resolveLive text = some g → g.id = hook.id → g = hook :=
      fun hg hgid => hsound.wellFormed.hook_eq_of_id (Database.resolveLive_mem hg).1 hmem hgid
    obtain ⟨caller, ⟨v, hrun⟩, text, target, hdecoded, htarget, hid, hmay⟩ :=
      authorized_iff.mp hafter
    rw [hnames] at htarget
    obtain ⟨g, hg, rfl⟩ := Option.map_eq_some_iff.mp htarget
    refine authorized_iff.mpr ⟨caller, ?_, text, g, hdecoded, hg, by simpa using hid,
      fun k hk => (mayExecute_congr hedited.permissions).mp (hmay k hk)⟩
    cases caller with
    | none =>
      obtain ⟨-, hheader, named, hfound, hguard⟩ := invocationAuthMiddleware_keyless.mp hrun
      rw [hnames] at hfound
      obtain ⟨g', hg', rfl⟩ := Option.map_eq_some_iff.mp hfound
      refine ⟨w, invocationAuthMiddleware_keyless.mpr ⟨rfl, hheader, g', hg', ?_⟩⟩
      unfold HookUpdate.at_ at hguard
      by_cases hsame : g'.id = hook.id
      · obtain rfl := hrow hg' hsame
        rwa [if_pos (by simp), hgate.guardKeyless hsecret] at hguard
      · rwa [if_neg (by simpa using hsame)] at hguard
    | some caller =>
      obtain ⟨presentedKey, hpresented, hbearer⟩ := invocationAuthMiddleware_keyed.mp hrun
      have htemplate : templateInForce
          ((hookIdentifierFromPath inv.toHttp.path).bind w.db.resolveLive) caller =
            templateInForce ((hookIdentifierFromPath inv.toHttp.path).bind w'.db.resolveLive)
              caller := by
        cases hookIdentifierFromPath inv.toHttp.path with
        | none => rfl
        | some segment =>
          rw [Option.bind_some, Option.bind_some, hnames]
          cases hg' : w.db.resolveLive segment with
          | none => rfl
          | some g' =>
            rw [Option.map_some]
            unfold HookUpdate.at_
            by_cases hsame : g'.id = hook.id
            · obtain rfl := hrow hg' hsame
              rw [if_pos (by simp)]
              exact (hgate.templateInForce caller).symm
            · rw [if_neg (by simpa using hsame)]
      obtain ⟨v', hbefore⟩ :=
        authenticateBearerKey_before _ hsound hsound' hedited.apiKeys hw.distinct
        (fun _ => ⟨fun id => hremembers id clock'.recordedAt hlater, htemplate⟩) hbearer
      exact ⟨v', invocationAuthMiddleware_keyed.mpr ⟨presentedKey, hpresented, hbefore⟩⟩

end Edits

section Opening

open Sample

def opened : World :=
  worldOf { withOwned.db with
    hooks := [{ makerHook with authMode := .noAuth }]
    auditLogs := makerAudits } []

/-- The maker opens its hook to everybody. -/
def openingEdit : UpdateHookPayload := { authMode := some .noAuth }

def opening : Request :=
  .admin (bearer "/hooks/deploy" parentKey) (.updateHook "deploy" openingEdit)

private theorem authenticate_opening :
    (authenticate (ctx 3) clock opening).run Op.exec withOwned =
      (.ok (.admin maker (.updateHook "deploy" openingEdit)), withOwned) :=
  authenticate_admin 3 _ (by decide +kernel)

set_option maxRecDepth 4000 in
private theorem serve_opening :
    ∃ r, (serve (ctx 3) clock opening).run Op.exec withOwned = (.ok r, opened) := by
  have hserved : ((serve (ctx 3) clock opening).run Op.exec withOwned).1.toOption.isSome = true ∧
      serveAt 3 opening withOwned = opened := by
    unfold serveAt
    rw [serve, Program.bind_eq, Program.run_bind_ok authenticate_opening]
    decide
  obtain ⟨r, hr⟩ := exists_ok hserved.1
  exact ⟨r, hr.trans (congrArg _ hserved.2)⟩

/-- A request to run the hook. -/
def runMakerHook (headers : List (String × Bytes)) : Invocation :=
  { route := .execute
    segment := "deploy"
    isSegment := deploy_isSegment
    method := "POST"
    target := "/api/hooks/deploy/execute"
    headers := ⟨headers⟩
    body := [] }

set_option maxRecDepth 4000 in
/-- The maker itself may run its hook after the edit, and might before. -/
theorem edit_widens_nothing_maker :
    (runMakerHook [keyHeader parentKey]).Authorized (ctx 4) clock withOwned 201 := by
  obtain ⟨r, hserved⟩ := serve_opening
  have hfound : withOwned.db.resolveLive "deploy" = some makerHook := by decide
  refine (edit_widens_nothing reachable_withOwned authenticate_opening hfound hserved).1 (ctx 4)
    clock (runMakerHook [keyHeader parentKey]) ⟨by decide, by decide⟩ (.inl rfl) ?_
  have hthrough : (invocationAuthMiddleware state clock (.v4 0x7F000001)
      (runMakerHook [keyHeader parentKey]).toHttp).run Op.exec opened =
        (.ok (some maker), opened) := by
    decide
  refine authorized_iff.mpr ⟨some maker, ⟨opened, hthrough⟩, "deploy",
    { makerHook with authMode := .noAuth }, by decide, by decide, rfl, ?_⟩
  rintro _ ⟨⟩
  exact .inr ⟨fullPermission (ctx 2) 1 101 201, by decide, rfl⟩

/-- An owner without R2 can let in callers that were kept out. -/
theorem owner_edit_widens :
    ¬∀ {state : AppState} {w w₁ w' : World} {ctx : Context} {clock : AuthClock}
        {http : HttpRequest} {key : ApiKey} {identifier : String} {payload : UpdateHookPayload}
        {hook : Hook} {r : Response}, Reachable state w →
      (authenticate ctx clock (.admin http (.updateHook identifier payload))).run Op.exec w =
        (.ok (.admin key (.updateHook identifier payload)), w₁) →
      w.db.resolveLive identifier = some hook →
      key.isMaster = false → hook.ownerKeyId = some key.id → ¬w.db.MayManage key hook.id →
      (serve ctx clock (.admin http (.updateHook identifier payload))).run Op.exec w =
        (.ok r, w') →
      ∀ (ctx' : Context) (clock' : AuthClock) (inv : Invocation),
        clock.recordedAt ≤ clock'.recordedAt →
        inv.Authorized ctx' clock' w' hook.id → inv.Authorized ctx' clock' w hook.id := by
  intro hclaim
  obtain ⟨r, hserved⟩ := serve_opening
  have hmanage : ¬withOwned.db.MayManage maker makerHook.id := by
    rintro (hmaster | ⟨hmanages, -⟩)
    · cases hmaster
    · cases hmanages
  have hafter : (runMakerHook []).Authorized (ctx 4) clock opened 201 :=
    authorized_iff.mpr ⟨none, ⟨opened, invocationAuthMiddleware_keyless.mpr
      ⟨rfl, rfl, { makerHook with authMode := .noAuth }, by decide, by decide⟩⟩,
      "deploy", { makerHook with authMode := .noAuth }, by decide, by decide, rfl,
      by simp⟩
  have hfound : withOwned.db.resolveLive "deploy" = some makerHook := by decide
  have hbefore := hclaim reachable_withOwned authenticate_opening hfound rfl rfl hmanage hserved
    (ctx 4) clock (runMakerHook []) le_rfl hafter
  obtain ⟨caller, ⟨v, hrun⟩, -⟩ := authorized_iff.mp hbefore
  cases caller with
  | none =>
    obtain ⟨-, -, named, hnamed, hguard⟩ := invocationAuthMiddleware_keyless.mp hrun
    obtain rfl : makerHook = named := Option.some.inj (hfound.symm.trans hnamed)
    simp [guardKeyless, makerHook, deployHook] at hguard
  | some caller =>
    obtain ⟨presentedKey, hpresented, -⟩ := invocationAuthMiddleware_keyed.mp hrun
    cases hpresented

end Opening

end HookExecutor
