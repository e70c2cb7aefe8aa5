import HookExecutor.Verification.ElevationRace

/-!
# Who may edit what of a hook

Five guards stand before an edit and each covers some of the fields. Together
they say: without the master's key, only the owner or a manager edits a hook,
and none that runs elevated; what decides what is run takes a manager, and its
name takes the owner; nobody gives it away or elevates it. What an edit does
not name it does not change.
-/

namespace HookExecutor

/-- A row that differs from another only in what a payload names, and in when
it was updated. -/
structure KeepsUnnamed (payload : UpdateHookPayload) (before after : Hook) : Prop where
  id : after.id = before.id
  name : payload.name = none → after.name = before.name
  description : payload.description = none → after.description = before.description
  scriptPath : payload.scriptPath = none → after.scriptPath = before.scriptPath
  defaultTimeoutSeconds : payload.defaultTimeoutSeconds = none →
    after.defaultTimeoutSeconds = before.defaultTimeoutSeconds
  runAsUser : payload.runAsUser = none → after.runAsUser = before.runAsUser
  ownerKeyId : payload.ownerKeyId = none → after.ownerKeyId = before.ownerKeyId
  isDeleted : after.isDeleted = before.isDeleted
  deletedAt : after.deletedAt = before.deletedAt
  deletedBy : after.deletedBy = before.deletedBy
  createdAt : after.createdAt = before.createdAt
  authMode : payload.authMode = none → after.authMode = before.authMode
  hmacSecret : payload.hmacSecret = none → after.hmacSecret = before.hmacSecret
  signatureHeader : payload.signatureHeader = none →
    after.signatureHeader = before.signatureHeader
  signaturePrefix : payload.signaturePrefix = none →
    after.signaturePrefix = before.signaturePrefix
  canonicalTemplate : payload.canonicalTemplate = none →
    after.canonicalTemplate = before.canonicalTemplate
  samplePayloadJson : payload.samplePayloadJson = none →
    after.samplePayloadJson = before.samplePayloadJson
  argsTemplate : payload.argsTemplate = none → after.argsTemplate = before.argsTemplate

section Guards

variable {key : ApiKey} {model : Hook} {payload : UpdateHookPayload} {w w' : World}
  {runAsUser : Option (Option String)}

theorem requestedOwner_ordinary (hordinary : key.isMaster = false)
    (h : (requestedOwner key payload).run Op.exec w = (.ok (), w')) :
    payload.ownerKeyId = none := by
  rcases requestedOwner_ok h with hnone | ⟨hmaster, -⟩
  · exact hnone
  · rw [hordinary] at hmaster
    cases hmaster

theorem lifecycle_ordinary {action : String} (hordinary : key.isMaster = false)
    (h : guardLifecycleAuthority key model action = .ok ()) : model.ownerKeyId = some key.id := by
  unfold guardLifecycleAuthority at h
  split at h
  · next hmay =>
    rw [hordinary] at hmay
    simpa using hmay
  · cases h

/-- What a caller without the master's key passed the guards of an edit with. -/
theorem guardUpdateHook_ordinary (hordinary : key.isMaster = false)
    (h : (guardUpdateHook key model payload).run Op.exec w = (.ok runAsUser, w')) :
    (model.ownerKeyId = some key.id ∨ w.db.ManagesHook key model.id) ∧
      (touchesDispatch payload = true → w.db.ManagesHook key model.id) ∧
      ¬model.Privileged ∧
      normalizeRequestedRunAsUser key payload.runAsUser = .ok runAsUser ∧
      (payload.name.isSome = true → model.ownerKeyId = some key.id) ∧
      payload.ownerKeyId = none := by
  have hmanager : w.db.MayManage key model.id → w.db.ManagesHook key model.id := by
    rintro (hmaster | hmanages)
    · rw [hordinary] at hmaster
      cases hmaster
    · exact hmanages
  simp only [guardUpdateHook, Program.bind_eq, Program.run_bind_eq_ok_iff, Program.run_ofExcept,
    Prod.mk.injEq] at h
  obtain ⟨_, t₁, hmanage, _, t₂, hdispatch, _, t₃, ⟨hprivileged, hsame₃⟩, normalized, t₄,
    ⟨hnormalized, hsame₄⟩, _, t₅, hname, _, t₆, howner, hret⟩ := h
  obtain ⟨hsame₁, hmay⟩ := guardManage_ok.mp hmanage
  subst hsame₁
  obtain rfl := Except.ok.inj (Prod.mk.inj hret).1
  refine ⟨hmay.imp_right hmanager, ?_, guardMasterForPrivilegedHook_ok hordinary hprivileged, ?_,
    ?_, requestedOwner_ordinary hordinary howner⟩
  · intro htouches
    rw [if_pos htouches] at hdispatch
    exact hmanager (guardDispatchConfiguration_ok.mp hdispatch).2
  · exact hnormalized
  · intro hnamed
    rw [if_pos hnamed, Program.run_ofExcept] at hname
    exact lifecycle_ordinary hordinary (Prod.mk.inj hname).1

theorem validateAndSealHmacSecret_unnamed {ctx : Context} {draw : Nat} {mode : AuthMode}
    {existing stored : Option String}
    (h : validateAndSealHmacSecret ctx draw mode none existing = .ok stored) :
    stored = existing := by
  unfold validateAndSealHmacSecret at h
  dsimp only at h
  split at h
  · cases h
  · exact (Except.ok.inj h).symm

theorem normalizeRequestedRunAsUser_unnamed
    (h : normalizeRequestedRunAsUser key none = .ok runAsUser) : runAsUser = none :=
  (Except.ok.inj h).symm

end Guards

/-- The columns an edit sets are those its payload names. -/
theorem keepsUnnamed_hookChanges {payload : UpdateHookPayload} {model : Hook}
    {runAsUser : Option (Option String)} {hmacSecret : Option String} (now : DateTime)
    (hrunAs : payload.runAsUser = none → runAsUser = none)
    (hsecret : payload.hmacSecret = none → hmacSecret = model.hmacSecret) :
    KeepsUnnamed payload model ((hookChanges payload runAsUser hmacSecret now).apply model) := by
  constructor <;> first
    | rfl
    | (intro hnone
       simp [HookUpdate.apply, hookChanges, hnone, hrunAs, hsecret])

/-- In any world, an edit by a caller without the master's key that succeeds:
the hook was not elevated, and the caller owned or managed it; it managed it if
the edit names what is run, and owned it if the edit names it anew. The row has
its owner still and is not elevated, keeps what the edit does not name, and is
the only one written. -/
theorem update_authorised (ctx : Context) (key : ApiKey) (identifier : String)
    (payload : UpdateHookPayload) (w w' : World) (detail : HookDetail)
    (hordinary : key.isMaster = false)
    (hrun : (updateHook ctx key identifier payload).run Op.exec w = (.ok detail, w')) :
    ∃ model updated u, w.db.resolveLive identifier = some model ∧ ¬model.Privileged ∧
      (model.ownerKeyId = some key.id ∨ w.db.ManagesHook key model.id) ∧
      (payload.scriptPath.isSome ∨ payload.runAsUser.isSome ∨ payload.argsTemplate.isSome →
        w.db.ManagesHook key model.id) ∧
      (payload.name.isSome = true → model.ownerKeyId = some key.id) ∧
      w'.db.hooks = w.db.hooks.map (fun h => if h.id == model.id then HookUpdate.apply u h else h) ∧
      updated = u.apply model ∧ updated.ownerKeyId = model.ownerKeyId ∧ ¬updated.Privileged ∧
      KeepsUnnamed payload model updated := by
  obtain ⟨model, runAsUser, hmacSecret, hmodel, hguard, hsecret, hedited, -⟩ := updateHook_ok hrun
  obtain ⟨hmay, hdispatch, hplain, hnormalized, hname, howner⟩ :=
    guardUpdateHook_ordinary hordinary hguard
  have hkeeps : KeepsUnnamed payload model
      ((hookChanges payload runAsUser hmacSecret (ctx.draws.now 0)).apply model) := by
    refine keepsUnnamed_hookChanges _ (fun hnone => ?_) (fun hnone => ?_)
    · rw [hnone] at hnormalized
      exact normalizeRequestedRunAsUser_unnamed hnormalized
    · rw [hnone] at hsecret
      exact validateAndSealHmacSecret_unnamed hsecret
  refine ⟨model, _, _, hmodel, hplain, hmay, ?_, hname, hedited.hooks, rfl,
    hkeeps.ownerKeyId howner,
    ?_, hkeeps⟩
  · intro htouches
    refine hdispatch ?_
    simpa [touchesDispatch, or_assoc] using htouches
  · cases hset : runAsUser with
    | none =>
      change ¬(Executor.effectiveRunAsUser model.runAsUser ≠ none)
      exact hplain
    | some stored =>
      change ¬(Executor.effectiveRunAsUser stored ≠ none)
      rw [normalizeRequestedRunAsUser_plain hordinary hnormalized hset]
      exact fun hne => hne rfl

section Maker

open Sample

/-- The maker of a hook opens it to everybody, as its owner. -/
theorem update_authorised_maker :
    ∃ (w' : World) (updated : Hook), w'.db.hooks = [updated] ∧ updated.ownerKeyId = some maker.id ∧
      ¬updated.Privileged ∧ KeepsUnnamed openingEdit makerHook updated := by
  have hserved : ((updateHook (ctx 3) maker "deploy" openingEdit).run Op.exec
      withOwned).1.toOption.isSome = true := by decide
  obtain ⟨detail, hdetail⟩ := exists_ok hserved
  obtain ⟨model, updated, u, hmodel, -, -, -, -, hrows, hupdated, howner, hplain, hkeeps⟩ :=
    update_authorised (ctx 3) maker "deploy" openingEdit withOwned _ detail rfl
      hdetail
  obtain rfl : makerHook = model := by
    have hfound : withOwned.db.resolveLive "deploy" = some makerHook := by decide
    exact Option.some.inj (hfound.symm.trans hmodel)
  exact ⟨_, updated, hrows.trans (by rw [hupdated]; rfl), howner, hplain, hkeeps⟩

end Maker

end HookExecutor
