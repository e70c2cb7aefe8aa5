import HookExecutor.Verification.HookEffects
import HookExecutor.Verification.Runs
import HookExecutor.Verification.Sample

/-!
# Taking over a hook

What a key that is not the master can do to a hook it may not edit. Every route
asks the guards but one: a deletion resolves the hooks of the keys it removes,
and whoever may delete the keys may hand their hooks on or trash them, those
that run as another account included.
-/

namespace HookExecutor

/-- The request is not one the master is let through with. -/
def NotByMaster : RequestCondition := fun w ctx clock req =>
  ∀ a w₁ key, (authenticate ctx clock req).run Op.exec w = (.ok a, w₁) →
    a.caller = some key → key.isMaster = false

/-- A request lets a key delete another, with the hooks of its subtree resolved
as the map says. -/
def DeletesBy (w : World) (ctx : Context) (clock : AuthClock) (req : Request) (key : ApiKey)
    (id : Uuid) (resolutions : List (Uuid × EntityResolution)) : Prop :=
  ∃ payload w₁ target,
    (authenticate ctx clock req).run Op.exec w = (.ok (.admin key (.deleteApiKey id payload)), w₁) ∧
      payload.resolutions = resolutions ∧ w.db.Deletes key id resolutions target

/-- The hook lies in the trash, where the key has put it at this very time. -/
def Hook.TrashedBy (hook : Hook) (key : ApiKey) (now : DateTime) : Prop :=
  hook.isDeleted = true ∧ hook.deletedAt = some now ∧
    hook.deletedBy = some (Uuid.toText key.id) ∧ hook.updatedAt = now

section Takeover

variable {state : AppState} {w : World} {ctx : Context} {clock : AuthClock} {req : Request}
  {key : ApiKey} {h h' : Hook}

/-- A request that is not the master's leaves the hooks and their parameters
alone, or makes one step. -/
theorem serve_hookStep (hsound : w.Sound) (hby : NotByMaster w ctx clock req) :
    let after := ((serve ctx clock req).run Op.exec w).2.db
    after.hooks = w.db.hooks ∧ after.hookParameters = w.db.hookParameters ∨
      ∃ key request w₁, key.isMaster = false ∧
        (authenticate ctx clock req).run Op.exec w = (.ok (.admin key request), w₁) ∧
        HookStep key (ctx.draws.now 0) request w.db after.hooks ∧
        ParameterStep key w.db after.hookParameters := by
  rcases serve_agree_or_admin ctx clock req w with
    ⟨-, hagree⟩ | ⟨key, request, w₁, hauth, hdb, hserved⟩
  · exact .inl ⟨hagree .hooks (by decide), hagree .hookParameters (by decide)⟩
  · have hwf : w₁.db.WellFormed := hdb ▸ hsound.wellFormed
    refine .inr ⟨key, request, w₁, hby _ _ _ hauth rfl, hauth, ?_⟩
    rw [hserved, ← hdb]
    exact ⟨handleAdmin_hookStep ctx request hwf, handleAdmin_parameterStep ctx request hwf⟩

/-- A key that is not the master deletes below itself. -/
theorem Database.Deletes.below {db : Database} {id : Uuid} {target : ApiKey}
    {resolutions : List (Uuid × EntityResolution)} (hdeletes : db.Deletes key id resolutions target)
    (hordinary : key.isMaster = false) : db.Below key.id id := by
  obtain ⟨-, rfl⟩ := apiKeyById_mem hdeletes.found
  rcases hdeletes.seen with hmaster | hself | hbelow
  · simp [hmaster] at hordinary
  · exact absurd hself.symm hdeletes.other
  · exact (mem_descendants.mp hbelow).2

/-- What a deletion that goes ahead leaves of the three tables. -/
theorem DeletesBy.after {id : Uuid} {resolutions : List (Uuid × EntityResolution)}
    (hsound : w.Sound) (hdeletes : DeletesBy w ctx clock req key id resolutions) :
    let after := ((serve ctx clock req).run Op.exec w).2.db
    after.hooks = w.db.hooks.map (settled key (ctx.draws.now 0) resolutions) ∧
      after.apiKeys = w.db.apiKeys.filter (fun k => k.id ∉ w.db.subtree id) ∧
      after.hookParameters = w.db.hookParameters := by
  obtain ⟨payload, w₁, target, hauth, rfl, hgoes⟩ := hdeletes
  obtain ⟨hdb, hsound₁, -⟩ := hsound.authenticated hauth
  have hserved : ((serve ctx clock req).run Op.exec w).2.db =
      ((deleteApiKey ctx key id payload).run Op.exec w₁).2.db := by
    rw [run_serve hauth]
    refine congrArg (fun out : Except AppError Response × World => out.2.db)
      (Program.run_map Response.admin _ w₁) |>.trans ?_
    exact congrArg (fun out : Except AppError AdminResponse × World => out.2.db)
      (Program.run_map (fun _ => AdminResponse.done) _ w₁)
  rw [hserved, ← hdb]
  rcases deleteApiKey_outcome ctx key id payload hsound₁.wellFormed with
    ⟨-, -, hleft⟩ | ⟨hrefused, -⟩
  · exact hleft
  · exact absurd (hdb.symm ▸ hgoes) (hrefused target)

/-- Settling a hook by an entry of the map moves it, unless the caller had
trashed it just so. -/
theorem resolutionUpdate_apply_eq {id : Uuid} {target : ApiKey} {r : EntityResolution}
    {resolutions : List (Uuid × EntityResolution)} {now : DateTime} (hwf : w.db.WellFormed)
    (hdeletes : w.db.Deletes key id resolutions target) (hh : h ∈ w.db.hooks)
    (hentry : (h.id, r) ∈ resolutions) :
    (resolutionUpdate key now r).apply h = h ↔ r = .delete ∧ h.TrashedBy key now := by
  cases r with
  | delete =>
    constructor
    · intro heq
      exact ⟨rfl, (congrArg Hook.isDeleted heq).symm, (congrArg Hook.deletedAt heq).symm,
        (congrArg Hook.deletedBy heq).symm, (congrArg Hook.updatedAt heq).symm⟩
    · rintro ⟨-, hdeleted, hat, hby, hupdated⟩
      calc (resolutionUpdate key now .delete).apply h
        _ = { h with
              isDeleted := true
              deletedAt := some now
              deletedBy := some (Uuid.toText key.id)
              updatedAt := now } := rfl
        _ = h := by rw [← hdeleted, ← hat, ← hby, ← hupdated]
  | reassign heir =>
    obtain ⟨hout, -⟩ := hdeletes.heirs _ hentry heir rfl
    obtain ⟨g, hg, hid, owner, hswept, howned⟩ :=
      (hdeletes.total h.id).mp (List.mem_map_of_mem hentry)
    obtain rfl := hwf.hook_eq_of_id hg hh hid
    refine iff_of_false (fun heq => hout ?_) (by simp)
    have hsame : some heir = g.ownerKeyId := congrArg Hook.ownerKeyId heq
    rw [howned] at hsame
    rwa [Option.some.inj hsame]

/-- In any reachable world, a request that is not the master's leaves a hook
that runs as another account as it was, its parameters included, exactly if it
is no deletion that goes ahead with an entry for the hook. (An entry that
trashes a hook the caller had trashed at that very time writes what is there.) -/
theorem privileged_hook_untouched (hw : Reachable state w) (hby : NotByMaster w ctx clock req)
    (hh : h ∈ w.db.hooks) (hprivileged : h.Privileged) :
    let after := ((serve ctx clock req).run Op.exec w).2.db
    (h ∈ after.hooks ∧ after.parametersOf h.id = w.db.parametersOf h.id) ↔
      ∀ key id resolutions r, DeletesBy w ctx clock req key id resolutions →
        (h.id, r) ∈ resolutions → r = .delete ∧ h.TrashedBy key (ctx.draws.now 0) := by
  have hsound := hw.sound
  have hrow : ∀ {g : Hook}, g ∈ w.db.hooks → g.id = h.id → g = h := fun hg heq =>
    hsound.wellFormed.hook_eq_of_id hg hh heq
  dsimp only
  by_cases hgoes : ∃ key id resolutions, DeletesBy w ctx clock req key id resolutions
  · obtain ⟨key, id, resolutions, hdeletes⟩ := hgoes
    have hunique : ∀ {key' id' resolutions'}, DeletesBy w ctx clock req key' id' resolutions' →
        key' = key ∧ id' = id ∧ resolutions' = resolutions := by
      rintro key' id' resolutions' ⟨payload', w', target', hauth', rfl, -⟩
      obtain ⟨payload, w₁, target, hauth, rfl, -⟩ := hdeletes
      rw [hauth] at hauth'
      cases hauth'
      exact ⟨rfl, rfl, rfl⟩
    obtain ⟨hhooks, -, hparameters⟩ := hdeletes.after hsound
    have hsettled : h ∈ ((serve ctx clock req).run Op.exec w).2.db.hooks ↔
        settled key (ctx.draws.now 0) resolutions h = h := by
      rw [hhooks]
      constructor
      · intro hmem
        obtain ⟨g, hg, heq⟩ := List.mem_map.mp hmem
        obtain rfl := hrow hg (by rw [← heq, settled_id])
        exact heq
      · exact fun heq => List.mem_map.mpr ⟨h, hh, heq⟩
    have hentries : settled key (ctx.draws.now 0) resolutions h = h ↔ ∀ r,
        (h.id, r) ∈ resolutions → r = .delete ∧ h.TrashedBy key (ctx.draws.now 0) := by
      obtain ⟨payload, w₁, target, -, rfl, hdeletes⟩ := hdeletes
      by_cases hmem : h.id ∈ payload.resolutions.map (·.1)
      · obtain ⟨⟨_, r⟩, hentry, heq⟩ := List.mem_map.mp hmem
        obtain rfl : _ = h.id := heq
        rw [settled_of_mem payload.nodup hentry,
          resolutionUpdate_apply_eq hsound.wellFormed hdeletes hh hentry]
        refine ⟨fun hsame r' hentry' => ?_, fun hall => hall r hentry⟩
        obtain rfl : r = r' := congrArg Prod.snd
          (List.inj_on_of_nodup_map payload.nodup hentry hentry' rfl)
        exact hsame
      · refine iff_of_true (settled_of_notMem hmem) fun r hentry => ?_
        exact absurd (List.mem_map_of_mem hentry) hmem
    rw [hsettled, hentries, Database.parametersOf, hparameters]
    constructor
    · rintro ⟨hall, -⟩ key' id' resolutions' r hdeletes' hentry
      obtain ⟨rfl, rfl, rfl⟩ := hunique hdeletes'
      exact hall r hentry
    · exact fun hall => ⟨fun r => hall key id resolutions r hdeletes, rfl⟩
  · refine iff_of_true ?_ fun key id resolutions r hdeletes =>
      absurd ⟨key, id, resolutions, hdeletes⟩ hgoes
    rcases serve_hookStep hsound hby with
      ⟨hhooks, hparameters⟩ | ⟨key, request, w₁, hordinary, hauth, hstep, hparameters⟩
    · exact ⟨hhooks ▸ hh, by rw [Database.parametersOf, hparameters, Database.parametersOf]⟩
    · refine ⟨?_, hparameters.parametersOf_eq hw.distinctParameters hordinary hh hprivileged⟩
      generalize ((serve ctx clock req).run Op.exec w).2.db.hooks = rows at hstep
      cases hstep with
      | kept => exact hh
      | created row fresh => exact List.mem_append_left _ hh
      | @edited model u mem may moved =>
        have hother : h.id ≠ model.id := by
          intro hid
          obtain rfl := hrow mem hid.symm
          rcases may with hmaster | hnot
          · simp [hmaster] at hordinary
          · exact hnot hprivileged
        exact List.mem_map.mpr ⟨h, hh, by simp [HookUpdate.at_, hother]⟩
      | purged p master => simp [master] at hordinary
      | @resolved id payload target asked deletes =>
        subst asked
        exact absurd ⟨key, id, _, payload, w₁, target, hauth, rfl, deletes⟩ hgoes

end Takeover

section Sample

open Sample

/-- The hook before its owner was deleted. -/
def backupHook : Hook := { deployHook with ownerKeyId := some 201, runAsUser := some "backup" }

/-- The hook after the parent deleted its owner. -/
def takenHook : Hook := { backupHook with ownerKeyId := some 101, updatedAt := (ctx 5).draws.now 0 }

def takeoverRequest : Request := .admin takeoverHttp (.deleteApiKey 201 takeover)

theorem authenticate_takeover :
    (authenticate (ctx 5) clock takeoverRequest).run Op.exec elevated =
      (.ok (.admin parentRow (.deleteApiKey 201 takeover)),
        { elevated with replay := guardAfter [takeoverSeen, daughterSeen] }) :=
  authenticate_admin 5 _ authMiddleware_takeover

theorem notByMaster_takeover : NotByMaster elevated (ctx 5) clock takeoverRequest := by
  intro a w₁ key hauth hcaller
  rw [authenticate_takeover] at hauth
  cases hauth
  cases hcaller
  rfl

theorem serve_takeover_hooks :
    ((serve (ctx 5) clock takeoverRequest).run Op.exec elevated).2.db.hooks = [takenHook] := by
  rw [run_serve authenticate_takeover]
  refine congrArg (fun out : Except AppError Response × World => out.2.db.hooks)
    (Program.run_map Response.admin _ _) |>.trans ?_
  decide

theorem privileged_backup : backupHook.Privileged := by
  unfold Hook.Privileged
  decide

/-- A key that is not the master rewrites a hook that runs as another account. -/
theorem takeover_rewrites_privileged :
    ¬∀ {state : AppState} {w : World} {ctx : Context} {clock : AuthClock} {req : Request}
      {h : Hook}, Reachable state w → NotByMaster w ctx clock req → h ∈ w.db.hooks →
      h.Privileged → let after := ((serve ctx clock req).run Op.exec w).2.db
      h ∈ after.hooks ∧ after.parametersOf h.id = w.db.parametersOf h.id := by
  intro hclaim
  obtain ⟨hkept, -⟩ := hclaim (h := backupHook) reachable_elevated notByMaster_takeover
    (List.mem_singleton_self _) privileged_backup
  rw [serve_takeover_hooks, List.mem_singleton] at hkept
  exact absurd (congrArg Hook.ownerKeyId hkept) (by decide)

theorem privileged_hook_untouched_takeover :
    let after := ((serve (ctx 5) clock takeoverRequest).run Op.exec elevated).2.db
    (backupHook ∈ after.hooks ∧
        after.parametersOf backupHook.id = elevated.db.parametersOf backupHook.id) ↔
      ∀ key id resolutions r,
        DeletesBy elevated (ctx 5) clock takeoverRequest key id resolutions →
        (backupHook.id, r) ∈ resolutions →
        r = .delete ∧ backupHook.TrashedBy key ((ctx 5).draws.now 0) :=
  privileged_hook_untouched reachable_elevated notByMaster_takeover (List.mem_singleton_self _)
    privileged_backup

end Sample

end HookExecutor
