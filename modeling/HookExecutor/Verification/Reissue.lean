import HookExecutor.Verification.Amplification

/-!
# Reissuing credentials

Whom a caller may ask for a fresh credential of: itself and its descendants,
never the master. A reissue moves no authority; but a descendant may hold verbs
its ancestor does not, and the right to create hooks, since those are given by
whoever manages the hook and by the master, whatever the lineage.
-/

namespace HookExecutor

/-- The key a request reissues a credential of. -/
def AdminRequest.reissues : AdminRequest → Option Uuid
  | .rotateApiKey id => some id
  | .regenerateKey id => some id
  | .regenerateSecret id => some id
  | _ => none

/-- The same keys hold the same scopes and verbs, under the same creators. -/
structure SameAuthority (a b : Database) : Prop where
  scopes : ∀ T s, b.HoldsScope T s ↔ a.HoldsScope T s
  verbs : ∀ T v h, b.Holds T v h ↔ a.Holds T v h
  lineage : ∀ p c, b.Child p c ↔ a.Child p c

theorem sameAuthority_refl (db : Database) : SameAuthority db db :=
  ⟨fun _ _ => .rfl, fun _ _ _ => .rfl, fun _ _ => .rfl⟩

theorem SameAuthority.trans {a b c : Database} (hab : SameAuthority a b)
    (hbc : SameAuthority b c) : SameAuthority a c where
  scopes T s := (hbc.scopes T s).trans (hab.scopes T s)
  verbs T v h := (hbc.verbs T v h).trans (hab.verbs T v h)
  lineage p c := (hbc.lineage p c).trans (hab.lineage p c)

/-- Authority is a matter of the key and permission tables. -/
theorem sameAuthority_of_agree {a b : Database} (hkeys : Agree .apiKeys a b)
    (hperms : Agree .permissions a b) : SameAuthority a b := by
  cases a
  cases b
  cases hkeys
  cases hperms
  exact ⟨fun _ _ => .rfl, fun _ _ _ => .rfl, fun _ _ => .rfl⟩

/-- Writing credentials moves no authority. -/
theorem sameAuthority_updateApiKey (db : Database) (id : Uuid) {u : ApiKeyUpdate}
    (hkeys : u.canManageKeys = none) (hhooks : u.canManageHooks = none) :
    SameAuthority db (db.updateApiKey id u).2 := by
  have hrow : ∀ k : ApiKey, (if k.id == id then u.apply k else k).id = k.id ∧
      (if k.id == id then u.apply k else k).parentKeyId = k.parentKeyId ∧
      ∀ s, (if k.id == id then u.apply k else k).has s = k.has s := by
    intro k
    by_cases hk : k.id = id
    · refine ⟨by simp [hk], by simp [hk], fun s => ?_⟩
      cases s <;> simp [hk, ApiKey.has, ApiKeyUpdate.apply, hkeys, hhooks]
    · simp [hk]
  unfold Database.updateApiKey
  split
  · exact sameAuthority_refl db
  · split
    · exact sameAuthority_refl db
    · refine ⟨fun T s => ?_, fun _ _ _ => .rfl, fun p c => ?_⟩
      · constructor
        · rintro ⟨key, hkey, rfl, hs⟩
          obtain ⟨k, hk, rfl⟩ := List.mem_map.mp hkey
          rw [(hrow k).2.2] at hs
          exact ⟨k, hk, (hrow k).1.symm, hs⟩
        · rintro ⟨k, hk, rfl, hs⟩
          exact ⟨_, List.mem_map_of_mem hk, (hrow k).1, ((hrow k).2.2 s).trans hs⟩
      · constructor
        · rintro ⟨key, hkey, rfl, hp⟩
          obtain ⟨k, hk, rfl⟩ := List.mem_map.mp hkey
          rw [(hrow k).2.1] at hp
          exact ⟨k, hk, (hrow k).1.symm, hp⟩
        · rintro ⟨k, hk, rfl, hp⟩
          exact ⟨_, List.mem_map_of_mem hk, (hrow k).1, (hrow k).2.1.trans hp⟩

section Reissue

variable {w w' : World} {key target : ApiKey} {id : Uuid}

theorem loadReissuableKey_ok {action : String}
    (h : (loadReissuableKey key id action).run Op.exec w = (.ok target, w')) :
    w' = w ∧ w.db.apiKeyById id = some target ∧ w.db.SeesInFull key target ∧
      (key.isMaster = true ∨ key.canManageKeys = true) ∧ target.isMaster = false := by
  simp only [loadReissuableKey, Program.bind_eq, Program.pure_eq, Program.run_bind_eq_ok_iff,
    Program.run_ofExcept, Program.run_pure, Prod.mk.injEq] at h
  obtain ⟨_, _, ⟨hmanager, rfl⟩, found, _, hload, _, _, ⟨-, rfl⟩, _, _, ⟨hrefuse, rfl⟩, hret⟩ := h
  obtain ⟨rfl, hfound, hsees⟩ := loadAdministrableKey_ok.mp hload
  cases hret.1
  exact ⟨hret.2.symm, hfound, hsees, guardKeyManager_ok.mp hmanager,
    refuseMasterLifecycleAction_ok hrefuse⟩

/-- What a reissue request went through if it succeeded, and what it left. -/
theorem handleAdmin_reissue_ok {ctx : Context} {request : AdminRequest} {r : AdminResponse}
    (hreissue : request.reissues = some id)
    (hok : (handleAdmin ctx key request).run Op.exec w = (.ok r, w')) :
    (∃ target, w.db.apiKeyById id = some target ∧ w.db.SeesInFull key target ∧
      (key.isMaster = true ∨ key.canManageKeys = true) ∧ target.isMaster = false) ∧
    SameAuthority w.db w'.db := by
  have hwrite : ∀ {u : ApiKeyUpdate} {t t' : World} {a : ApiKey},
      u.canManageKeys = none → u.canManageHooks = none →
      (sql (.updateApiKey id u)).run Op.exec t = (.ok a, t') → SameAuthority t.db t'.db := by
    intro u t t' a hkeys hhooks hrun
    have hsnd := run_sql_snd (.updateApiKey id u) t
    rw [hrun] at hsnd
    obtain rfl : t' = _ := hsnd
    exact sameAuthority_updateApiKey t.db id hkeys hhooks
  have hafter : ∀ {α : Type} {p : Handler α} {t t' : World} {a : α},
      p.Emits (WritesAmong [.insertAuditLog]) → p.run Op.exec t = (.ok a, t') →
      SameAuthority t.db t'.db := by
    intro α p t t' a hp hrun
    have hkeys := Handler.run_agree (t := .apiKeys) hp (by decide) t
    have hperms := Handler.run_agree (t := .permissions) hp (by decide) t
    rw [hrun] at hkeys hperms
    exact sameAuthority_of_agree hkeys hperms
  cases request with
  | rotateApiKey target =>
    cases hreissue
    simp only [handleAdmin, rotateApiKey, Program.map_eq, Program.bind_eq,
      Program.run_bind_eq_ok_iff, Program.run_ofExcept, Program.run_pure, Prod.mk.injEq] at hok
    obtain ⟨_, _, ⟨found, _, hload, _, _, ⟨-, rfl⟩, _, _, hupdate, _, _, hlog, -, rfl⟩, -, rfl⟩ :=
      hok
    obtain ⟨rfl, hfacts⟩ := loadReissuableKey_ok hload
    exact ⟨⟨found, hfacts⟩, (hwrite rfl rfl hupdate).trans
      (hafter (createAuditLog_writes (by decide) _ _ _ _ _ _) hlog)⟩
  | regenerateKey target =>
    cases hreissue
    simp only [handleAdmin, regenerateKey, Program.map_eq, Program.bind_eq,
      Program.run_bind_eq_ok_iff, Program.pure_eq, Program.run_pure, Prod.mk.injEq] at hok
    obtain ⟨_, _, ⟨found, _, hload, _, _, hupdate, _, _, hlog, -, rfl⟩, -, rfl⟩ := hok
    obtain ⟨rfl, hfacts⟩ := loadReissuableKey_ok hload
    exact ⟨⟨found, hfacts⟩, (hwrite rfl rfl hupdate).trans
      (hafter (createAuditLog_writes (by decide) _ _ _ _ _ _) hlog)⟩
  | regenerateSecret target =>
    cases hreissue
    simp only [handleAdmin, regenerateSecret, Program.map_eq, Program.bind_eq,
      Program.run_bind_eq_ok_iff, Program.run_ofExcept, Program.run_pure, Prod.mk.injEq] at hok
    obtain ⟨_, _, ⟨found, _, hload, _, _, ⟨-, rfl⟩, _, _, hupdate, _, _, hlog, -, rfl⟩, -, rfl⟩ :=
      hok
    obtain ⟨rfl, hfacts⟩ := loadReissuableKey_ok hload
    exact ⟨⟨found, hfacts⟩, (hwrite rfl rfl hupdate).trans
      (hafter (createAuditLog_writes (by decide) _ _ _ _ _ _) hlog)⟩
  | _ => cases hreissue

end Reissue

/-- In any reachable world, a reissue by a key that is not the master succeeds
only for the caller itself or a key below it, which is not the master either;
the caller manages keys, so it holds every scope of that key but perhaps the
right to create hooks; and the reissue itself moves no authority and no
lineage. -/
theorem reissue_within_subtree {state : AppState} {w w₁ w' : World} (hw : Reachable state w)
    {ctx : Context} {clock : AuthClock} {http : HttpRequest} {request : AdminRequest}
    {key : ApiKey} {id : Uuid} {r : Response}
    (hauth : (authenticate ctx clock (.admin http request)).run Op.exec w =
      (.ok (.admin key request), w₁))
    (hkey : key.isMaster = false) (hreissue : request.reissues = some id)
    (hok : (serve ctx clock (.admin http request)).run Op.exec w = (.ok r, w')) :
    (id = key.id ∨ w.db.Below key.id id) ∧ ¬w.db.HoldsScope id .master ∧
      w.db.HoldsScope key.id .manageKeys ∧
      (∀ s, s ≠ .manageHooks → w.db.HoldsScope id s → w.db.HoldsScope key.id s) ∧
      SameAuthority w.db w'.db := by
  have hsound := hw.sound
  have hmem := hsound.caller_mem hauth rfl
  have hdb : w₁.db = w.db := authenticate_db hauth
  rw [run_serve hauth] at hok
  simp only [Authenticated.handle, Program.map_eq, Program.run_bind_eq_ok_iff,
    Program.run_pure, Prod.mk.injEq] at hok
  obtain ⟨_, _, hadmin, -, rfl⟩ := hok
  obtain ⟨⟨target, hfound, hsees, hmanager, hplain⟩, hsame⟩ :=
    handleAdmin_reissue_ok hreissue hadmin
  rw [hdb] at hfound hsees hsame
  obtain ⟨htarget, rfl⟩ := Database.apiKeyById_mem hfound
  have hmanages : w.db.HoldsScope key.id .manageKeys :=
    ⟨key, hmem, rfl, hmanager.resolve_left (by simp [hkey])⟩
  have hnotMaster : ¬w.db.HoldsScope target.id .master := by
    rintro ⟨k, hk, hkid, hmaster⟩
    obtain rfl := hsound.wellFormed.eq_of_id hk htarget hkid
    simp [ApiKey.has, hplain] at hmaster
  refine ⟨?_, hnotMaster, hmanages, ?_, hsame⟩
  · rcases hsees with hmaster | hself | hbelow
    · simp [hkey] at hmaster
    · exact .inl hself.symm
    · exact .inr (Database.mem_descendants.mp hbelow).2
  · intro s hs hholds
    cases s with
    | master => exact absurd hholds hnotMaster
    | manageKeys => exact hmanages
    | manageHooks => exact absurd rfl hs

section Rotation

open Sample

/-- The parent asks for a fresh credential of its daughter. -/
def rotation : Request :=
  .admin (signed (daughterPath ++ "/rotate") "" rotateSignature) (.rotateApiKey 201)

private theorem authenticate_rotation :
    (authenticate (ctx 5) clock rotation).run Op.exec raised =
      (.ok (.admin parentRow (.rotateApiKey 201)),
        { raised with replay := guardAfter [rotateSeen, daughterSeen] }) :=
  authenticate_admin 5 _ authMiddleware_rotate

private theorem serve_rotation :
    ∃ r, (serve (ctx 5) clock rotation).run Op.exec raised =
      (.ok r, ((serve (ctx 5) clock rotation).run Op.exec raised).2) := by
  refine exists_ok ?_
  rw [run_serve authenticate_rotation]
  decide

/-- The parent is handed its daughter's credential. -/
theorem reissue_within_subtree_rotation :
    raised.db.Below 101 201 ∧ raised.db.HoldsScope 101 .manageKeys := by
  obtain ⟨r, hserved⟩ := serve_rotation
  obtain ⟨hwithin, -, hmanages, -⟩ := reissue_within_subtree reachable_raised
    authenticate_rotation rfl rfl hserved
  exact ⟨hwithin.resolve_left fun h => absurd (congrArg Fin.val h) (by decide), hmanages⟩

/-- A reissue may hand its caller more than the caller holds: the daughter may
execute a hook that its parent may not. -/
theorem reissue_amplifies :
    ¬∀ {state : AppState} {w w₁ w' : World}, Reachable state w →
      ∀ {ctx : Context} {clock : AuthClock} {http : HttpRequest} {request : AdminRequest}
        {key : ApiKey} {id : Uuid} {r : Response},
      (authenticate ctx clock (.admin http request)).run Op.exec w =
        (.ok (.admin key request), w₁) →
      key.isMaster = false → request.reissues = some id →
      (serve ctx clock (.admin http request)).run Op.exec w = (.ok r, w') →
      (∀ s, w.db.HoldsScope id s → w.db.HoldsScope key.id s) ∧
        ∀ v h, w.db.Holds id v h → w.db.Holds key.id v h := by
  intro hclaim
  obtain ⟨r, hserved⟩ := serve_rotation
  obtain ⟨-, hverbs⟩ := hclaim reachable_raised authenticate_rotation rfl rfl hserved
  have hdaughter : raised.db.Holds 201 .execute 301 := by decide
  have hparent : ¬raised.db.Holds 101 .execute 301 := by decide
  exact hparent (hverbs .execute 301 hdaughter)

end Rotation

end HookExecutor
