import HookExecutor.Verification.Deletion
import HookExecutor.Verification.Sample

/-!
# The deletion cascade

The contract of a deletion. Lineage is a forest with the master at a root, so
what is swept up is the target and the keys below it, and never the caller or
the master; the map is total and names heirs that survive, so no hook of theirs
is left without an answer.
-/

namespace HookExecutor

/-- What a deletion does, and all that it does but for the audit row: the target
and the keys below it are gone, without the caller or the master among them;
each hook of theirs had its one entry and was trashed, or handed to a key that
is still there; and nothing else moved. -/
structure KeyDeleted (before after : Database) (key : ApiKey) (now : DateTime) (id : Uuid)
    (resolutions : List (Uuid × EntityResolution)) : Prop where
  keys : after.apiKeys.Sublist before.apiKeys
  removed : ∀ k ∈ before.apiKeys, k ∉ after.apiKeys ↔ k.id = id ∨ before.Below id k.id
  caller : key ∈ after.apiKeys
  master : ∀ k ∈ before.apiKeys, k.isMaster = true → k ∈ after.apiKeys
  resolved : ∀ hook ∈ before.hooks, (∃! r, (hook.id, r) ∈ resolutions) ↔
    ∃ owner, hook.ownerKeyId = some owner ∧ (owner = id ∨ before.Below id owner)
  nothingStray : ∀ entry ∈ resolutions, ∃ hook ∈ before.hooks, hook.id = entry.1
  hookIds : after.hookIds = before.hookIds
  trashed : ∀ hook ∈ before.hooks, (hook.id, .delete) ∈ resolutions →
    { hook with isDeleted := true, deletedAt := some now, deletedBy := some (Uuid.toText key.id),
                updatedAt := now } ∈ after.hooks
  handedOn : ∀ hook ∈ before.hooks, ∀ heir, (hook.id, .reassign heir) ∈ resolutions →
    { hook with ownerKeyId := some heir, updatedAt := now } ∈ after.hooks ∧ heir ∈ after.keyIds
  otherHooks : ∀ hook ∈ before.hooks, hook.id ∉ resolutions.map (·.1) → hook ∈ after.hooks
  parameters : after.hookParameters = before.hookParameters
  permissions : after.permissions =
    before.permissions.filter fun p => p.apiKeyId ∉ before.subtree id
  executions : after.executions = before.executions.map fun x =>
    if ∃ gone ∈ before.subtree id, x.apiKeyId = some gone then { x with apiKeyId := none } else x

section Contract

variable {ctx : Context} {key target : ApiKey} {id : Uuid} {w : World}
  {resolutions : List (Uuid × EntityResolution)}

theorem Database.mem_keyIds_of_mem_subtree {db : Database} {root gone : Uuid} {target : ApiKey}
    (hfound : db.apiKeyById root = some target) (h : gone ∈ db.subtree root) :
    gone ∈ db.keyIds := by
  rcases mem_subtree.mp h with rfl | hbelow
  · obtain ⟨hmem, rfl⟩ := apiKeyById_mem hfound
    exact List.mem_map_of_mem hmem
  · exact hbelow.mem_keyIds

theorem World.Sound.keyDeleted (h : w.Sound) (hkey : key ∈ w.db.apiKeys) (now : DateTime)
    (hnodup : (resolutions.map (·.1)).Nodup)
    (hdeletes : w.db.Deletes key id resolutions target)
    (hcaller : key.id ∉ w.db.subtree id) :
    KeyDeleted w.db (w.db.afterDeletion key now id resolutions) key now id resolutions := by
  have hkept : ∀ k ∈ w.db.apiKeys, k ∈ (w.db.afterDeletion key now id resolutions).apiKeys ↔
      k.id ∉ w.db.subtree id := by
    intro k hk
    simp [Database.afterDeletion, Database.deleteApiKeys, ApiKeyCondition.holds, hk]
  have hgone : ∀ gone : Uuid, (w.db.apiKeys.any fun k => k.id == gone &&
      (ApiKeyCondition.idIn (w.db.subtree id)).holds k) = decide (gone ∈ w.db.subtree id) := by
    intro gone
    rw [Bool.eq_iff_iff]
    simp only [List.any_eq_true, Bool.and_eq_true, beq_iff_eq, ApiKeyCondition.holds,
      List.contains_iff_mem, decide_eq_true_eq]
    constructor
    · rintro ⟨k, -, rfl, hmem⟩
      exact hmem
    · intro hmem
      obtain ⟨k, hk, rfl⟩ := List.mem_map.mp
        (Database.mem_keyIds_of_mem_subtree hdeletes.found hmem)
      exact ⟨k, hk, rfl, hmem⟩
  have hhook : ∀ hook ∈ w.db.hooks, settled key now resolutions hook ∈
      (w.db.afterDeletion key now id resolutions).hooks := fun hook hhook =>
    List.mem_map_of_mem hhook
  constructor
  · exact List.filter_sublist
  · intro k hk
    rw [hkept k hk, not_not, Database.mem_subtree]
  · exact (hkept key hkey).mpr hcaller
  · intro k hk hmaster
    refine (hkept k hk).mpr fun hmem => ?_
    obtain ⟨htarget, rfl⟩ := Database.apiKeyById_mem hdeletes.found
    have := h.not_master_of_mem_subtree htarget hdeletes.ordinary hk hmem
    simp [hmaster] at this
  · intro hook hmem
    have huniq : (∃! r, (hook.id, r) ∈ resolutions) ↔ hook.id ∈ resolutions.map (·.1) := by
      constructor
      · rintro ⟨r, hr, -⟩
        exact List.mem_map_of_mem hr
      · intro hid
        obtain ⟨⟨_, r⟩, hr, rfl⟩ := List.mem_map.mp hid
        exact ⟨r, hr, fun r' hr' => (Prod.mk.inj (List.inj_on_of_nodup_map hnodup hr' hr rfl)).2⟩
    rw [huniq, hdeletes.total]
    constructor
    · rintro ⟨hook', hmem', hid, owner, howner, howned⟩
      obtain rfl := h.wellFormed.hook_eq_of_id hmem' hmem hid
      exact ⟨owner, howned, Database.mem_subtree.mp howner⟩
    · rintro ⟨owner, howned, howner⟩
      exact ⟨hook, hmem, rfl, owner, Database.mem_subtree.mpr howner, howned⟩
  · intro entry hentry
    obtain ⟨hook, hhook, hid, -⟩ := (hdeletes.total entry.1).mp (List.mem_map_of_mem hentry)
    exact ⟨hook, hhook, hid⟩
  · simp [Database.afterDeletion, Database.deleteApiKeys, Database.hookIds]
  · intro hook hmem hentry
    have := hhook hook hmem
    rwa [settled_of_mem hnodup hentry] at this
  · intro hook hmem heir hentry
    have hsettled := hhook hook hmem
    rw [settled_of_mem hnodup hentry] at hsettled
    refine ⟨hsettled, ?_⟩
    obtain ⟨hout, hexists⟩ := hdeletes.heirs _ hentry heir rfl
    obtain ⟨k, hk, rfl⟩ := List.mem_map.mp hexists
    exact List.mem_map_of_mem ((hkept k hk).mpr hout)
  · intro hook hmem hnone
    have := hhook hook hmem
    rwa [settled_of_notMem hnone] at this
  · rfl
  · simp only [Database.afterDeletion, Database.deleteApiKeys, hgone, decide_not]
  · simp only [Database.afterDeletion, Database.deleteApiKeys, hgone]
    refine List.map_congr_left fun x _ => ?_
    cases hx : x.apiKeyId with
    | none => simp
    | some keyId => simp

/-- In any reachable world, a deletion does all of it or is refused and changes
nothing, as long as the identifier drawn for the audit row is new. -/
theorem deletion_cascades {state : AppState} {w₁ : World} (hw : Reachable state w)
    {clock : AuthClock} {http : HttpRequest} {payload : DeleteApiKeyPayload}
    (hauth : (authenticate ctx clock (.admin http (.deleteApiKey id payload))).run Op.exec w =
      (.ok (.admin key (.deleteApiKey id payload)), w₁))
    (hfresh : ∀ l ∈ w.db.auditLogs, l.id ≠ ctx.draws.uuid 1) :
    match (serve ctx clock (.admin http (.deleteApiKey id payload))).run Op.exec w with
    | (.ok _, w') => KeyDeleted w.db w'.db key (ctx.draws.now 0) id payload.resolutions
    | (.error _, w') => w'.db = w.db := by
  obtain ⟨hdb, hsound, hmem⟩ := hw.sound.authenticated hauth
  have hkey := hmem key rfl
  rw [run_serve_admin hauth]
  simp only [handleAdmin, Program.run_map]
  rw [← hdb] at hfresh ⊢
  by_cases hgoes : ∃ target, w₁.db.Deletes key id payload.resolutions target
  · obtain ⟨target, hdeletes⟩ := hgoes
    obtain ⟨details, hrun⟩ := deleteApiKey_run hsound hkey hfresh hdeletes
    have hdeleted := hsound.keyDeleted hkey (ctx.draws.now 0) payload.nodup hdeletes
      (hsound.caller_outlives hkey hdeletes)
    rw [hrun]
    -- the audit row is in a table the contract does not speak of
    exact { hdeleted with }
  · obtain ⟨e, hrun⟩ := deleteApiKey_refused ctx (not_exists.mp hgoes)
    rw [hrun]
    rfl

end Contract

section Sample

open Sample

/-- The master deletes the maker and keeps its hook. -/
def inheriting : DeleteApiKeyPayload := ⟨[(201, .reassign 1)], by decide⟩

def bequest : Request := .admin (bearer "/keys" masterKey) (.deleteApiKey 101 inheriting)

theorem deletion_cascades_maker :
    KeyDeleted withOwned.db (serveAt 3 bequest withOwned).db
      Sample.masterRow (epochSeconds * nanosPerSecond) 101 [(201, .reassign 1)] := by
  have hauth : (authenticate (ctx 3) clock bequest).run Op.exec withOwned =
      (.ok (.admin Sample.masterRow (.deleteApiKey 101 inheriting)), withOwned) :=
    authenticate_master 3 "/keys" _ rfl rfl
  have hok : ((serve (ctx 3) clock bequest).run Op.exec withOwned).1.toOption.isSome = true := by
    rw [serve, Program.bind_eq, Program.run_bind_ok hauth]
    decide
  obtain ⟨r, hserved⟩ := exists_ok hok
  have hcascade := deletion_cascades reachable_withOwned hauth (by decide)
  change match (serve (ctx 3) clock bequest).run Op.exec withOwned with
    | (.ok _, w') => KeyDeleted withOwned.db w'.db Sample.masterRow (epochSeconds * nanosPerSecond)
        101 inheriting.resolutions
    | (.error _, w') => w'.db = withOwned.db at hcascade
  rw [hserved] at hcascade
  exact hcascade

end Sample

end HookExecutor
