import HookExecutor.Verification.HookEffects
import HookExecutor.Verification.KeyEffects
import HookExecutor.Verification.Runs
import HookExecutor.Verification.Sample

/-!
# Owners that exist

The owner column has no foreign key. Creating a hook and editing it keep it
pointing at a key that exists, and so does a deletion that hands its hooks on;
one that trashes a hook leaves it with the owner it removes.
-/

namespace HookExecutor

/-- Every owner a hook names has a row. -/
def Database.NoDanglingOwner (db : Database) : Prop :=
  ∀ h ∈ db.hooks, ∀ owner ∈ h.ownerKeyId, owner ∈ db.keyIds

/-- No deletion that goes ahead trashes a hook. -/
def TrashesNothing : RequestCondition := fun w ctx clock req =>
  ∀ key id payload w₁, (authenticate ctx clock req).run Op.exec w =
      (.ok (.admin key (.deleteApiKey id payload)), w₁) →
    (∃ target, w.db.Deletes key id payload.resolutions target) →
    ∀ entry ∈ payload.resolutions, entry.2 ≠ .delete

/-- Authentication hands on the request it was given. -/
theorem authenticate_admin_request {ctx : Context} {clock : AuthClock} {http : HttpRequest}
    {request request' : AdminRequest} {key : ApiKey} {w w₁ : World}
    (h : (authenticate ctx clock (.admin http request)).run Op.exec w =
      (.ok (.admin key request'), w₁)) : request' = request := by
  simp only [authenticate, Program.map_eq, Program.run_bind_eq_ok_iff, Program.run_pure] at h
  obtain ⟨_, _, -, hret⟩ := h
  cases hret
  rfl

/-! ### One request -/

section Step

variable {key : ApiKey} {request : AdminRequest} {now : DateTime} {db after : Database}

/-- A request that is no deletion leaves every key where it was. -/
theorem KeyStep.keyIds_subset (hstep : KeyStep key request db after.apiKeys)
    (hother : ∀ id payload, request ≠ .deleteApiKey id payload) : db.keyIds ⊆ after.keyIds := by
  change db.keyIds ⊆ after.apiKeys.map (·.id)
  generalize after.apiKeys = rows at hstep
  cases hstep with
  | kept => exact List.Subset.refl _
  | created row => exact List.map_subset _ (List.subset_append_left _ _)
  | @edited target u =>
    have hids : (db.apiKeys.map (u.at_ target.id)).map (·.id) = db.keyIds := by
      rw [List.map_map]
      refine List.map_congr_left fun k _ => ?_
      simp only [Function.comp_apply, ApiKeyUpdate.at_]
      split <;> rfl
    rw [hids]
    exact List.Subset.refl _
  | removed asked => exact absurd asked (hother _ _)

theorem HookStep.noDanglingOwner (hstep : HookStep key now request db after.hooks)
    (hother : ∀ id payload, request ≠ .deleteApiKey id payload) (hkey : key ∈ db.apiKeys)
    (hkeys : db.keyIds ⊆ after.keyIds) (h : db.NoDanglingOwner) : after.NoDanglingOwner := by
  intro g hg owner howner
  generalize hrows : after.hooks = rows at hstep
  rw [hrows] at hg
  refine hkeys ?_
  cases hstep with
  | kept => exact h g hg owner howner
  | created row fresh owned =>
    rcases List.mem_append.mp hg with hg | hg
    · exact h g hg owner howner
    · rw [List.mem_singleton.mp hg, owned] at howner
      obtain rfl := Option.mem_some_iff.mp howner
      exact List.mem_map_of_mem hkey
  | @edited model u mem may moved =>
    obtain ⟨g', hg', rfl⟩ := List.mem_map.mp hg
    have hkept : g'.ownerKeyId = some owner → owner ∈ db.keyIds := h g' hg' owner
    unfold HookUpdate.at_ at howner
    split at howner
    · rcases moved with hnone | ⟨-, owner', hexists, hsome⟩
      · exact hkept (by simpa [HookUpdate.apply, hnone] using howner)
      · obtain rfl : owner' = owner := by simpa [HookUpdate.apply, hsome] using howner
        exact hexists
    · exact hkept howner
  | purged p => exact h g (List.mem_filter.mp hg).1 owner howner
  | resolved asked => exact absurd asked (hother _ _)

end Step

section Deletion

variable {key target : ApiKey} {id : Uuid} {resolutions : List (Uuid × EntityResolution)}
  {now : DateTime} {db after : Database}

/-- Once the subtree is gone, owners dangle if and only if a hook was trashed. -/
theorem noDanglingOwner_deleted (hnodup : (resolutions.map (·.1)).Nodup)
    (hdeletes : db.Deletes key id resolutions target)
    (hhooks : after.hooks = db.hooks.map (settled key now resolutions))
    (hkeys : after.apiKeys = db.apiKeys.filter fun k => k.id ∉ db.subtree id)
    (h : db.NoDanglingOwner) :
    after.NoDanglingOwner ↔ ∀ entry ∈ resolutions, entry.2 ≠ .delete := by
  have hkept : ∀ owner, owner ∈ after.keyIds ↔ owner ∈ db.keyIds ∧ owner ∉ db.subtree id := by
    intro owner
    simp only [Database.keyIds, hkeys, List.mem_map, List.mem_filter, decide_eq_true_eq]
    constructor
    · rintro ⟨k, ⟨hk, hout⟩, rfl⟩
      exact ⟨⟨k, hk, rfl⟩, hout⟩
    · rintro ⟨⟨k, hk, rfl⟩, hout⟩
      exact ⟨k, ⟨hk, hout⟩, rfl⟩
  constructor
  · intro hafter entry hentry htrash
    obtain ⟨hook, hmem, hid, owner, hswept, howned⟩ :=
      (hdeletes.total entry.1).mp (List.mem_map_of_mem hentry)
    have hresolved : (hook.id, EntityResolution.delete) ∈ resolutions := by
      rwa [hid, ← htrash]
    have htrashed : (settled key now resolutions hook).ownerKeyId = some owner := by
      rw [settled_of_mem hnodup hresolved]
      exact howned
    have hnow := hafter _ (hhooks ▸ List.mem_map_of_mem hmem) owner htrashed
    exact ((hkept owner).mp hnow).2 hswept
  · intro hnone g hg owner howner
    rw [hhooks] at hg
    obtain ⟨hook, hmem, rfl⟩ := List.mem_map.mp hg
    refine (hkept owner).mpr ?_
    by_cases hresolved : hook.id ∈ resolutions.map (·.1)
    · obtain ⟨⟨_, r⟩, hentry, rfl⟩ := List.mem_map.mp hresolved
      rw [settled_of_mem hnodup hentry] at howner
      cases r with
      | delete => exact absurd rfl (hnone _ hentry)
      | reassign heir =>
        obtain rfl := Option.mem_some_iff.mp howner
        exact (hdeletes.heirs _ hentry heir rfl).symm
    · rw [settled_of_notMem hresolved] at howner
      refine ⟨h hook hmem owner howner, fun hswept => hresolved ?_⟩
      exact (hdeletes.total hook.id).mpr ⟨hook, hmem, rfl, owner, hswept, howner⟩

end Deletion

/-- One request served between two others leaves no owner dangling exactly when
it is not a deletion that trashes a hook. -/
theorem serve_noDanglingOwner_iff {w : World} (h : w.Sound) (howners : w.db.NoDanglingOwner)
    (ctx : Context) (clock : AuthClock) (req : Request) :
    ((serve ctx clock req).run Op.exec w).2.db.NoDanglingOwner ↔
      TrashesNothing w ctx clock req := by
  rcases serve_agree_or_admin ctx clock req w with
    ⟨hnone, hagree⟩ | ⟨key, request, w₁, hauth, hdb, hserved⟩
  · refine iff_of_true ?_ fun key id payload w₁ hauth => absurd hauth (hnone _ _ _)
    have hkeys : _ = w.db.apiKeys := hagree .apiKeys (by decide)
    have hhooks : _ = w.db.hooks := hagree .hooks (by decide)
    simpa only [Database.NoDanglingOwner, Database.keyIds, hkeys, hhooks] using howners
  · obtain ⟨-, hsound, hmem⟩ := h.authenticated hauth
    have hcaller := hmem key rfl
    rw [hserved]
    rw [← hdb] at howners
    have hcondition : TrashesNothing w ctx clock req ↔ ∀ id payload,
        request = .deleteApiKey id payload →
        (∃ target, w₁.db.Deletes key id payload.resolutions target) →
        ∀ entry ∈ payload.resolutions, entry.2 ≠ .delete := by
      unfold TrashesNothing
      rw [hauth, hdb]
      constructor
      · rintro hnone id payload rfl
        exact hnone key id payload w₁ rfl
      · intro hnone key' id payload w₁' heq
        cases heq
        exact hnone id payload rfl
    rw [hcondition]
    by_cases hdeletion : ∃ id payload, request = .deleteApiKey id payload
    · obtain ⟨id, payload, rfl⟩ := hdeletion
      have hrun : ((handleAdmin ctx key (.deleteApiKey id payload)).run Op.exec w₁).2 =
          ((deleteApiKey ctx key id payload).run Op.exec w₁).2 :=
        congrArg Prod.snd (Program.run_map _ _ w₁)
      rw [hrun]
      rcases deleteApiKey_outcome ctx key id payload hsound.wellFormed with
        ⟨target, hdeletes, hhooks, hkeys, -⟩ | ⟨hrefused, hsame⟩
      · rw [noDanglingOwner_deleted payload.nodup hdeletes hhooks hkeys howners]
        constructor
        · rintro hnone _ _ ⟨⟩ -
          exact hnone
        · exact fun hnone => hnone id payload rfl ⟨target, hdeletes⟩
      · rw [hsame]
        refine iff_of_true howners ?_
        rintro _ _ ⟨⟩ ⟨target, hdeletes⟩
        exact absurd hdeletes (hrefused target)
    · have hother : ∀ id payload, request ≠ .deleteApiKey id payload := fun id payload heq =>
        hdeletion ⟨id, payload, heq⟩
      refine iff_of_true ?_ fun id payload heq => absurd heq (hother id payload)
      have hkeyStep : KeyStep key request _ _ :=
        handleAdmin_keyStep ctx request hsound.wellFormed
      have hhookStep : HookStep key _ request _ _ :=
        handleAdmin_hookStep ctx request hsound.wellFormed
      exact hhookStep.noDanglingOwner hother hcaller (hkeyStep.keyIds_subset hother) howners

/-- From the first start on, over any run of requests of which none is a
deletion that trashes a hook, every owner a hook names has a row. From then on
the next request keeps it so exactly when it is not such a deletion either. -/
theorem no_dangling_owner {state : AppState} {w₀ w : World} (hboot : Bootstrapped state w₀)
    (hrun : Runs state TrashesNothing w₀ w) :
    w.db.NoDanglingOwner ∧ ∀ ctx clock req, ctx.state = state →
      (((serve ctx clock req).run Op.exec w).2.db.NoDanglingOwner ↔
        TrashesNothing w ctx clock req) := by
  have hreach := hboot.reachable
  have howners : w.db.NoDanglingOwner := by
    refine hrun.invariant (J := fun w => w.db.NoDanglingOwner) hreach ?_ ?_
    · intro h hmem
      rw [hboot.hooks] at hmem
      cases hmem
    · exact fun hv _ hnone howners => (serve_noDanglingOwner_iff hv.sound howners _ _ _).mpr hnone
  exact ⟨howners, fun ctx clock req _ =>
    serve_noDanglingOwner_iff (hrun.reachable hreach).sound howners ctx clock req⟩

section Sample

open Sample

theorem trashesNothing_of_ne {w : World} {ctx : Context} {clock : AuthClock} {http : HttpRequest}
    {request : AdminRequest} (hother : ∀ id payload, request ≠ .deleteApiKey id payload) :
    TrashesNothing w ctx clock (.admin http request) := by
  intro key id payload w₁ hauth
  exact absurd (authenticate_admin_request hauth).symm (hother id payload)

theorem runs_withOwned {P : RequestCondition} (hmint : P booted (ctx 1) clock mintMaker)
    (hmake : P withMaker (ctx 2) clock makeHook) : Runs Sample.state P booted withOwned :=
  (Relation.ReflTransGen.single ⟨ctx 1, clock, mintMaker, rfl, hmint, serveAt_mintMaker⟩).tail
    ⟨ctx 2, clock, makeHook, rfl, hmake, serveAt_makeHook⟩

theorem no_dangling_owner_maker :
    withOwned.db.NoDanglingOwner ∧ ∀ ctx clock req, ctx.state = Sample.state →
      (((serve ctx clock req).run Op.exec withOwned).2.db.NoDanglingOwner ↔
        TrashesNothing withOwned ctx clock req) :=
  no_dangling_owner ⟨start, boot_start⟩ (runs_withOwned
    (trashesNothing_of_ne fun _ _ => nofun) (trashesNothing_of_ne fun _ _ => nofun))

def disinheriting : AdminRequest := .deleteApiKey 101 ⟨[(201, .delete)], by decide⟩

/-- The master deletes the maker and trashes its hook, which goes on naming the
maker as its owner. -/
theorem trashed_hook_dangles :
    ¬∀ {state : AppState} {w₀ w : World}, Bootstrapped state w₀ →
      Runs state (fun _ _ _ _ => True) w₀ w → w.db.NoDanglingOwner := by
  intro hclaim
  set after := ((handleAdmin (ctx 3) Sample.masterRow disinheriting).run Op.exec withOwned).2.db
    with hserved
  have hleft : after.hooks.map (·.ownerKeyId) = [some 101] ∧ after.keyIds = [1] := by
    decide
  have hafter : after.NoDanglingOwner := hclaim ⟨start, boot_start⟩
    ((runs_withOwned trivial trivial).tail ⟨ctx 3, clock,
      .admin (bearer "/keys" masterKey) disinheriting, rfl, trivial,
      serveAt_master 3 "/keys" disinheriting rfl rfl⟩)
  obtain ⟨hook, hmem, howned⟩ : ∃ hook ∈ after.hooks, hook.ownerKeyId = some 101 :=
    List.mem_map.mp (hleft.1 ▸ List.mem_singleton_self (some 101))
  have hexists := hafter hook hmem 101 howned
  rw [hleft.2] at hexists
  simp at hexists

end Sample

end HookExecutor
