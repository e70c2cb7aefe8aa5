import HookExecutor.Verification.Cascade
import HookExecutor.Verification.HookEffects
import HookExecutor.Verification.Parties
import HookExecutor.Verification.Sample

/-!
# What others put under a key while it is deleted

A deletion asks level by level for the keys below its target, once for the hooks
they own, and removes the keys it was told of. A key or a hook that somebody else
puts under one of them after that question was answered is not swept up: it
stays behind, under a key that is gone.
-/

namespace HookExecutor

/-- What an exchange tells of the keys below a key. -/
def childrenTold (p : Uuid) : ((β : Type) × Op β × β) → Option (List ApiKey)
  | ⟨_, .db (.selectApiKeys (.parentKeyIdIn parents) _), .ok rows⟩ =>
    if parents.contains p then some rows else none
  | _ => none

/-- What an exchange tells of the hooks of a key. -/
def hooksTold (p : Uuid) : ((β : Type) × Op β × β) → Option (List Hook)
  | ⟨_, .db (.selectHooks (.ownerKeyIdIn owners) _), .ok rows⟩ =>
    if owners.contains p then some rows else none
  | _ => none

/-- For each key of the subtree, the children it was last told to have are in the
subtree as well. -/
def KnowsChildren (subtree : List Uuid) (h : Heard Op) : Prop :=
  ∀ p ∈ subtree, ∃ rows, h.findSome? (childrenTold p) = some rows ∧ ∀ k ∈ rows, k.id ∈ subtree

/-- For each key of the subtree, the hooks it was last told to own are settled by
the map. -/
def KnowsHooks (payload : DeleteApiKeyPayload) (subtree : List Uuid) (h : Heard Op) : Prop :=
  ∀ p ∈ subtree, ∃ rows, h.findSome? (hooksTold p) = some rows ∧
    ∀ hook ∈ rows, hook.ownerKeyId ≠ none → hook.id ∈ payload.resolutions.map (·.1)

/-- What a deletion writes: hooks of the map, and no keys before it knows all
that is below them. -/
def DeletesAsTold (payload : DeleteApiKeyPayload) : Heard Op → ∀ β, Op β → Prop
  | h, _, .db (.deleteApiKeys c) => ∃ subtree, c = .idIn subtree ∧ KnowsChildren subtree h ∧
      KnowsHooks payload subtree h
  | _, _, .db (.updateHook id _) => id ∈ payload.resolutions.map (·.1)
  | _, β, q => WritesAmong [.insertAuditLog] β q

/-- A query that neither asks what is below a key nor writes anything. -/
def AsksNothingBelow : ∀ β, Op β → Prop
  | _, .db (.selectApiKeys (.parentKeyIdIn _) _) => False
  | _, .db (.selectHooks (.ownerKeyIdIn _) _) => False
  | _, q => WritesAmong [] _ q

section Knowledge

open Program

variable {α β : Type} {h : Heard Op} {key : ApiKey} {ctx : Context} {subtree : List Uuid}
  {payload : DeleteApiKeyPayload}

theorem allowsAudit_deletesAsTold : AllowsAudit (DeletesAsTold payload) := by
  intro h β q hq
  cases q with
  | db s => cases s <;> simp_all [DeletesAsTold, Stmt.write?]
  | _ => trivial

theorem childrenTold_select (p : Uuid) (parents : List Uuid) (o : ApiKeyOrder)
    (rows : List ApiKey) :
    childrenTold p ⟨_, .db (.selectApiKeys (.parentKeyIdIn parents) o), .ok rows⟩ =
      if p ∈ parents then some rows else none := by
  simp [childrenTold]

theorem hooksTold_select (p : Uuid) (owners : List Uuid) (o : HookOrder) (rows : List Hook) :
    hooksTold p ⟨_, .db (.selectHooks (.ownerKeyIdIn owners) o), .ok rows⟩ =
      if p ∈ owners then some rows else none := by
  simp [hooksTold]

theorem asksNothingBelow_told {q : Op β} (hq : AsksNothingBelow β q) (p : Uuid) (b : β) :
    childrenTold p ⟨β, q, b⟩ = none ∧ hooksTold p ⟨β, q, b⟩ = none := by
  cases q with
  | db s =>
    cases s with
    | selectApiKeys c o => cases c <;> first | exact hq.elim | exact ⟨rfl, rfl⟩
    | selectHooks c o => cases c <;> first | exact hq.elim | exact ⟨rfl, rfl⟩
    | _ => exact ⟨rfl, rfl⟩
  | _ => exact ⟨rfl, rfl⟩

theorem KnowsChildren.cons {q : Op β} (hq : AsksNothingBelow β q) (b : β)
    (hknows : KnowsChildren subtree h) : KnowsChildren subtree (⟨β, q, b⟩ :: h) := by
  intro p hp
  rw [List.findSome?_cons, (asksNothingBelow_told hq p b).1]
  exact hknows p hp

theorem KnowsHooks.cons {q : Op β} (hq : AsksNothingBelow β q) (b : β)
    (hknows : KnowsHooks payload subtree h) : KnowsHooks payload subtree (⟨β, q, b⟩ :: h) := by
  intro p hp
  rw [List.findSome?_cons, (asksNothingBelow_told hq p b).2]
  exact hknows p hp

/-- What is known of the part of a walk that is done: all but the frontier has
been asked about. -/
def KnowsVisited (root : Uuid) (seen frontier : List Uuid) (h : Heard Op) : Prop :=
  ∀ p, p = root ∨ p ∈ seen → p ∉ frontier →
    ∃ rows, h.findSome? (childrenTold p) = some rows ∧ ∀ k ∈ rows, k.id = root ∨ k.id ∈ seen

/-- One level. -/
theorem KnowsVisited.next {root : Uuid} {seen frontier : List Uuid} {o : ApiKeyOrder}
    (hknows : KnowsVisited root seen frontier h) (rows : List ApiKey) :
    KnowsVisited root (seen ++ Walk.fresh root seen (rows.map (·.id)))
      (Walk.fresh root seen (rows.map (·.id)))
      (⟨_, .db (.selectApiKeys (.parentKeyIdIn frontier) o), .ok rows⟩ :: h) := by
  intro p hp hfresh
  have hmet : p = root ∨ p ∈ seen :=
    hp.imp_right fun hmem => (List.mem_append.mp hmem).resolve_right hfresh
  rw [List.findSome?_cons, childrenTold_select]
  by_cases hasked : p ∈ frontier
  · rw [if_pos hasked]
    refine ⟨rows, rfl, ?_⟩
    intro k hk
    by_cases hroot : k.id = root
    · exact .inl hroot
    by_cases hseen : k.id ∈ seen
    · exact .inr (List.mem_append_left _ hseen)
    · exact .inr (List.mem_append_right _
        (Walk.mem_fresh.mpr ⟨List.mem_map_of_mem hk, hroot, hseen⟩))
  · rw [if_neg hasked]
    obtain ⟨rows', htold, hall⟩ := hknows p hmet hasked
    exact ⟨rows', htold, fun k hk => (hall k hk).imp_right (List.mem_append_left _)⟩

/-- The walk ends when it has asked about everything it was told of. -/
theorem ensures_levels (root : Uuid) (fuel : Nat) {seen frontier : List Uuid}
    (hnodup : seen.Nodup) (hfuel : frontier = [] ∨ 2 ^ 128 < seen.length + fuel)
    (hknows : KnowsVisited root seen frontier h) :
    Ensures (DeletesAsTold payload) h (Walk.levels childKeyIds root fuel seen frontier)
      fun h' below => KnowsVisited root below [] h' := by
  induction fuel generalizing seen frontier h with
  | zero =>
    have hlen := Uuid.length_le_of_nodup hnodup
    obtain rfl | hfuel := hfuel
    · exact hknows
    · omega
  | succ fuel ih =>
    rw [Walk.levels]
    by_cases hdone : frontier = []
    · subst hdone
      exact hknows
    · rw [if_neg (by simpa using hdone)]
      refine Ensures.bind (M := fun h' found => ∃ rows, found = rows.map (·.id) ∧
        h' = ⟨_, .db (.selectApiKeys (.parentKeyIdIn frontier) .unordered), .ok rows⟩ :: h) ?_ ?_
      · refine .map ⟨allowsAudit_deletesAsTold.read rfl, ?_⟩
        intro answer
        cases answer with
        | ok rows => exact ⟨rows, rfl, rfl⟩
        | error err => trivial
      · rintro _ _ - ⟨rows, rfl, rfl⟩
        refine ih ?_ (Walk.enough_next hdone hfuel) (hknows.next rows)
        refine hnodup.append (Walk.nodup_fresh _ _ _) ?_
        intro x hx hfresh
        exact (Walk.mem_fresh.mp hfresh).2.2 hx

theorem ensures_descendantKeyIds (root : Uuid) :
    Ensures (DeletesAsTold payload) h (descendantKeyIds root) fun h' below =>
      KnowsChildren (root :: below) h' := by
  refine (ensures_levels root maxLevels List.nodup_nil (.inr (by simp [maxLevels])) ?_).mono ?_
  · intro p hp hfrontier
    obtain rfl | hseen := hp
    · exact absurd (List.mem_singleton_self _) hfrontier
    · cases hseen
  · intro h' below _ hknows p hp
    obtain ⟨rows, htold, hall⟩ := hknows p (List.mem_cons.mp hp) (List.not_mem_nil)
    exact ⟨rows, htold, fun k hk => List.mem_cons.mpr (hall k hk)⟩

/-- The inventory has every hook the deletion was told of. -/
theorem ensures_collectSubtreeInventory (root : Uuid) :
    Ensures (DeletesAsTold payload) h (collectSubtreeInventory root) fun h' found =>
      KnowsChildren found.subtree h' ∧
        (guardResolutions payload found = .ok () → KnowsHooks payload found.subtree h') := by
  refine (ensures_descendantKeyIds root).bind fun h₁ below _ hchildren => ?_
  refine Ensures.bind (M := fun h' _ => KnowsChildren (root :: below) h') ?_ ?_
  · refine ⟨allowsAudit_deletesAsTold.read rfl, ?_⟩
    intro answer
    cases answer with
    | ok rows => exact hchildren.cons (by simp [AsksNothingBelow, Stmt.write?]) _
    | error err => trivial
  · intro h₂ doomed _ hchildren
    refine ⟨allowsAudit_deletesAsTold.read rfl, ?_⟩
    intro answer
    cases answer with
    | error err => trivial
    | ok owned =>
      refine ⟨?_, ?_⟩
      · intro p hp
        rw [List.findSome?_cons, show childrenTold p _ = none from rfl]
        exact hchildren p hp
      · intro hguard p hp
        refine ⟨owned, ?_, ?_⟩
        · rw [List.findSome?_cons, hooksTold_select, if_pos hp]
        · intro hook hhook howned
          obtain ⟨owner, howner⟩ := Option.ne_none_iff_exists'.mp howned
          refine (guardResolutions_ok.mp hguard hook.id).mpr ?_
          have hlisted : (⟨"hook", hook.id, hook.name, owner⟩ : OwnedEntity) ∈
              owned.filterMap ownedEntity :=
            List.mem_filterMap.mpr ⟨hook, hhook, by simp [ownedEntity, howner]⟩
          exact List.mem_map_of_mem hlisted

/-- What a deletion knows once its map was found to be complete. -/
def KnowsBelow (payload : DeleteApiKeyPayload) (subtree : List Uuid) (h : Heard Op) : Prop :=
  KnowsChildren subtree h ∧ KnowsHooks payload subtree h

theorem KnowsBelow.cons {q : Op β} (hq : AsksNothingBelow β q) (b : β)
    (hknows : KnowsBelow payload subtree h) : KnowsBelow payload subtree (⟨β, q, b⟩ :: h) :=
  ⟨hknows.1.cons hq b, hknows.2.cons hq b⟩

theorem ensures_knowsBelow {p : Handler α} (hp : p.Emits AsksNothingBelow)
    (hknows : KnowsBelow payload subtree h) :
    Ensures (DeletesAsTold payload) h p fun h' _ => KnowsBelow payload subtree h' := by
  refine hp.ensures_keeps (fun h' β q hq => allowsAudit_deletesAsTold h' β q ?_)
    (fun h' β q b hq hbelow => hbelow.cons hq b) hknows
  cases q with
  | db s =>
    cases s with
    | selectApiKeys c o => simp [Stmt.write?]
    | selectHooks c o => simp [Stmt.write?]
    | _ => exact WritesAmong.mono (List.nil_subset _) _ _ hq
  | _ => trivial

theorem findHookById_asksNothingBelow (id : Uuid) : (findHookById id).Emits AsksNothingBelow :=
  .map _ ((emits_sql _).mpr (by simp [AsksNothingBelow, Stmt.write?]))

theorem validateReassignments_asksNothingBelow (subtree : List Uuid)
    (resolutions : List (Uuid × EntityResolution)) :
    (validateReassignments subtree resolutions).Emits AsksNothingBelow := by
  induction resolutions with
  | nil => trivial
  | cons entry rest ih =>
    refine Emits.bind ?_ fun _ => ih
    obtain ⟨hookId, resolution⟩ := entry
    cases resolution with
    | delete => trivial
    | reassign heir =>
      exact (emits_require _ _).bind fun _ =>
        (Emits.map _ ((emits_sql _).mpr (by simp [AsksNothingBelow, Stmt.write?]))).bind fun _ =>
          emits_require _ _

theorem ensures_applyResolutions {now : DateTime} (resolutions : List (Uuid × EntityResolution))
    (counts : ResolutionCounts)
    (hmap : ∀ hookId ∈ resolutions.map (·.1), hookId ∈ payload.resolutions.map (·.1))
    (hknows : KnowsBelow payload subtree h) :
    Ensures (DeletesAsTold payload) h (applyResolutions key now resolutions counts)
      fun h' _ => KnowsBelow payload subtree h' := by
  induction resolutions generalizing counts h with
  | nil => exact hknows
  | cons entry rest ih =>
    have hrest : ∀ hookId ∈ rest.map (·.1), hookId ∈ payload.resolutions.map (·.1) :=
      fun hookId hmem => hmap hookId (List.mem_cons_of_mem _ hmem)
    refine (ensures_knowsBelow (findHookById_asksNothingBelow entry.1) hknows).bind
      fun h₁ found _ hknows₁ => ?_
    cases found with
    | none => exact ih _ hrest hknows₁
    | some _ =>
      refine Ensures.bind (M := fun h' _ => KnowsBelow payload subtree h')
        ⟨hmap entry.1 List.mem_cons_self, ?_⟩ fun h₂ _ _ hknows₂ => ih _ hrest hknows₂
      intro answer
      have hstill : KnowsBelow payload subtree (⟨_, .db (.updateHook entry.1
          (resolutionUpdate key now entry.2)), answer⟩ :: h₁) :=
        ⟨hknows₁.1, hknows₁.2⟩
      cases answer with
      | ok _ => exact hstill
      | error _ => trivial

theorem ensures_deleteApiKey (id : Uuid) :
    Ensures (DeletesAsTold payload) h (deleteApiKey ctx key id payload) fun _ _ => True := by
  have haside : ∀ {α : Type} {h : Heard Op} {p : Handler α}, p.Emits (WritesAmong [.insertAuditLog]) →
      Ensures (DeletesAsTold payload) h p fun _ _ => True :=
    fun hp => ensures_audited allowsAudit_deletesAsTold hp
  refine (haside (emits_ofExcept _)).bind fun _ _ _ _ => ?_
  refine (haside (emits_require _ _)).bind fun _ _ _ _ => ?_
  refine (haside (loadAdministrableKey_writes _ _)).bind fun _ target _ _ => ?_
  refine (haside (emits_ofExcept _)).bind fun _ _ _ _ => ?_
  refine (haside (emits_ofExcept _)).bind fun _ _ _ _ => ?_
  refine (ensures_collectSubtreeInventory id).bind fun h₁ found _ hfound => ?_
  refine Ensures.bind (M := fun h' _ => KnowsBelow payload found.subtree h') ?_
    fun h₂ _ _ hknows => ?_
  · cases hguard : guardResolutions payload found with
    | error e => trivial
    | ok _ => exact ⟨hfound.1, hfound.2 hguard⟩
  refine (ensures_knowsBelow (validateReassignments_asksNothingBelow _ _) hknows).bind
    fun h₃ _ _ hknows => ?_
  refine (ensures_applyResolutions _ _ (fun _ hmem => hmem) hknows).bind fun h₄ _ _ hknows => ?_
  refine (ensures_sql (P := fun _ _ => True) ⟨found.subtree, rfl, hknows.1, hknows.2⟩
    fun _ _ _ => trivial).bind fun _ _ _ _ => ?_
  refine (haside (emits_require _ _)).bind fun _ _ _ _ => ?_
  exact haside (createAuditLog_writes (by decide) _ _ _ _ _ _)

end Knowledge

/-! ### Runs -/

section Race

open Program

variable {ι : Type} [DecidableEq ι]

/-- The event removes the key. -/
def Removes (e : Event Op World ι) (p : Uuid) : Prop :=
  p ∈ e.before.db.keyIds ∧ p ∉ (e.after Op.exec).db.keyIds

def RemovedBy (d : ι) (log : List (Event Op World ι)) (p : Uuid) : Prop :=
  ∃ e ∈ log, e.who = d ∧ Removes e p

/-- The event puts a key under the key. -/
def GainsChild (e : Event Op World ι) (p : Uuid) : Prop :=
  ∃ k ∈ (e.after Op.exec).db.apiKeys, k.parentKeyId = some p ∧
    ∀ k' ∈ e.before.db.apiKeys, k'.id = k.id → k'.parentKeyId ≠ some p

/-- The event makes the key own a hook that the map does not settle. -/
def GainsHook (payload : DeleteApiKeyPayload) (e : Event Op World ι) (p : Uuid) : Prop :=
  ∃ hook ∈ (e.after Op.exec).db.hooks, hook.ownerKeyId = some p ∧
    hook.id ∉ payload.resolutions.map (·.1) ∧
    ∀ hook' ∈ e.before.db.hooks, hook'.id = hook.id → hook'.ownerKeyId ≠ some p

/-- The event asks for the children of the key. -/
def LooksForChildren (e : Event Op World ι) (p : Uuid) : Prop :=
  childrenTold p (e.exchange Op.exec) ≠ none

/-- The event asks for the hooks of the key. -/
def LooksForHooks (e : Event Op World ι) (p : Uuid) : Prop :=
  hooksTold p (e.exchange Op.exec) ≠ none

/-- What others put under a key that `d` removes, they put there before the last
look `d` takes at what is below it. -/
def GainedInTime (d : ι) (gains looks : Event Op World ι → Uuid → Prop)
    (log : List (Event Op World ι)) : Prop :=
  ∀ late e early p, log = late ++ e :: early → e.who = d → Removes e p →
    (∀ a ∈ late, a.who ≠ d → ¬gains a p) ∧
    ∀ mid a before, early = mid ++ a :: before → a.who ≠ d → gains a p →
      ∃ b ∈ mid, b.who = d ∧ looks b p

/-- No key is left under a key that `d` removed, and no hook is owned by one,
unless the map settled it. -/
def StrandsNothing (d : ι) (payload : DeleteApiKeyPayload)
    (c : Config Op AppError AdminResponse World ι) : Prop :=
  (∀ k ∈ c.state.db.apiKeys, ∀ p, k.parentKeyId = some p → ¬RemovedBy d c.log p) ∧
    ∀ hook ∈ c.state.db.hooks, ∀ p, hook.ownerKeyId = some p → RemovedBy d c.log p →
      hook.id ∈ payload.resolutions.map (·.1)

variable {parties : ι → Party} {w : World} {c : Config Op AppError AdminResponse World ι} {d : ι}
  {id : Uuid} {payload : DeleteApiKeyPayload} {β : Type}

/-- The tables of keys and hooks before and after an audit row is written, or
nothing is. -/
theorem quiet_exec {q : Op β} (hq : WritesAmong [.insertAuditLog] β q) (w : World) :
    (Op.exec β q w).2.db.apiKeys = w.db.apiKeys ∧ (Op.exec β q w).2.db.hooks = w.db.hooks := by
  rw [Op.exec_db]
  cases q with
  | db s =>
    refine ⟨s.exec_agree (t := .apiKeys) w.db ?_, s.exec_agree (t := .hooks) w.db ?_⟩
    · intro kind hkind
      rw [List.mem_singleton.mp (hq kind hkind)]
      decide
    · intro kind hkind
      rw [List.mem_singleton.mp (hq kind hkind)]
      decide
  | _ => exact ⟨rfl, rfl⟩

/-- What one event of a deletion does: it puts nothing anywhere, and removes only
keys it knows all about. -/
structure RemovesAsTold (payload : DeleteApiKeyPayload) (h : Heard Op) (e : Event Op World ι) :
    Prop where
  keys : ∀ k ∈ (e.after Op.exec).db.apiKeys, k ∈ e.before.db.apiKeys
  hooks : ∀ hook ∈ (e.after Op.exec).db.hooks,
    hook.id ∈ payload.resolutions.map (·.1) ∨ hook ∈ e.before.db.hooks
  removed : ∀ p, Removes e p → ∃ subtree, p ∈ subtree ∧ KnowsBelow payload subtree h ∧
    ∀ k ∈ (e.after Op.exec).db.apiKeys, k.id ∉ subtree

omit [DecidableEq ι] in
theorem DeletesAsTold.step {e : Event Op World ι} {h : Heard Op}
    (hq : DeletesAsTold payload h _ e.query) : RemovesAsTold payload h e := by
  have hkeysame : (e.after Op.exec).db.apiKeys = e.before.db.apiKeys →
      (∀ hook ∈ (e.after Op.exec).db.hooks,
        hook.id ∈ payload.resolutions.map (·.1) ∨ hook ∈ e.before.db.hooks) →
      RemovesAsTold payload h e := by
    intro hkeys hhooks
    refine ⟨fun k hk => hkeys ▸ hk, hhooks, ?_⟩
    rintro p ⟨hbefore, hafter⟩
    exact absurd (by rwa [Database.keyIds, hkeys]) hafter
  have hquiet : WritesAmong [.insertAuditLog] _ e.query → RemovesAsTold payload h e := by
    intro hwrites
    refine hkeysame (quiet_exec hwrites e.before).1 fun hook hhook => .inr ?_
    rwa [← (quiet_exec hwrites e.before).2]
  obtain ⟨who, query, world⟩ := e
  cases query with
  | db s =>
    cases s with
    | updateHook id u =>
      refine hkeysame ?_ ?_
      · exact Stmt.exec_agree (t := .apiKeys) (.updateHook id u) world.db
          (by simp [Stmt.write?, Write.tables])
      · intro hook hhook
        obtain hsame | hedited := world.db.updateHook_hooks id u
        · exact .inr (hsame ▸ hhook)
        · obtain ⟨old, hold, rfl⟩ := List.mem_map.mp (hedited ▸ hhook)
          by_cases hid : old.id = id
          · refine .inl ?_
            rw [HookUpdate.at_id_field, hid]
            exact hq
          · refine .inr ?_
            rwa [HookUpdate.at_, if_neg (by simpa using hid)]
    | deleteApiKeys condition =>
      obtain ⟨subtree, rfl, hknows⟩ := hq
      refine ⟨fun k hk => List.mem_of_mem_filter hk, fun hook hhook => .inr hhook, ?_⟩
      rintro p ⟨hbefore, hafter⟩
      have hgone : ∀ k ∈ world.db.apiKeys.filter fun k => !subtree.contains k.id,
          k.id ∉ subtree := by
        intro k hk
        simpa using (List.mem_filter.mp hk).2
      refine ⟨subtree, ?_, hknows, hgone⟩
      by_contra hout
      obtain ⟨k, hk, rfl⟩ := List.mem_map.mp hbefore
      exact hafter (List.mem_map_of_mem (List.mem_filter.mpr
        ⟨hk, by simpa [ApiKeyCondition.holds] using hout⟩))
    | _ => exact hquiet hq
  | _ => exact hquiet hq

theorem childrenTold_eq_some {p : Uuid} {x : (β : Type) × Op β × β} {rows : List ApiKey}
    (h : childrenTold p x = some rows) : ∃ parents o, p ∈ parents ∧
      x = ⟨_, .db (.selectApiKeys (.parentKeyIdIn parents) o), .ok rows⟩ := by
  obtain ⟨β, q, b⟩ := x
  cases q with
  | db s =>
    cases s with
    | selectApiKeys c o =>
      cases c with
      | parentKeyIdIn parents =>
        cases b with
        | ok rows' =>
          obtain ⟨hp, hrows⟩ := Option.ite_none_right_eq_some.mp h
          cases hrows
          exact ⟨_, _, List.contains_iff_mem.mp hp, rfl⟩
        | error err => cases h
      | _ => cases h
    | _ => cases h
  | _ => cases h

theorem hooksTold_eq_some {p : Uuid} {x : (β : Type) × Op β × β} {rows : List Hook}
    (h : hooksTold p x = some rows) : ∃ owners o, p ∈ owners ∧
      x = ⟨_, .db (.selectHooks (.ownerKeyIdIn owners) o), .ok rows⟩ := by
  obtain ⟨β, q, b⟩ := x
  cases q with
  | db s =>
    cases s with
    | selectHooks c o =>
      cases c with
      | ownerKeyIdIn owners =>
        cases b with
        | ok rows' =>
          obtain ⟨hp, hrows⟩ := Option.ite_none_right_eq_some.mp h
          cases hrows
          exact ⟨_, _, List.contains_iff_mem.mp hp, rfl⟩
        | error err => cases h
      | _ => cases h
    | _ => cases h
  | _ => cases h

omit [DecidableEq ι] in
/-- The rows a deletion is told of are the rows there are. -/
theorem childrenTold_after {e : Event Op World ι} {p : Uuid} {rows : List ApiKey}
    (htold : childrenTold p (e.exchange Op.exec) = some rows) {k : ApiKey}
    (hk : k ∈ (e.after Op.exec).db.apiKeys) (hparent : k.parentKeyId = some p) : k ∈ rows := by
  obtain ⟨parents, o, hp, hexchange⟩ := childrenTold_eq_some htold
  obtain ⟨hanswer, hafter⟩ := exchange_eq hexchange
  rw [hafter] at hk
  cases hanswer
  have hholds : (ApiKeyCondition.parentKeyIdIn parents).holds k = true := by
    simp [ApiKeyCondition.holds, hparent, hp]
  have hmem := List.mem_filter.mpr ⟨hk, hholds⟩
  cases o with
  | unordered => exact hmem
  | byCreatedAt => exact (List.mem_insertionSort _).mpr hmem

omit [DecidableEq ι] in
theorem hooksTold_after {e : Event Op World ι} {p : Uuid} {rows : List Hook}
    (htold : hooksTold p (e.exchange Op.exec) = some rows) {hook : Hook}
    (hhook : hook ∈ (e.after Op.exec).db.hooks) (howner : hook.ownerKeyId = some p) :
    hook ∈ rows := by
  obtain ⟨owners, o, hp, hexchange⟩ := hooksTold_eq_some htold
  obtain ⟨hanswer, hafter⟩ := exchange_eq hexchange
  rw [hafter] at hhook
  cases hanswer
  have hholds : (HookCondition.ownerKeyIdIn owners).holds hook = true := by
    simp [HookCondition.holds, howner, hp]
  have hmem := List.mem_filter.mpr ⟨hhook, hholds⟩
  cases o with
  | unordered => exact hmem
  | byName => exact (List.mem_insertionSort _).mpr hmem

theorem InFlight.deletesAsTold (hrun : InFlight parties w c)
    (hdeletes : (parties d).request = .deleteApiKey id payload)
    {late early : List (Event Op World ι)} {e : Event Op World ι} (hlog : c.log = late ++ e :: early) (hwho : e.who = d) :
    RemovesAsTold payload (heard Op.exec d early) e := by
  have hstart : ∀ i, (parties i).program.Ensures
      (fun h β q => i = d → DeletesAsTold payload h β q) [] fun _ _ => True := by
    intro i
    by_cases hi : i = d
    · subst hi
      have hdeletion : (parties i).program.Ensures (DeletesAsTold payload) [] fun _ _ => True := by
        rw [Party.program, hdeletes]
        exact (ensures_deleteApiKey id).bind fun _ _ _ _ => trivial
      exact hdeletion.weaken fun _ _ _ hq _ => hq
    · exact ensures_of_forall fun _ _ _ h => absurd h hi
  subst hwho
  exact ((Interleaved.ensures (A := fun i h β q => i = e.who → DeletesAsTold payload h β q)
    (P := fun _ _ _ => True) hrun hstart).2 late e early hlog rfl).step

/-- What a party was last told of a key it removes stands when it removes the key,
and what follows from that stands from then on, if it is others that break it and
they gained in time. -/
theorem InFlight.stands {γ : Type} {told : ((β : Type) × Op β × β) → Option γ} {r : γ}
    {gains looks : Event Op World ι → Uuid → Prop} {p : Uuid} {φ ψ : World → Prop}
    {late early : List (Event Op World ι)} {e : Event Op World ι} (hrun : InFlight parties w c)
    (htime : GainedInTime d gains looks c.log) (hlog : c.log = late ++ e :: early)
    (hwho : e.who = d) (hremoves : Removes e p)
    (hlooks : ∀ b, looks b p → told (b.exchange Op.exec) ≠ none)
    (hlast : (heard Op.exec d early).findSome? told = some r)
    (hread : ∀ a : Event Op World ι, told (a.exchange Op.exec) = some r → φ (a.after Op.exec))
    (hgains : ∀ b : Event Op World ι, φ b.before ∧ ¬φ (b.after Op.exec) ∨
      ψ b.before ∧ ¬ψ (b.after Op.exec) → gains b p)
    (hown : ∀ b ∈ c.log, b.who = d → (φ b.before → φ (b.after Op.exec)) ∧
      (ψ b.before → ψ (b.after Op.exec)))
    (hremoved : φ e.before → ψ (e.after Op.exec)) : ψ c.state := by
  obtain ⟨hstate, hchained⟩ := hrun.chained
  obtain ⟨hlate, hearly⟩ := htime late e early p hlog hwho hremoves
  rw [hlog] at hstate hchained hown
  have hat : φ (stateAfter Op.exec w early) := by
    refine hchained.early.2.holds_since_told hlast hread ?_ ?_
    · intro b hb hbwho
      exact (hown b (by simp [hb]) hbwho).1
    · intro mid b before hsplit hbwho hbefore hafter
      obtain ⟨a, ha, hawho, hlook⟩ := hearly mid b before hsplit hbwho
        (hgains b (.inl ⟨hbefore, hafter⟩))
      exact ⟨a, ha, hawho, hlooks a hlook⟩
  rw [← hchained.before] at hat
  rw [hstate]
  by_contra hlost
  obtain ⟨b, hb, hbefore, hafter⟩ := hchained.exists_break (hremoved hat) hlost
  by_cases hbwho : b.who = d
  · exact hafter ((hown b (by simp [hb]) hbwho).2 hbefore)
  · exact hlate b hb hbwho (hgains b (.inr ⟨hbefore, hafter⟩))

omit [DecidableEq ι] in
/-- Whoever breaks what is known of the children of a key puts one under it. -/
theorem gainsChild_of_breaks {b : Event Op World ι} {p : Uuid} {P : Uuid → Prop}
    (hbefore : ∀ k ∈ b.before.db.apiKeys, k.parentKeyId = some p → P k.id)
    (hafter : ¬∀ k ∈ (b.after Op.exec).db.apiKeys, k.parentKeyId = some p → P k.id) :
    GainsChild b p := by
  push Not at hafter
  obtain ⟨k, hk, hparent, hout⟩ := hafter
  refine ⟨k, hk, hparent, ?_⟩
  intro k' hk' hid hparent'
  exact hout (hid ▸ hbefore k' hk' hparent')

omit [DecidableEq ι] in
theorem gainsHook_of_breaks {b : Event Op World ι} {p : Uuid}
    (hbefore : ∀ hook ∈ b.before.db.hooks, hook.ownerKeyId = some p →
      hook.id ∈ payload.resolutions.map (·.1))
    (hafter : ¬∀ hook ∈ (b.after Op.exec).db.hooks, hook.ownerKeyId = some p →
      hook.id ∈ payload.resolutions.map (·.1)) : GainsHook payload b p := by
  push Not at hafter
  obtain ⟨hook, hhook, howner, hout⟩ := hafter
  refine ⟨hook, hhook, howner, hout, ?_⟩
  intro hook' hhook' hid howner'
  exact hout (hid ▸ hbefore hook' hhook' howner')

/-- A deletion among any other requests: if what they put under the keys it
removes they put there before its last look, nothing is stranded. -/
theorem deletion_strands_nothing (hrun : InFlight parties w c)
    (hdeletes : (parties d).request = .deleteApiKey id payload)
    (hchildren : GainedInTime d GainsChild LooksForChildren c.log)
    (hhooks : GainedInTime d (GainsHook payload) LooksForHooks c.log) :
    StrandsNothing d payload c := by
  have hown : ∀ {late early : List (Event Op World ι)} {e : Event Op World ι},
      c.log = late ++ e :: early → e.who = d →
        RemovesAsTold payload (heard Op.exec d early) e :=
    fun hlog hwho => hrun.deletesAsTold hdeletes hlog hwho
  constructor
  · rintro k hk p hparent ⟨e, he, hwho, hremoves⟩
    obtain ⟨late, early, hlog⟩ := List.append_of_mem he
    obtain ⟨subtree, hp, ⟨hknows, -⟩, hgone⟩ := (hown hlog hwho).removed p hremoves
    obtain ⟨rows, htold, hrows⟩ := hknows p hp
    refine hrun.stands (φ := fun w => ∀ k ∈ w.db.apiKeys, k.parentKeyId = some p → k.id ∈ subtree)
      (ψ := fun w => ∀ k ∈ w.db.apiKeys, k.parentKeyId = some p → False) hchildren hlog hwho
      hremoves (fun _ hlook => hlook) htold ?_ ?_ ?_ ?_ k hk hparent
    · intro a hread k hk hparent
      exact hrows k (childrenTold_after hread hk hparent)
    · rintro b (⟨hbefore, hafter⟩ | ⟨hbefore, hafter⟩)
      · exact gainsChild_of_breaks hbefore hafter
      · exact gainsChild_of_breaks (P := fun _ => False) hbefore hafter
    · intro b hb hbwho
      obtain ⟨late', early', hlog'⟩ := List.append_of_mem hb
      have hkeys := (hown hlog' hbwho).keys
      exact ⟨fun hbefore k hk => hbefore k (hkeys k hk), fun hbefore k hk => hbefore k (hkeys k hk)⟩
    · intro hbefore k hk hparent
      exact hgone k hk (hbefore k ((hown hlog hwho).keys k hk) hparent)
  · rintro hook hhook p howner ⟨e, he, hwho, hremoves⟩
    obtain ⟨late, early, hlog⟩ := List.append_of_mem he
    obtain ⟨subtree, hp, ⟨-, hknows⟩, -⟩ := (hown hlog hwho).removed p hremoves
    obtain ⟨rows, htold, hrows⟩ := hknows p hp
    have hsettled : ∀ b ∈ c.log, b.who = d →
        (∀ hook ∈ b.before.db.hooks, hook.ownerKeyId = some p →
          hook.id ∈ payload.resolutions.map (·.1)) →
        ∀ hook ∈ (b.after Op.exec).db.hooks, hook.ownerKeyId = some p →
          hook.id ∈ payload.resolutions.map (·.1) := by
      intro b hb hbwho hbefore hook hhook howner
      obtain ⟨late', early', hlog'⟩ := List.append_of_mem hb
      obtain hmapped | hold := (hown hlog' hbwho).hooks hook hhook
      · exact hmapped
      · exact hbefore hook hold howner
    refine hrun.stands (φ := fun w => ∀ hook ∈ w.db.hooks, hook.ownerKeyId = some p →
      hook.id ∈ payload.resolutions.map (·.1)) (ψ := fun w => ∀ hook ∈ w.db.hooks,
      hook.ownerKeyId = some p → hook.id ∈ payload.resolutions.map (·.1)) hhooks hlog hwho
      hremoves (fun _ hlook => hlook) htold ?_ ?_ ?_ ?_ hook hhook howner
    · intro a hread hook hhook howner
      exact hrows hook (hooksTold_after hread hhook howner) (by simp [howner])
    · rintro b (⟨hbefore, hafter⟩ | ⟨hbefore, hafter⟩)
      · exact gainsHook_of_breaks hbefore hafter
      · exact gainsHook_of_breaks hbefore hafter
    · intro b hb hbwho
      exact ⟨hsettled b hb hbwho, hsettled b hb hbwho⟩
    · exact hsettled e he hwho

omit [DecidableEq ι] in
/-- Where nobody else puts anything under what is removed, everything is in time. -/
theorem gainedInTime_of_none {gains looks : Event Op World ι → Uuid → Prop}
    {log : List (Event Op World ι)}
    (h : ∀ e ∈ log, e.who = d → ∀ p, Removes e p → ∀ a ∈ log, a.who ≠ d → ¬gains a p) :
    GainedInTime d gains looks log := by
  rintro late e early p rfl hwho hremoves
  have hnever := h e (by simp) hwho p hremoves
  refine ⟨fun a ha => hnever a (by simp [ha]), ?_⟩
  rintro mid a before rfl hawho hgains
  exact absurd hgains (hnever a (by simp) hawho)

end Race

section Sample

open Sample

/-- The parent deletes its daughter and mints another one. -/
def siblings : Bool → Party
  | false => ⟨ctx 5, parentRow, .deleteApiKey 201 ⟨[], by decide⟩⟩
  | true => ⟨ctx 6, parentRow, .createApiKey { name := "sister" }⟩

/-- The other daughter is minted half way through the deletion. -/
def replaced : Config Op AppError AdminResponse World Bool :=
  ((Config.advance Op.exec false 4 ⟨fun i => (siblings i).program, withDaughter, []⟩).advance
    Op.exec true 30).advance Op.exec false 30

theorem deletion_strands_nothing_replaced :
    StrandsNothing false ⟨[], by decide⟩ replaced ∧ RemovedBy false replaced.log 201 ∧
      601 ∈ replaced.state.db.keyIds := by
  have hremoved : ∀ e ∈ replaced.log, ∀ k ∈ e.before.db.apiKeys, e.who = false →
      k.id ∉ (e.after Op.exec).db.keyIds → k.id = 201 := by decide
  have hkeys : ∀ a ∈ replaced.log, ∀ k ∈ (a.after Op.exec).db.apiKeys,
      a.who ≠ false → k.parentKeyId ≠ some 201 := by decide
  have hhooks : ∀ a ∈ replaced.log, (a.after Op.exec).db.hooks = [] := by decide
  have hrun : InFlight siblings withDaughter replaced :=
    ((Interleaved.initial.scheduled false 4).scheduled true 30).scheduled false 30
  have hdeletes : (siblings false).request = .deleteApiKey 201 ⟨[], by decide⟩ := rfl
  refine ⟨?_, ?_, by decide⟩
  · refine deletion_strands_nothing hrun hdeletes ?_ ?_
    · refine gainedInTime_of_none ?_
      rintro e he hwho p ⟨hbefore, hafter⟩ a ha hawho ⟨k, hk, hparent, -⟩
      obtain ⟨removed, hold, rfl⟩ := List.mem_map.mp hbefore
      rw [hremoved e he removed hold hwho hafter] at hparent
      exact hkeys a ha k hk hawho hparent
    · refine gainedInTime_of_none ?_
      rintro e he hwho p - a ha hawho ⟨hook, hhook, -⟩
      rw [hhooks a ha] at hhook
      cases hhook
  · have hevent : ∃ e ∈ replaced.log, e.who = false ∧ 201 ∈ e.before.db.keyIds ∧
        201 ∉ (e.after Op.exec).db.keyIds := by decide
    exact hevent

/-- The master deletes the parent while the parent mints another daughter. -/
def overtaken : Bool → Party
  | false => ⟨ctx 5, Sample.masterRow, .deleteApiKey 101 ⟨[], by decide⟩⟩
  | true => ⟨ctx 6, parentRow, .createApiKey { name := "sister" }⟩

/-- The daughter is minted after the deletion asked for the children of the parent. -/
def mintedLate : Config Op AppError AdminResponse World Bool :=
  ((Config.advance Op.exec false 2 ⟨fun i => (overtaken i).program, withDaughter, []⟩).advance
    Op.exec true 30).advance Op.exec false 30

/-- It is left under a key that is gone. -/
theorem daughter_stranded : InFlight overtaken withDaughter mintedLate ∧
    ¬StrandsNothing false ⟨[], by decide⟩ mintedLate := by
  refine ⟨((Interleaved.initial.scheduled false 2).scheduled true 30).scheduled false 30, ?_⟩
  rintro ⟨hkeys, -⟩
  have hleft : ∃ k ∈ mintedLate.state.db.apiKeys, k.parentKeyId = some 101 := by decide
  have hremoved : ∃ e ∈ mintedLate.log, e.who = false ∧ 101 ∈ e.before.db.keyIds ∧
      101 ∉ (e.after Op.exec).db.keyIds := by decide
  obtain ⟨k, hk, hparent⟩ := hleft
  exact hkeys k hk 101 hparent hremoved

end Sample

end HookExecutor
