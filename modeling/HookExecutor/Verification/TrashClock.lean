import HookExecutor.Verification.HookCustody
import HookExecutor.Verification.HookTakeover
import HookExecutor.Verification.TrashedHook

/-!
# How long a hook has been in the trash

A hook in the trash says since when it is there, and by whom. Nothing that finds
it by name writes to it any more, a deletion asks for a live row, and the sweeps
only take rows away. The deletion of a key does not ask: a hook of the subtree
that its map wants deleted is marked anew, also one that was in the trash
already.
-/

namespace HookExecutor

/-- A hook in the trash, with what it says of its deletion. -/
def Database.InTrash (db : Database) (id : Uuid) (deletedAt : Option DateTime)
    (deletedBy : Option String) : Prop :=
  ∃ h ∈ db.hooks, h.id = id ∧ h.isDeleted = true ∧ h.deletedAt = deletedAt ∧
    h.deletedBy = deletedBy

/-- Every hook that is in the trash afterwards was there before and said the same. -/
def TrashKept (before after : Database) : Prop :=
  ∀ id deletedAt deletedBy, after.InTrash id deletedAt deletedBy →
    before.InTrash id deletedAt deletedBy

/-- What puts no hook into the trash, and leaves the marks of those that are
there. -/
def TrashesNone : ∀ β, Op β → Prop
  | _, .db (.insertHook row) => row.isDeleted = false
  | _, .db (.updateHook _ u) =>
    u.isDeleted = some false ∨ u.isDeleted = none ∧ u.deletedAt = none ∧ u.deletedBy = none
  | _, .db (.updateHooks _ _) => False
  | _, _ => True

section Statements

variable {before after db : Database} {α : Type}

theorem trashKept_of_subset (h : after.hooks ⊆ before.hooks) : TrashKept before after := by
  rintro id deletedAt deletedBy ⟨g, hg, hmarks⟩
  exact ⟨g, h hg, hmarks⟩

theorem trashKept_of_eq (h : after.hooks = before.hooks) : TrashKept before after :=
  trashKept_of_subset (h ▸ List.Subset.refl _)

theorem TrashKept.trans (h : TrashKept before after) (h' : TrashKept after db) :
    TrashKept before db :=
  fun _ _ _ hmarks => h _ _ _ (h' _ _ _ hmarks)

theorem HookUpdate.at_keepsTrash {u : HookUpdate} (id : Uuid)
    (hu : u.isDeleted = some false ∨ u.isDeleted = none ∧ u.deletedAt = none ∧ u.deletedBy = none)
    (hafter : after.hooks = before.hooks.map (u.at_ id)) : TrashKept before after := by
  rintro id' deletedAt deletedBy ⟨g, hg, hid, hdeleted, hat, hby⟩
  rw [hafter] at hg
  obtain ⟨h, hh, rfl⟩ := List.mem_map.mp hg
  unfold HookUpdate.at_ at hid hdeleted hat hby
  split at hdeleted
  · next hself =>
    rw [if_pos hself] at hid hat hby
    rcases hu with hrestored | ⟨hd, ha, hb⟩
    · simp [HookUpdate.apply, hrestored] at hdeleted
    · simp only [HookUpdate.apply, hd, ha, hb, Option.getD_none] at hid hdeleted hat hby
      exact ⟨h, hh, hid, hdeleted, hat, hby⟩
  · next hother =>
    rw [if_neg hother] at hid hat hby
    exact ⟨h, hh, hid, hdeleted, hat, hby⟩

/-- One statement. -/
theorem TrashesNone.exec {β : Type} {q : Op β} (hq : TrashesNone β q) (w : World) :
    TrashKept w.db (Op.exec β q w).2.db := by
  rw [Op.exec_db]
  cases q with
  | db s =>
    cases s with
    | insertHook row =>
      change TrashKept w.db (w.db.insertHook row).2
      unfold Database.insertHook
      split
      · exact trashKept_of_eq rfl
      · rintro id deletedAt deletedBy ⟨g, hg, hid, hdeleted, hmarks⟩
        rcases List.mem_append.mp hg with hold | hnew
        · exact ⟨g, hold, hid, hdeleted, hmarks⟩
        · obtain rfl := List.mem_singleton.mp hnew
          exact absurd (hdeleted.symm.trans hq) nofun
    | updateHook id u =>
      rcases w.db.updateHook_hooks id u with hsame | hmap
      · exact trashKept_of_eq hsame
      · exact HookUpdate.at_keepsTrash id hq hmap
    | updateHooks c u => exact hq.elim
    | deleteHooks c => exact trashKept_of_subset fun _ => List.mem_of_mem_filter
    | _ => exact trashKept_of_eq (Stmt.exec_agree (t := .hooks) _ _ (by
        simp [Stmt.write?, Write.tables]))
  | _ => exact trashKept_of_eq rfl

/-- Statements that do not write the hooks. -/
theorem trashesNone_of_writes {W : List Write} {p : Handler α} (hp : p.Emits (WritesAmong W))
    (hW : .insertHook ∉ W ∧ .updateHook ∉ W ∧ .updateHooks ∉ W) : p.Emits TrashesNone := by
  refine hp.mono fun β q hq => ?_
  cases q with
  | db s =>
    cases s with
    | insertHook row => exact absurd (hq .insertHook rfl) hW.1
    | updateHook id u => exact absurd (hq .updateHook rfl) hW.2.1
    | updateHooks c u => exact absurd (hq .updateHooks rfl) hW.2.2
    | _ => trivial
  | _ => trivial

theorem trashKept_run {p : Handler α} (hp : p.Emits TrashesNone) (w : World) :
    TrashKept w.db (p.run Op.exec w).2.db :=
  (hp.mono fun _ _ hq w => hq.exec w).run_rel (R := fun s t : World => TrashKept s.db t.db)
    (fun _ => trashKept_of_eq rfl) (fun h h' => h.trans h') w

end Statements

/-! ### Requests -/

section Handlers

variable {ctx : Context} {key : ApiKey} {α : Type} {w : World}

theorem createHook_trashesNone (payload : CreateHookPayload) :
    (createHook ctx key payload).Emits TrashesNone := by
  refine .bind (Program.emits_ofExcept _) fun checked => .bind ?_ fun _ => ?_
  · refine .bind (p := trySql _) ⟨rfl, fun _ => trivial⟩ fun inserted => ?_
    cases inserted with
    | ok _ => trivial
    | error err =>
      cases err with
      | uniqueConstraintViolation =>
        exact trashesNone_of_writes (W := []) (.bind (.map _ (emits_read rfl)) fun _ => trivial)
          (by decide)
      | _ => trivial
  · refine trashesNone_of_writes (W := [.insertHookParameter, .upsertPermission, .insertAuditLog])
      ?_ (by decide)
    exact .bind (insertDeclared_writes (by decide) _ _ _ _) fun _ =>
      .bind (emits_write rfl (by decide)) fun _ =>
      .bind (createAuditLog_writes (by decide) _ _ _ _ _ _) fun _ =>
      .bind (findHookById_writes _) fun _ => .bind (emits_orElse _ _) fun _ =>
      buildHookDetail_writes _ _

theorem updateHook_trashesNone (identifier : String) (payload : UpdateHookPayload) :
    (updateHook ctx key identifier payload).Emits TrashesNone := by
  have hreads : ∀ {α : Type} {p : Handler α}, p.Emits (WritesAmong [.insertAuditLog]) →
      p.Emits TrashesNone := fun hp => trashesNone_of_writes hp (by decide)
  refine .bind (hreads (resolveHook_writes _)) fun model => .bind
    (hreads (guardUpdateHook_writes _ _ _)) fun runAsUser => .bind (Program.emits_ofExcept _)
      fun _ => .bind (Program.emits_ofExcept _) fun hmacSecret => .bind
        (hreads (loadParameters_writes _)) fun _ => .bind (Program.emits_ofExcept _) fun _ =>
          .bind ?_ fun _ => hreads ((createAuditLog_writes (by decide) _ _ _ _ _ _).bind fun _ =>
            buildHookDetail_writes _ _)
  refine .bind (p := trySql _) ⟨.inr ⟨rfl, rfl, rfl⟩, fun _ => trivial⟩ fun updated => ?_
  cases updated with
  | ok _ => trivial
  | error err => cases err <;> trivial

theorem restoreHook_trashesNone (identifier : String) :
    (restoreHook ctx key identifier).Emits TrashesNone := by
  have hreads : ∀ {α : Type} {p : Handler α}, p.Emits (WritesAmong [.insertAuditLog]) →
      p.Emits TrashesNone := fun hp => trashesNone_of_writes hp (by decide)
  refine .bind (Program.emits_require _ _) fun _ => .bind
    (hreads (resolveHookIncludingDeleted_writes _)) fun _ => .bind (Program.emits_require _ _)
      fun _ => .bind ⟨.inl rfl, fun _ => Program.emits_ofExcept _⟩ fun _ => hreads ?_
  exact (createAuditLog_writes (by decide) _ _ _ _ _ _).bind fun _ =>
    (findHookById_writes _).bind fun _ => .bind (emits_orElse _ _) fun _ =>
    buildHookDetail_writes _ _

/-- A deletion of a hook takes rows away, or marks one that was live. -/
theorem deleteHook_hooks (identifier : String) (query : DeleteHookQuery) (hwf : w.db.WellFormed) :
    let after := ((deleteHook ctx key identifier query).run Op.exec w).2.db.hooks
    after ⊆ w.db.hooks ∨ ∃ model ∈ w.db.hooks, model.isDeleted = false ∧
      after = w.db.hooks.map ((trashUpdate key (ctx.draws.now 0)).at_ model.id) := by
  dsimp only
  let M : List Hook → Prop := fun after => after ⊆ w.db.hooks ∨
    ∃ model ∈ w.db.hooks, model.isDeleted = false ∧
      after = w.db.hooks.map ((trashUpdate key (ctx.draws.now 0)).at_ model.id)
  let K : World → Prop := fun t => M t.db.hooks
  have hsame : K w := .inl (List.Subset.refl _)
  have hrest : ∀ {α : Type} {p : Handler α} {t : World}, p.Emits (WritesAmong [.insertAuditLog]) →
      M t.db.hooks → M (p.run Op.exec t).2.db.hooks := by
    intro α p t hp h
    rwa [Handler.run_hooks_eq hp (by decide)]
  have hresolve : ((if query.hard.getD false then resolveHookIncludingDeleted identifier
      else resolveHook identifier).run Op.exec w).2 = w := by
    split <;> simp
  refine Program.run_bind_read (K := K) hresolve hsame fun model hmodel => ?_
  refine Program.run_bind_read (K := K) (guardManage_snd _ _ _) hsame fun _ _ => ?_
  refine Program.run_bind_read (K := K) (by simp) hsame fun _ _ => ?_
  refine Program.run_bind_read (K := K) (by simp) hsame fun _ _ => ?_
  cases hhard : query.hard.getD false with
  | true =>
    refine Program.run_bind_read (K := K) (by simp) hsame fun _ _ => ?_
    refine Handler.bind_keep (K := fun db => M db.hooks) ?_ fun _ _ hstep =>
      hrest (.bind (Program.emits_require _ _) fun _ =>
        createAuditLog_writes (by decide) _ _ _ _ _ _) hstep
    rw [run_sql_snd]
    exact .inl fun _ => List.mem_of_mem_filter
  | false =>
    refine Handler.bind_keep (K := fun db => M db.hooks) ?_ fun _ _ hstep =>
      hrest (.bind (Program.emits_require _ _) fun _ =>
        createAuditLog_writes (by decide) _ _ _ _ _ _) hstep
    rw [hhard] at hmodel
    obtain ⟨hmem, hlive⟩ := Database.resolveLive_mem (run_resolveHook_ok.mp hmodel).2
    rw [run_sql_snd]
    rcases Database.updateHooks_trash (u := trashUpdate key (ctx.draws.now 0)) hwf hmem hlive with
      hkept | hmarked
    · exact .inl (hkept ▸ List.Subset.refl _)
    · exact .inr ⟨model, hmem, hlive, hmarked⟩

/-- The request may put the hook into the trash: it was live, or the deletion of
a key goes ahead that wants it deleted. -/
def AdminRequest.MayTrash (db : Database) (key : ApiKey) (id : Uuid) (request : AdminRequest) :
    Prop :=
  (∃ g ∈ db.hooks, g.id = id ∧ g.isDeleted = false) ∨
    ∃ keyId payload target, request = .deleteApiKey keyId payload ∧
      db.Deletes key keyId payload.resolutions target ∧ (id, .delete) ∈ payload.resolutions

/-- A hook in the trash after a request was there before and said the same, or
says that it was deleted by this request. -/
theorem handleAdmin_inTrash (request : AdminRequest) (hwf : w.db.WellFormed) {id : Uuid}
    {deletedAt : Option DateTime} {deletedBy : Option String}
    (h : ((handleAdmin ctx key request).run Op.exec w).2.db.InTrash id deletedAt deletedBy) :
    w.db.InTrash id deletedAt deletedBy ∨ deletedAt = some (ctx.draws.now 0) ∧
      deletedBy = some (Uuid.toText key.id) ∧ request.MayTrash w.db key id := by
  have hmap : ∀ {α β : Type} {p : Handler α} {f : α → β},
      ((f <$> p).run Op.exec w).2 = (p.run Op.exec w).2 := fun {_ _ p f} =>
    congrArg Prod.snd (Program.run_map f p w)
  cases request with
  | createHook payload => exact .inl (trashKept_run (.map _ (createHook_trashesNone _)) w _ _ _ h)
  | updateHook identifier payload =>
    exact .inl (trashKept_run (.map _ (updateHook_trashesNone _ _)) w _ _ _ h)
  | restoreHook identifier =>
    exact .inl (trashKept_run (.map _ (restoreHook_trashesNone _)) w _ _ _ h)
  | deleteHook identifier query =>
    change Database.InTrash ((_ <$> deleteHook ctx key identifier query).run Op.exec w).2.db _ _ _
      at h
    rw [hmap] at h
    rcases @deleteHook_hooks ctx key w identifier query hwf with
      hsubset | ⟨model, hmodel, hlive, hmarked⟩
    · exact .inl (trashKept_of_subset hsubset _ _ _ h)
    · obtain ⟨g, hg, rfl, hdeleted, rfl, rfl⟩ := h
      rw [hmarked] at hg
      obtain ⟨g, hold, rfl⟩ := List.mem_map.mp hg
      by_cases hself : g.id = model.id
      · refine .inr ?_
        rw [HookUpdate.at_, if_pos (by simpa using hself)]
        exact ⟨rfl, rfl, .inl ⟨model, hmodel, hself.symm, hlive⟩⟩
      · rw [HookUpdate.at_, if_neg (by simpa using hself)] at hdeleted ⊢
        exact .inl ⟨g, hold, rfl, hdeleted, rfl, rfl⟩
  | deleteApiKey keyId payload =>
    change Database.InTrash ((_ <$> deleteApiKey ctx key keyId payload).run Op.exec w).2.db _ _ _
      at h
    rw [hmap] at h
    rcases deleteApiKey_outcome ctx key keyId payload hwf with
      ⟨target, hdeletes, hhooks, -⟩ | ⟨-, hsame⟩
    · obtain ⟨g, hg, rfl, hdeleted, rfl, rfl⟩ := h
      rw [hhooks] at hg
      obtain ⟨g, hold, rfl⟩ := List.mem_map.mp hg
      by_cases hresolved : g.id ∈ payload.resolutions.map (·.1)
      · obtain ⟨⟨_, r⟩, hentry, rfl⟩ := List.mem_map.mp hresolved
        rw [settled_of_mem payload.nodup hentry] at hdeleted ⊢
        cases r with
        | delete =>
          exact .inr ⟨rfl, rfl, .inr ⟨keyId, payload, target, rfl, hdeletes, hentry⟩⟩
        | reassign heir => exact .inl ⟨g, hold, rfl, hdeleted, rfl, rfl⟩
      · rw [settled_of_notMem hresolved] at hdeleted ⊢
        exact .inl ⟨g, hold, rfl, hdeleted, rfl, rfl⟩
    · rw [hsame] at h
      exact .inl h
  | _ =>
    exact .inl (trashKept_run (trashesNone_of_writes (handleAdmin_writes ctx key _)
      (by simp [AdminRequest.writes])) w _ _ _ h)

end Handlers

/-! ### Runs -/

def Database.Trashed (db : Database) (id : Uuid) : Prop :=
  ∃ h ∈ db.hooks, h.id = id ∧ h.isDeleted = true

/-- Whatever lies in the trash under this id says that it was put there then and
by that key. -/
def Database.MarkedAs (db : Database) (id : Uuid) (since : DateTime) (deleter : ApiKey) : Prop :=
  ∀ deletedAt deletedBy, db.InTrash id deletedAt deletedBy →
    deletedAt = some since ∧ deletedBy = some (Uuid.toText deleter.id)

/-- No key is deleted with a map that wants the hook deleted while it lies in the
trash. (To write there what stands there does no harm.) -/
def PostponesNothing (id : Uuid) : RequestCondition := fun w ctx clock req =>
  ∀ key keyId resolutions, DeletesBy w ctx clock req key keyId resolutions →
    (id, .delete) ∈ resolutions → w.db.MarkedAs id (ctx.draws.now 0) key

/-- What a process comes to from a world in which the hook is in the trash, for
as long as it stays there: by starts, requests that meet the condition, and
sweeps. -/
inductive StaysTrashed (P : RequestCondition) (id : Uuid) (state₀ : AppState) (w₀ : World) :
    AppState → World → Prop
  | refl (trashed : w₀.db.Trashed id) : StaysTrashed P id state₀ w₀ state₀ w₀
  | restart {state state' : AppState} {w w' : World} (before : StaysTrashed P id state₀ w₀ state w)
      (start : Startup)
      (started : (boot state' start).run Op.exec (startProcess state' start w.db) = (.ok (), w')) :
      StaysTrashed P id state₀ w₀ state' w'
  | serve {state : AppState} {w : World} (before : StaysTrashed P id state₀ w₀ state w)
      (ctx : Context) (clock : AuthClock) (req : Request) (served : ctx.state = state)
      (meets : P w ctx clock req)
      (trashed : ((HookExecutor.serve ctx clock req).run Op.exec w).2.db.Trashed id) :
      StaysTrashed P id state₀ w₀ state ((HookExecutor.serve ctx clock req).run Op.exec w).2
  | sweepExecutions {state : AppState} {w : World} (before : StaysTrashed P id state₀ w₀ state w)
      (now : DateTime) :
      StaysTrashed P id state₀ w₀ state
        ((purgeExpiredExecutions now state.config.logRetentionDays).run Op.exec w).2
  | sweepDeletedHooks {state : AppState} {w : World}
      (before : StaysTrashed P id state₀ w₀ state w) (now : DateTime)
      (trashed : ((purgeExpiredDeletedHooks now state.config.deletedHookRetentionDays).run
        Op.exec w).2.db.Trashed id) :
      StaysTrashed P id state₀ w₀ state
        ((purgeExpiredDeletedHooks now state.config.deletedHookRetentionDays).run Op.exec w).2

section Runs

variable {P : RequestCondition} {id : Uuid} {state₀ state : AppState} {w₀ w : World}
  {since : DateTime} {deleter key : ApiKey} {ctx : Context} {clock : AuthClock} {req : Request}

theorem Database.Trashed.inTrash {db : Database} (h : db.Trashed id) :
    ∃ deletedAt deletedBy, db.InTrash id deletedAt deletedBy := by
  obtain ⟨g, hg, hid, hdeleted⟩ := h
  exact ⟨g.deletedAt, g.deletedBy, g, hg, hid, hdeleted, rfl, rfl⟩

theorem TrashKept.markedAs {before after : Database} (h : TrashKept before after)
    (hmarked : before.MarkedAs id since deleter) : after.MarkedAs id since deleter :=
  fun _ _ hin => hmarked _ _ (h _ _ _ hin)

/-- The two sweeps and a start take rows away, or leave the hooks alone. -/
theorem purgeExpiredDeletedHooks_trashKept (now : DateTime) (days : Int) (w : World) :
    TrashKept w.db ((purgeExpiredDeletedHooks now days).run Op.exec w).2.db := by
  refine trashKept_run ?_ w
  unfold purgeExpiredDeletedHooks
  split
  · trivial
  · exact .bind (Program.emits_ofExcept _) fun _ => ⟨trivial, fun _ => Program.emits_ofExcept _⟩

theorem purgeExpiredExecutions_hooks (now : DateTime) (days : Int) (w : World) :
    ((purgeExpiredExecutions now days).run Op.exec w).2.db.hooks = w.db.hooks :=
  Handler.run_hooks_eq (W := [.deleteExecutions]) (purgeExpiredExecutions_writes _ _ (by decide))
    (by decide) w

theorem boot_hooks {start : Startup} {db : Database} {w' : World}
    (h : (boot state start).run Op.exec (startProcess state start db) = (.ok (), w')) :
    w'.db.hooks = db.hooks := by
  have hkept := Handler.run_agree (t := .hooks) (boot_writes state start) (by decide)
    (startProcess state start db)
  rwa [h] at hkept

theorem StaysTrashed.reachable (hrun : StaysTrashed P id state₀ w₀ state w)
    (h : Reachable state₀ w₀) : Reachable state w := by
  induction hrun with
  | refl _ => exact h
  | restart _ start started ih => exact ih.restart start started
  | serve _ ctx clock req served _ _ ih => exact ih.serve ctx clock req served
  | sweepExecutions _ now ih => exact ih.sweepExecutions now
  | sweepDeletedHooks _ now _ ih => exact ih.sweepDeletedHooks now

theorem StaysTrashed.trashed (hrun : StaysTrashed P id state₀ w₀ state w) :
    w.db.Trashed id := by
  induction hrun with
  | refl trashed => exact trashed
  | restart _ start started ih =>
    unfold Database.Trashed
    rw [boot_hooks started]
    exact ih
  | serve _ ctx clock req served _ trashed => exact trashed
  | sweepExecutions _ now ih =>
    unfold Database.Trashed
    rw [purgeExpiredExecutions_hooks]
    exact ih
  | sweepDeletedHooks _ now trashed => exact trashed

theorem StaysTrashed.first (hrun : StaysTrashed P id state₀ w₀ state w) : w₀.db.Trashed id := by
  induction hrun with
  | refl trashed => exact trashed
  | _ => assumption

/-- A request leaves the marks of what is in the trash, but for a deletion of the
key: one that puts the hook there leaves its own. -/
theorem serve_inTrash (hsound : w.Sound) {deletedAt : Option DateTime} {deletedBy : Option String}
    (h : ((serve ctx clock req).run Op.exec w).2.db.InTrash id deletedAt deletedBy) :
    w.db.InTrash id deletedAt deletedBy ∨
      ∃ key request w₁, (authenticate ctx clock req).run Op.exec w =
          (.ok (.admin key request), w₁) ∧ w₁.db = w.db ∧
        deletedAt = some (ctx.draws.now 0) ∧ deletedBy = some (Uuid.toText key.id) ∧
        request.MayTrash w.db key id := by
  rcases serve_agree_or_admin ctx clock req w with
    ⟨-, hagree⟩ | ⟨key, request, w₁, hauth, hdb, hserved⟩
  · exact .inl (trashKept_of_eq (hagree .hooks (by decide)) _ _ _ h)
  · rw [hserved] at h
    rcases handleAdmin_inTrash request (hdb ▸ hsound.wellFormed) h with hkept | ⟨hat, hby, hmay⟩
    · exact .inl (hdb ▸ hkept)
    · exact .inr ⟨key, request, w₁, hauth, hdb, hat, hby, hdb ▸ hmay⟩

/-- While the hook is in the trash, a request leaves its marks exactly if it
postpones nothing. -/
theorem serve_markedAs_iff (hsound : w.Sound) (htrashed : w.db.Trashed id)
    (hmarked : w.db.MarkedAs id since deleter) :
    ((serve ctx clock req).run Op.exec w).2.db.MarkedAs id since deleter ↔
      PostponesNothing id w ctx clock req := by
  obtain ⟨g, hg, hid, hdeleted⟩ := htrashed
  constructor
  · rintro hafter key keyId resolutions hdeletes hentry deletedAt deletedBy hin
    obtain ⟨rfl, rfl⟩ := hmarked _ _ hin
    -- the deletion has marked the hook as its own
    have hnew : ((serve ctx clock req).run Op.exec w).2.db.InTrash id
        (some (ctx.draws.now 0)) (some (Uuid.toText key.id)) := by
      have hnodup : (resolutions.map (·.1)).Nodup := by
        obtain ⟨payload, w₁, target, -, rfl, -⟩ := hdeletes
        exact payload.nodup
      refine ⟨settled key (ctx.draws.now 0) resolutions g, ?_, settled_id.trans hid, ?_⟩
      · rw [(hdeletes.after hsound).1]
        exact List.mem_map_of_mem hg
      · rw [settled_of_mem hnodup (hid ▸ hentry)]
        exact ⟨rfl, rfl, rfl⟩
    obtain ⟨hat, hby⟩ := hafter _ _ hnew
    exact ⟨hat.symm, hby.symm⟩
  · intro hnothing deletedAt deletedBy hin
    rcases serve_inTrash hsound hin with hkept | ⟨key, request, w₁, hauth, hdb, rfl, rfl, hmay⟩
    · exact hmarked _ _ hkept
    · rcases hmay with ⟨g', hg', hid', hlive⟩ | ⟨keyId, payload, target, rfl, hdeletes, hentry⟩
      · obtain rfl := hsound.wellFormed.hook_eq_of_id hg' hg (hid'.trans hid.symm)
        exact absurd (hdeleted.symm.trans hlive) nofun
      · have hold : w.db.InTrash id g.deletedAt g.deletedBy := ⟨g, hg, hid, hdeleted, rfl, rfl⟩
        obtain ⟨hat, hby⟩ := hmarked _ _ hold
        obtain ⟨hat', hby'⟩ := hnothing key keyId payload.resolutions
          ⟨payload, w₁, target, hauth, rfl, hdeletes⟩ hentry _ _ hold
        exact ⟨hat'.symm.trans hat, hby'.symm.trans hby⟩

/-- What the first world of a run says, all of it says. -/
theorem StaysTrashed.markedAs (hrun : StaysTrashed (PostponesNothing id) id state₀ w₀ state w)
    (h : Reachable state₀ w₀) (hmarked : w₀.db.MarkedAs id since deleter) :
    w.db.MarkedAs id since deleter := by
  induction hrun with
  | refl _ => exact hmarked
  | restart _ start started ih => exact (trashKept_of_eq (boot_hooks started)).markedAs ih
  | serve before ctx clock req served meets _ ih =>
    exact (serve_markedAs_iff (before.reachable h).sound before.trashed ih).mpr meets
  | sweepExecutions _ now ih =>
    exact (trashKept_of_eq (purgeExpiredExecutions_hooks _ _ _)).markedAs ih
  | sweepDeletedHooks _ now _ ih => exact (purgeExpiredDeletedHooks_trashKept _ _ _).markedAs ih

/-- The window since this moment has passed. -/
def WindowPassed (since now : DateTime) (days : Int) : Prop :=
  0 < days ∧ minDateTime ≤ now - days * nanosPerDay ∧ since + days * nanosPerDay < now

theorem run_purgeExpiredDeletedHooks (now : DateTime) (days : Int) (w : World) :
    ((purgeExpiredDeletedHooks now days).run Op.exec w).2.db.hooks =
      if 0 < days ∧ minDateTime ≤ now - days * nanosPerDay then
        w.db.hooks.filter fun h =>
          !(h.isDeleted && h.deletedAt.any (· < now - days * nanosPerDay))
      else w.db.hooks := by
  unfold purgeExpiredDeletedHooks purgeThreshold
  by_cases hdays : days ≤ 0
  · rw [if_pos hdays, if_neg fun h => absurd h.1 (not_lt.mpr hdays)]
    rfl
  · rw [if_neg hdays]
    by_cases hmin : now - days * nanosPerDay < minDateTime
    · rw [if_neg fun h : 0 < days ∧ minDateTime ≤ now - days * nanosPerDay =>
        not_lt.mpr h.2 hmin, if_pos hmin]
      rfl
    · rw [if_neg hmin, if_pos (show 0 < days ∧ minDateTime ≤ now - days * nanosPerDay from
        ⟨not_le.mp hdays, not_lt.mp hmin⟩)]
      change (Database.deleteHooks w.db _).2.hooks = _
      refine List.filter_congr fun h _ => ?_
      simp only [HookCondition.holds]
      cases h.isDeleted <;> rfl

/-- A sweep removes a hook of the trash exactly if the window since its deletion
has passed. -/
theorem sweep_trashed_iff (htrashed : w.db.Trashed id) (hmarked : w.db.MarkedAs id since deleter)
    (now : DateTime) (days : Int) :
    ((purgeExpiredDeletedHooks now days).run Op.exec w).2.db.Trashed id ↔
      ¬WindowPassed since now days := by
  unfold Database.Trashed
  rw [run_purgeExpiredDeletedHooks]
  by_cases hsweeps : 0 < days ∧ minDateTime ≤ now - days * nanosPerDay
  · have hpassed : WindowPassed since now days ↔ since < now - days * nanosPerDay :=
      ⟨fun h => lt_sub_iff_add_lt.mpr h.2.2, fun h => ⟨hsweeps.1, hsweeps.2,
        lt_sub_iff_add_lt.mp h⟩⟩
    rw [if_pos hsweeps, hpassed]
    constructor
    · rintro ⟨g, hg, hid, hdeleted⟩ hexpired
      obtain ⟨hmem, hkept⟩ := List.mem_filter.mp hg
      obtain ⟨hat, -⟩ := hmarked _ _ ⟨g, hmem, hid, hdeleted, rfl, rfl⟩
      simp [hdeleted, hat, hexpired] at hkept
    · intro hwithin
      obtain ⟨g, hg, hid, hdeleted⟩ := htrashed
      obtain ⟨hat, -⟩ := hmarked _ _ ⟨g, hg, hid, hdeleted, rfl, rfl⟩
      exact ⟨g, List.mem_filter.mpr ⟨hg, by simp [hdeleted, hat, hwithin]⟩, hid, hdeleted⟩
  · rw [if_neg hsweeps]
    exact iff_of_true htrashed fun h => hsweeps ⟨h.1, h.2.1⟩

/-- From the request that puts a hook into the trash, over any run in which no
key is deleted with a map that wants the trashed hook deleted, and until the hook
is restored or purged: the hook says that it was deleted by that request's caller
at that time, the sweep purges it exactly if the window since then has passed,
and the next request that finds it in the trash leaves its marks exactly if it
meets the condition. -/
theorem trash_clock (hw : Reachable state₀ w₀) (hserved : ctx.state = state₀)
    (hout : ¬w₀.db.Trashed id)
    (hrun : StaysTrashed (PostponesNothing id) id state₀
      ((serve ctx clock req).run Op.exec w₀).2 state w) :
    ∃ key request w₁,
      (authenticate ctx clock req).run Op.exec w₀ = (.ok (.admin key request), w₁) ∧
      w.db.MarkedAs id (ctx.draws.now 0) key ∧
      (∀ now, ((purgeExpiredDeletedHooks now state.config.deletedHookRetentionDays).run
          Op.exec w).2.db.Trashed id ↔
        ¬WindowPassed (ctx.draws.now 0) now state.config.deletedHookRetentionDays) ∧
      ∀ ctx' clock' req', ctx'.state = state →
        (((serve ctx' clock' req').run Op.exec w).2.db.MarkedAs id (ctx.draws.now 0) key ↔
          PostponesNothing id w ctx' clock' req') := by
  have hsound := hw.sound
  have hreach := hw.serve ctx clock req hserved
  have hfirst : ((serve ctx clock req).run Op.exec w₀).2.db.Trashed id := hrun.first
  obtain ⟨deletedAt, deletedBy, hin⟩ := hfirst.inTrash
  rcases serve_inTrash hsound hin with
    ⟨g, hg, hid, hdeleted, -⟩ | ⟨key, request, w₁, hauth, -⟩
  · exact absurd ⟨g, hg, hid, hdeleted⟩ hout
  · -- whatever is there now was put there by this request
    have hmarked : ((serve ctx clock req).run Op.exec w₀).2.db.MarkedAs id
        (ctx.draws.now 0) key := by
      intro deletedAt deletedBy hin
      rcases serve_inTrash hsound hin with
        ⟨g, hg, hid, hdeleted, -⟩ | ⟨key', request', w', hauth', -, hat, hby, -⟩
      · exact absurd ⟨g, hg, hid, hdeleted⟩ hout
      · cases hauth.symm.trans hauth'
        exact ⟨hat, hby⟩
    have hkept := hrun.markedAs hreach hmarked
    exact ⟨key, request, w₁, hauth, hkept, fun now => sweep_trashed_iff hrun.trashed hkept _ _,
      fun _ _ _ _ => serve_markedAs_iff (hrun.reachable hreach).sound hrun.trashed hkept⟩

end Runs

section Sample

open Sample

theorem postponesNothing_of_ne {id : Uuid} {w : World} {ctx : Context} {clock : AuthClock}
    {http : HttpRequest} {request : AdminRequest}
    (hother : ∀ keyId payload, request ≠ .deleteApiKey keyId payload) :
    PostponesNothing id w ctx clock (.admin http request) := by
  rintro key keyId resolutions ⟨payload, w₁, target, hauth, -⟩
  exact absurd (authenticate_admin_request hauth).symm (hother keyId payload)

theorem not_trashed_withOwned : ¬withOwned.db.Trashed 201 := by
  rintro ⟨h, hmem, -, hdeleted⟩
  obtain rfl := List.mem_singleton.mp hmem
  exact absurd hdeleted (by decide)

theorem trashed_discardedByOwner : discardedByOwner.db.Trashed 201 :=
  ⟨discardedHook, List.mem_singleton_self _, rfl, rfl⟩

/-- A day short of the end of the window. -/
def lateCtx : Context :=
  { ctx 4 with draws := { draws 4 with
      now := fun _ => epochSeconds * nanosPerSecond + 29 * nanosPerDay } }

/-- The master deletes the maker, and wants its hook deleted. -/
def reclaim : Request := .admin (bearer "/keys" masterKey) disinheriting

def remarkedHook : Hook := (trashUpdate Sample.masterRow (lateCtx.draws.now 0)).apply discardedHook

def reclaimed : World := ((serve lateCtx clock reclaim).run Op.exec discardedByOwner).2

/-- The master looks the trashed hook up a day before the window ends. -/
def inspect : Request :=
  .admin (bearer "/hooks" masterKey) (.getHook "deploy" { includeDeleted := some true })

def inspected : World := ((serve lateCtx clock inspect).run Op.exec discardedByOwner).2

theorem late_hooks :
    reclaimed.db.hooks = [remarkedHook] ∧ inspected.db.hooks = [discardedHook] := by
  decide

theorem staysTrashed_inspected : StaysTrashed (PostponesNothing 201) 201 Sample.state
    discardedByOwner Sample.state inspected :=
  .serve (.refl trashed_discardedByOwner) lateCtx clock inspect rfl
    (postponesNothing_of_ne fun _ _ => nofun)
    ⟨discardedHook, late_hooks.2 ▸ List.mem_singleton_self _, rfl, rfl⟩

theorem trash_clock_maker :
    ∃ key request w₁,
      (authenticate (ctx 3) clock discardOwned).run Op.exec withOwned =
        (.ok (.admin key request), w₁) ∧
      inspected.db.MarkedAs 201 ((ctx 3).draws.now 0) key ∧
      (∀ now, ((purgeExpiredDeletedHooks now Sample.state.config.deletedHookRetentionDays).run
          Op.exec inspected).2.db.Trashed 201 ↔
        ¬WindowPassed ((ctx 3).draws.now 0) now Sample.state.config.deletedHookRetentionDays) ∧
      ∀ ctx' clock' req', ctx'.state = Sample.state →
        (((serve ctx' clock' req').run Op.exec inspected).2.db.MarkedAs 201
            ((ctx 3).draws.now 0) key ↔
          PostponesNothing 201 inspected ctx' clock' req') := by
  refine @trash_clock 201 Sample.state Sample.state withOwned inspected (ctx 3) clock discardOwned
    reachable_withOwned rfl not_trashed_withOwned ?_
  have hfirst : ((serve (ctx 3) clock discardOwned).run Op.exec withOwned).2 = discardedByOwner :=
    serveAt_discardOwned
  rw [hfirst]
  exact staysTrashed_inspected

/-- A hook that lies in the trash already is trashed again with its owner's key,
a day before it was to be purged. -/
theorem trash_clock_restarts :
    ¬∀ {state₀ state : AppState} {w₀ w : World} {id : Uuid} {ctx : Context} {clock : AuthClock}
      {req : Request}, Reachable state₀ w₀ → ctx.state = state₀ → ¬w₀.db.Trashed id →
      StaysTrashed (fun _ _ _ _ => True) id state₀ ((serve ctx clock req).run Op.exec w₀).2
        state w →
      ∃ key request w₁,
        (authenticate ctx clock req).run Op.exec w₀ = (.ok (.admin key request), w₁) ∧
        w.db.MarkedAs id (ctx.draws.now 0) key := by
  intro hclaim
  have hfirst : ((serve (ctx 3) clock discardOwned).run Op.exec withOwned).2 = discardedByOwner :=
    serveAt_discardOwned
  have hmem : remarkedHook ∈ reclaimed.db.hooks := late_hooks.1 ▸ List.mem_singleton_self _
  have hrun : StaysTrashed (fun _ _ _ _ => True) 201 Sample.state discardedByOwner Sample.state
      reclaimed :=
    .serve (.refl trashed_discardedByOwner) lateCtx clock reclaim rfl trivial
      ⟨remarkedHook, hmem, rfl, rfl⟩
  rw [← hfirst] at hrun
  obtain ⟨key, request, w₁, -, hmarked⟩ :=
    hclaim reachable_withOwned rfl not_trashed_withOwned hrun
  obtain ⟨hat, -⟩ := hmarked _ _ ⟨remarkedHook, hmem, rfl, rfl, rfl, rfl⟩
  exact absurd hat (by decide)

end Sample

end HookExecutor
