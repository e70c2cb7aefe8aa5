import HookExecutor.Lib.Interruption
import HookExecutor.Verification.Cascade

/-!
# A deletion that is cut short

A deletion is one statement after another, with no transaction around them. It
looks before it writes, so most of it can be cut anywhere; from its first
resolution on, wherever it stops is where the database stays. What is left is
then a prefix of the map applied with every key still there, or a deletion that
went through and may lack its audit row: no key goes before its last hook does.
-/

namespace HookExecutor

/-- A statement can fail; nothing else a handler does can. -/
def Op.Fails : ∀ β, Op β → β → Prop
  | _, .db _, answer => ∃ err, answer = .error err
  | _, _, _ => False

/-! ### Every handler on the way gives up -/

section GivesUp

open Program

theorem givesUp_sql {β : Type} (s : Stmt β) : (sql s).GivesUp Op.Fails := by
  refine ⟨?_, fun _ => givesUp_ofExcept _⟩
  rintro _ ⟨err, rfl⟩
  exact ⟨_, rfl⟩

theorem givesUp_orElse {α : Type} (found : Option α) (e : AppError) :
    (orElse found e).GivesUp Op.Fails := by
  cases found <;> trivial

theorem findApiKeyById_givesUp (id : Uuid) : (findApiKeyById id).GivesUp Op.Fails :=
  (givesUp_sql _).map _

theorem descendantKeyIds_givesUp (root : Uuid) : (descendantKeyIds root).GivesUp Op.Fails := by
  have hlevels : ∀ (fuel : Nat) (seen frontier : List Uuid),
      (Walk.levels childKeyIds root fuel seen frontier : Handler _).GivesUp Op.Fails := by
    intro fuel
    induction fuel with
    | zero => exact fun _ _ => trivial
    | succ fuel ih =>
      intro seen frontier
      exact givesUp_unless (((givesUp_sql _).map _).bind fun _ => ih _ _)
  exact hlevels _ _ _

theorem keyVisibility_givesUp (caller target : ApiKey) :
    (keyVisibility caller target).GivesUp Op.Fails :=
  givesUp_unless <| (descendantKeyIds_givesUp _).bind fun _ => givesUp_unless <|
    ((givesUp_sql _).map _).bind fun _ => givesUp_unless <| (givesUp_sql _).bind fun _ => trivial

theorem loadAdministrableKey_givesUp (caller : ApiKey) (id : Uuid) :
    (loadAdministrableKey caller id).GivesUp Op.Fails :=
  (findApiKeyById_givesUp _).bind fun _ => (givesUp_orElse _ _).bind fun _ =>
    (keyVisibility_givesUp _ _).bind fun _ => (givesUp_require _ _).bind fun _ => trivial

theorem collectSubtreeInventory_givesUp (root : Uuid) :
    (collectSubtreeInventory root).GivesUp Op.Fails :=
  (descendantKeyIds_givesUp _).bind fun _ => (givesUp_sql _).bind fun _ =>
    (givesUp_sql _).bind fun _ => trivial

theorem validateReassignments_givesUp (subtree : List Uuid)
    (resolutions : List (Uuid × EntityResolution)) :
    (validateReassignments subtree resolutions).GivesUp Op.Fails := by
  induction resolutions with
  | nil => trivial
  | cons entry rest ih =>
    refine GivesUp.bind ?_ fun _ => ih
    obtain ⟨hookId, r⟩ := entry
    cases r with
    | delete => trivial
    | reassign heir =>
      exact (givesUp_require _ _).bind fun _ => (findApiKeyById_givesUp _).bind fun _ =>
        givesUp_require _ _

theorem applyResolutions_givesUp (key : ApiKey) (now : DateTime)
    (resolutions : List (Uuid × EntityResolution)) (counts : ResolutionCounts) :
    (applyResolutions key now resolutions counts).GivesUp Op.Fails := by
  induction resolutions generalizing counts with
  | nil => trivial
  | cons entry rest ih =>
    refine GivesUp.bind ((givesUp_sql _).map _) fun found => ?_
    cases found with
    | none => exact ih _
    | some _ => exact (givesUp_sql _).bind fun _ => ih _

theorem deletionCheck_givesUp (key : ApiKey) (id : Uuid) (payload : DeleteApiKeyPayload) :
    (deletionCheck key id payload).GivesUp Op.Fails :=
  (givesUp_ofExcept _).bind fun _ => (givesUp_require _ _).bind fun _ =>
    (loadAdministrableKey_givesUp _ _).bind fun _ => (givesUp_ofExcept _).bind fun _ =>
      (givesUp_ofExcept _).bind fun _ => (collectSubtreeInventory_givesUp _).bind fun _ =>
        (givesUp_ofExcept _).bind fun _ => (validateReassignments_givesUp _ _).bind fun _ => trivial

theorem deleteApiKey_givesUp (ctx : Context) (key : ApiKey) (id : Uuid)
    (payload : DeleteApiKeyPayload) : (deleteApiKey ctx key id payload).GivesUp Op.Fails := by
  rw [deleteApiKey_eq]
  exact (deletionCheck_givesUp _ _ _).bind fun _ => (applyResolutions_givesUp _ _ _ _).bind fun _ =>
    (givesUp_sql _).bind fun _ => (givesUp_require _ _).bind fun _ => givesUp_sql _

end GivesUp

/-! ### Where it can stop -/

section Points

open Program

variable {α β : Type} {key target : ApiKey} {id : Uuid} {payload : DeleteApiKeyPayload} {w : World}
  {K : Database → Prop}

/-- A statement is done or it is not. -/
theorem throughout_sql {s : Stmt β} (hbefore : K w.db)
    (hafter : K ((sql s).run Op.exec w).2.db) : Throughout Op.exec (K ·.db) (sql s) w := by
  refine throughout_query hbefore ?_
  rw [sql, run_query, run_ofExcept] at hafter
  cases (Op.exec _ (.db s) w).1.mapError AppError.dbError with
  | ok a => exact throughout_pure hafter
  | error e => exact throughout_fail hafter

/-- A program that writes nothing leaves the database alone at every point. -/
theorem throughout_read {p : Handler α} (hp : p.Emits (WritesAmong [])) (hw : K w.db) :
    Throughout Op.exec (K ·.db) p w := fun n => by
  have hsame : w.db = (p.advance Op.exec n w).2.db :=
    Emits.advance_rel (R := fun s t => s.db = t.db)
      (hp.mono fun _ _ hq v => hq.exec_rel (respects_nil _) (fun _ => rfl) v) (fun _ => rfl)
      Eq.trans n w
  show K _
  rwa [← hsame]

/-- The loop over the map passes the prefixes of the map. -/
theorem applyResolutions_throughout (key : ApiKey) (now : DateTime)
    (resolutions : List (Uuid × EntityResolution)) (counts : ResolutionCounts)
    (hnames : w.db.hookNames.Nodup) (hnodup : (resolutions.map (·.1)).Nodup)
    (hK : ∀ j ≤ resolutions.length, K (w.settledBy key now (resolutions.take j)).db) :
    Throughout Op.exec (K ·.db) (applyResolutions key now resolutions counts) w := by
  have hstart : K w.db := by simpa using hK 0 (Nat.zero_le _)
  induction resolutions generalizing w counts with
  | nil => exact throughout_pure hstart
  | cons entry rest ih =>
    have hlater : ∀ counts', Throughout Op.exec (K ·.db)
        (applyResolutions key now rest counts') (w.settledBy key now [entry]) := by
      intro counts'
      have hrest : ∀ j ≤ rest.length,
          K ((w.settledBy key now [entry]).settledBy key now (rest.take j)).db := by
        intro j hj
        have := hK (j + 1) (Nat.succ_le_succ hj)
        rwa [List.take_succ_cons, World.settledBy_cons
          (hnodup.sublist ((List.take_sublist (j + 1) (entry :: rest)).map _))] at this
      exact ih counts' (by rwa [World.settledBy_hookNames]) hnodup.of_cons hrest
        (by simpa using hrest 0 (Nat.zero_le _))
    refine throughout_bind_ok (run_findHookById w entry.1)
      (throughout_read (findHookById_writes _) hstart) ?_
    cases hfound : w.db.hookWithId entry.1 with
    | none => simpa only [World.settledBy_of_none hfound] using hlater counts
    | some found =>
      have hwrite : (sql (.updateHook entry.1 (resolutionUpdate key now entry.2))).run Op.exec w =
          (.ok _, w.settledBy key now [entry]) := run_updateHook_resolution hnames hfound
      refine throughout_bind_ok hwrite (throughout_sql hstart ?_) (hlater _)
      rw [hwrite]
      exact (hlater counts).start

end Points

/-! ### What it can leave -/

/-- The database after a deletion that went through to its audit row. -/
def Database.deleted (db : Database) (key : ApiKey) (now : DateTime) (id : Uuid)
    (resolutions : List (Uuid × EntityResolution)) (row : AuditLog) : Database :=
  let after := db.afterDeletion key now id resolutions
  { after with auditLogs := after.auditLogs ++ [row] }

/-- What a deletion leaves wherever it stops: nothing done; the first entries of
the map applied and every key still there; all of them applied and the subtree
gone; or that, and the row that tells of it. -/
inductive DeletionLeaves (before : Database) (key : ApiKey) (now : DateTime) (id : Uuid)
    (resolutions : List (Uuid × EntityResolution)) : Database → Prop
  | untouched : DeletionLeaves before key now id resolutions before
  | resolving {target : ApiKey} {j : Nat} (goes : before.Deletes key id resolutions target)
      (hj : j ≤ resolutions.length) : DeletionLeaves before key now id resolutions
        { before with hooks := before.hooks.map (settled key now (resolutions.take j)) }
  | unaudited {target : ApiKey} (goes : before.Deletes key id resolutions target) :
      DeletionLeaves before key now id resolutions (before.afterDeletion key now id resolutions)
  | complete {target : ApiKey} {row : AuditLog} (goes : before.Deletes key id resolutions target)
      (action : row.action = "KEY_DELETE") (author : row.apiKeyId = some key.id)
      (resource : row.targetResource = some target.name) :
      DeletionLeaves before key now id resolutions (before.deleted key now id resolutions row)

section Leaves

open Program

variable {ctx : Context} {key target : ApiKey} {id : Uuid} {payload : DeleteApiKeyPayload}
  {w : World}

theorem Database.insertAuditLog_snd (db : Database) (row : AuditLog) :
    (db.insertAuditLog row).2 = db ∨
      (db.insertAuditLog row).2 = { db with auditLogs := db.auditLogs ++ [row] } := by
  unfold insertAuditLog
  split
  · exact .inl rfl
  · split
    · exact .inr rfl
    · exact .inl rfl

theorem deletionApply_throughout (ctx : Context) (hnames : w.db.hookNames.Nodup)
    (hdeletes : w.db.Deletes key id payload.resolutions target) :
    Throughout Op.exec
      (fun t => DeletionLeaves w.db key (ctx.draws.now 0) id payload.resolutions t.db)
      (deletionApply ctx key id payload target (w.db.inventoryOf id)) w := by
  have hresolving : ∀ j ≤ payload.resolutions.length,
      DeletionLeaves w.db key (ctx.draws.now 0) id payload.resolutions
        (w.settledBy key (ctx.draws.now 0) (payload.resolutions.take j)).db :=
    fun j hj => .resolving hdeletes hj
  have hsettled := hresolving _ le_rfl
  rw [List.take_length] at hsettled
  obtain ⟨counts, hresolve⟩ := applyResolutions_run key (ctx.draws.now 0) payload.resolutions
    ⟨0, 0⟩ hnames payload.nodup
  have hdelete := run_deleteSubtree w key (ctx.draws.now 0) id payload.resolutions
  refine throughout_bind_ok hresolve
    (applyResolutions_throughout _ _ _ _ hnames payload.nodup hresolving) ?_
  refine throughout_bind_ok hdelete (throughout_sql hsettled ?_) ?_
  · rw [hdelete]
    exact .unaudited hdeletes
  refine throughout_bind_ok (by rw [run_require, if_pos hdeletes.removed_ne_zero])
    (throughout_read (emits_require _ _) (.unaudited hdeletes)) ?_
  refine throughout_sql (.unaudited hdeletes) ?_
  rw [Handler.exec_sql]
  rcases Database.insertAuditLog_snd (w.db.afterDeletion key (ctx.draws.now 0) id
    payload.resolutions) _ with hrow | hrow
  · exact (congrArg _ hrow).mpr (.unaudited hdeletes)
  · exact (congrArg _ hrow).mpr (.complete hdeletes rfl rfl rfl)

/-- Wherever a deletion is cut short, by a statement that fails or by being
dropped, keys are only missing once the whole map was applied. -/
theorem deletion_cut_short {state : AppState} (hw : Reachable state w) {t : World}
    (hcut : CutShort Op.exec Op.Fails (deleteApiKey ctx key id payload) w t) :
    DeletionLeaves w.db key (ctx.draws.now 0) id payload.resolutions t.db := by
  refine hcut.of_throughout (deleteApiKey_givesUp _ _ _ _)
    (J := fun t => DeletionLeaves w.db key (ctx.draws.now 0) id payload.resolutions t.db) ?_
  rw [deleteApiKey_eq]
  refine throughout_bind (throughout_read (deletionCheck_writes _ _ _) .untouched)
    fun checked s hcheck => ?_
  obtain ⟨rfl, hfound, hdeletes⟩ := deletionCheck_ok.mp hcheck
  rw [hfound]
  exact deletionApply_throughout ctx hw.sound.wellFormed.hookNames hdeletes

end Leaves

section Sample

open Sample

/-- The deletion of the maker, dropped after the update of its hook. -/
def halfDone : World :=
  ((deleteApiKey (ctx 3) Sample.masterRow 101 inheriting).advance Op.exec 7 withOwned).2

theorem deletion_cut_short_halfDone : DeletionLeaves withOwned.db Sample.masterRow
    ((ctx 3).draws.now 0) 101 inheriting.resolutions halfDone.db :=
  deletion_cut_short reachable_withOwned (Program.cutShort_advance 7 _ _)

/-- The hook is its heir's, and the key it was taken from is still there. -/
theorem deletion_stops_half_done :
    ¬∀ t, Program.CutShort Op.exec Op.Fails
        (deleteApiKey (ctx 3) Sample.masterRow 101 inheriting) withOwned t →
      t.db = withOwned.db ∨ ∃ row : AuditLog, t.db = withOwned.db.deleted Sample.masterRow
        ((ctx 3).draws.now 0) 101 inheriting.resolutions row := by
  intro hatomic
  have howner : (halfDone.db.hookWithId 201).map (·.ownerKeyId) ≠
      (withOwned.db.hookWithId 201).map (·.ownerKeyId) := by decide
  have hkeys : 101 ∈ halfDone.db.keyIds := by decide
  have hgone : 101 ∉ (withOwned.db.afterDeletion Sample.masterRow
      ((ctx 3).draws.now 0) 101 inheriting.resolutions).keyIds := by decide
  rcases hatomic halfDone (Program.cutShort_advance 7 _ _) with hsame | ⟨row, hdone⟩
  · exact howner (by rw [hsame])
  · rw [hdone] at hkeys
    exact hgone hkeys

end Sample

end HookExecutor
