import HookExecutor.Lib.Guarantee
import HookExecutor.Verification.Parties
import HookExecutor.Verification.HookEffects
import HookExecutor.Verification.Sample

/-!
# Deleting and restoring a hook at the same time

Each request that moves a hook into or out of the trash leaves a row in the audit
trail. A deletion writes on condition that the hook is still live, so the
database picks one of several. A restore writes whatever it meets: two of them
that both found the hook in the trash both report that they restored it.
-/

namespace HookExecutor

/-! ### What is counted -/

def World.live (w : World) (id : Uuid) : Bool := w.db.hooks.any fun h => h.id == id && !h.isDeleted

def World.trashed (w : World) (id : Uuid) : Bool :=
  w.db.hooks.any fun h => h.id == id && h.isDeleted

def Database.auditCount (action : String) (db : Database) : Nat :=
  db.auditLogs.countP (·.action == action)

def AdminRequest.isSoftDelete : AdminRequest → Bool
  | .deleteHook _ query => !query.hard.getD false
  | _ => false

def AdminRequest.isRestore : AdminRequest → Bool
  | .restoreHook _ => true
  | _ => false

/-- The request asks to move the hook into the trash or out of it. -/
def AdminRequest.MovesHook (db : Database) (id : Uuid) : AdminRequest → Prop
  | .deleteHook identifier query =>
    query.hard.getD false = false ∧ (db.resolve identifier).map (·.id) = some id
  | .restoreHook identifier => (db.resolve identifier).map (·.id) = some id
  | _ => False

/-- A request that came to its end, and not by a statement that failed. -/
def Handler.ranThrough {α : Type} : Handler α → Bool
  | .pure _ => true
  | .fail (.dbError _) => false
  | .fail _ => true
  | .query _ _ => false

def Handler.succeeded {α : Type} : Handler α → Bool
  | .pure _ => true
  | _ => false

section Counts

variable {ι : Type}

/-- The hook goes into the trash at this event. -/
def Event.trashes (id : Uuid) (e : Event Op World ι) : Bool :=
  e.before.live id && (e.after Op.exec).trashed id

/-- The hook comes out of the trash at this event. -/
def Event.restores (id : Uuid) (e : Event Op World ι) : Bool :=
  e.before.trashed id && (e.after Op.exec).live id

/-- How many requests of a kind were answered that they succeeded. -/
def successes [Fintype ι] (parties : ι → Party) (kind : AdminRequest → Bool)
    (c : Config Op AppError AdminResponse World ι) : Nat :=
  (Finset.univ.filter fun i => kind (parties i).request && Handler.succeeded (c.left i)).card

/-- Answers, rows of the trail and moves of the hook are as many, for deletions
and for restores. -/
structure TrashMatches [Fintype ι] (parties : ι → Party) (w : World) (id : Uuid)
    (c : Config Op AppError AdminResponse World ι) : Prop where
  deleteRows : c.state.db.auditCount "HOOK_DELETE" =
    w.db.auditCount "HOOK_DELETE" + successes parties AdminRequest.isSoftDelete c
  deletions : c.log.countP (Event.trashes id) = successes parties AdminRequest.isSoftDelete c
  restoreRows : c.state.db.auditCount "HOOK_RESTORE" =
    w.db.auditCount "HOOK_RESTORE" + successes parties AdminRequest.isRestore c
  restorations : c.log.countP (Event.restores id) = successes parties AdminRequest.isRestore c

/-- Whenever the write of a restore is executed, the hook is in the trash. -/
def RestoresTrashed (id : Uuid) (log : List (Event Op World ι)) : Prop :=
  ∀ e ∈ log, (∃ u answer, e.exchange Op.exec = ⟨_, .db (.updateHook id u), answer⟩) →
    e.before.trashed id = true

end Counts

/-! ### Marks -/

/-- What a statement that went through leaves behind. -/
inductive Mark where
  | trashed | restored | deleteRow | restoreRow
  deriving DecidableEq

def markOf : ((β : Type) × Op β × β) → Option Mark
  | ⟨_, .db (.updateHooks _ _), .ok n⟩ => if n = 0 then none else some .trashed
  | ⟨_, .db (.updateHook _ _), .ok _⟩ => some .restored
  | ⟨_, .db (.insertAuditLog row), .ok _⟩ =>
    if row.action = "HOOK_DELETE" then some .deleteRow
    else if row.action = "HOOK_RESTORE" then some .restoreRow
    else none
  | _ => none

def marks (h : Heard Op) : List Mark := h.filterMap markOf

theorem marks_cons (a : (β : Type) × Op β × β) (h : Heard Op) :
    marks (a :: h) = (markOf a).toList ++ marks h := by
  unfold marks
  rw [List.filterMap_cons]
  cases markOf a <;> rfl

theorem markOf_read {β : Type} {q : Op β} (hq : WritesAmong [] β q) (b : β) :
    markOf ⟨β, q, b⟩ = none := by
  cases q with
  | db s => cases s <;> simp_all [Stmt.write?, markOf]
  | _ => rfl

theorem markOf_eq_restored {a : (β : Type) × Op β × β} (h : markOf a = some .restored) :
    ∃ hookId u g, a = ⟨_, .db (.updateHook hookId u), .ok g⟩ := by
  obtain ⟨β, q, b⟩ := a
  cases q with
  | db s =>
    cases b with
    | error err => cases s <;> cases h
    | ok b =>
      cases s with
      | updateHook hookId u => exact ⟨hookId, u, b, rfl⟩
      | updateHooks c u => by_cases hzero : b = 0 <;> simp [markOf, hzero] at h
      | insertAuditLog row =>
        by_cases hdelete : row.action = "HOOK_DELETE" <;>
          by_cases hrestore : row.action = "HOOK_RESTORE" <;>
          simp [markOf, hdelete, hrestore] at h
      | _ => cases h
  | _ => cases h

/-- What the requests that move a hook write. -/
def TrashWrites (id : Uuid) : ∀ β, Op β → Prop
  | _, .db (.updateHooks c u) =>
    c = .and (.idEq id) (.isDeleted false) ∧ u.isDeleted = some true ∧ u.name = none
  | _, .db (.updateHook hookId u) => hookId = id ∧ u.isDeleted = some false ∧ u.name = none
  | β, q => WritesAmong [.insertAuditLog] β q

theorem trashWrites_read {id : Uuid} {β : Type} {q : Op β} (hq : WritesAmong [] β q) :
    TrashWrites id β q := by
  cases q with
  | db s => cases s <;> simp_all [Stmt.write?, TrashWrites]
  | _ => trivial

def Hook.names (h : Hook) : Uuid × String := (h.id, h.name)

/-- The hooks go by the identifiers and names they went by. -/
structure World.SameNames (w t : World) : Prop where
  wellFormed : t.db.WellFormed
  names : t.db.hooks.map Hook.names = w.db.hooks.map Hook.names

/-- An answer that could have been given while the names were these. -/
def AnsweredUnder (w : World) (β : Type) (q : Op β) (b : β) : Prop :=
  ∃ t, w.SameNames t ∧ (Op.exec β q t).1 = b

/-- A success is as said, and a refusal has left no marks. -/
def Ends {α : Type} (K : Heard Op → α → Prop) (h : Heard Op) : Except AppError α → Prop
  | .ok a => K h a
  | .error (.dbError _) => True
  | .error _ => marks h = []

section Names

variable {w t : World} {id : Uuid}

theorem World.SameNames.hookWithId (h : w.SameNames t) (id : Uuid) :
    (t.db.hookWithId id).map Hook.names = (w.db.hookWithId id).map Hook.names := by
  have hfind : ∀ db : Database, (db.hookWithId id).map Hook.names =
      (db.hooks.map Hook.names).find? (·.1 == id) := fun db => by
    rw [List.find?_map]
    rfl
  rw [hfind, hfind, h.names]

theorem World.SameNames.hookByName (h : w.SameNames t) (name : String) :
    (t.db.hookByName name).map Hook.names = (w.db.hookByName name).map Hook.names := by
  have hfind : ∀ db : Database, (db.hookByName name).map Hook.names =
      (db.hooks.map Hook.names).find? (·.2 == name) := fun db => by
    rw [List.find?_map]
    rfl
  rw [hfind, hfind, h.names]

theorem hookWithId_isSome_of_resolve {db : Database} {identifier : String}
    (hid : (db.resolve identifier).map (·.id) = some id) : (db.hookWithId id).isSome = true := by
  obtain ⟨g, hg, rfl⟩ := Option.map_eq_some_iff.mp hid
  exact List.find?_isSome.mpr ⟨g, Database.resolve_mem hg, beq_self_eq_true _⟩

end Names

section Knowledge

open Program

variable {α β : Type} {w : World} {id : Uuid} {h : Heard Op}

/-- What these requests guarantee while the names are kept. -/
abbrev Moves (w : World) (id : Uuid) (h : Heard Op) (p : Handler α) (K : Heard Op → α → Prop) :
    Prop :=
  p.Guarantees (AnsweredUnder w) (fun _ => TrashWrites id) h (Ends K)

theorem moves_bind {p : Handler α} {f : α → Handler β} {K : Heard Op → α → Prop}
    {K' : Heard Op → β → Prop} (hp : Moves w id h p K)
    (hf : ∀ h' a, K h' a → Moves w id h' (f a) K') : Moves w id h (p.bind f) K' :=
  Guarantees.bind hp (fun _ e he => by cases e <;> exact he) hf

theorem moves_map {p : Handler α} {f : α → β} {K : Heard Op → β → Prop}
    (hp : Moves w id h p fun h' a => K h' (f a)) : Moves w id h (f <$> p) K :=
  moves_bind hp fun _ _ ha => ha

theorem moves_sql {s : Stmt β} {K : Heard Op → β → Prop} (hok : TrashWrites id _ (.db s))
    (hpost : ∀ t b, w.SameNames t → (s.exec t.db).1 = .ok b → K (⟨_, .db s, .ok b⟩ :: h) b) :
    Moves w id h (sql s) K := by
  refine ⟨hok, fun answer hanswer => ?_⟩
  obtain ⟨t, ht, hexec⟩ := hanswer
  cases answer with
  | ok b => exact hpost t b ht hexec
  | error err => trivial

theorem moves_orElse {found : Option α} {e : AppError} {K : Heard Op → α → Prop}
    (hsome : found.isSome = true) (hpost : ∀ a, found = some a → K h a) :
    Moves w id h (orElse found e) K := by
  cases found with
  | none => cases hsome
  | some a => exact hpost a rfl

/-- What goes before the write leaves no marks, and may refuse. -/
theorem moves_before {p : Handler α} (hp : p.Emits (WritesAmong [])) (hm : marks h = []) :
    Moves w id h p fun h' _ => marks h' = [] := by
  have hreads : p.Guarantees (AnsweredUnder w) (fun _ => TrashWrites id) h
      fun h' _ => marks h' = [] := by
    refine hp.guarantees (fun _ _ _ => trashWrites_read) (fun h' β q b hq hm' => ?_) hm
    rw [marks_cons, markOf_read hq, hm']
    rfl
  refine hreads.mono fun h' r hr => ?_
  cases r with
  | ok a => exact hr
  | error e => cases e <;> trivial

/-- A lookup leaves the marks as they are. -/
theorem moves_lookup {s : Stmt β} (hs : s.write? = none) :
    Moves w id h (sql s) fun h' _ => marks h' = marks h := by
  have hread : WritesAmong [] _ (.db s) := by simp [hs]
  refine moves_sql (trashWrites_read hread) fun t b _ _ => ?_
  rw [marks_cons, markOf_read hread]
  rfl

/-- A hook is found under the names it went by. -/
theorem moves_findHook {c : HookCondition} {found₀ : Option Hook}
    (hsame : ∀ t, w.SameNames t →
      (t.db.hooks.find? c.holds).map Hook.names = found₀.map Hook.names) :
    Moves w id h (List.head? <$> sql (.selectHooks c .unordered)) fun h' found =>
      marks h' = marks h ∧ found.map Hook.names = found₀.map Hook.names := by
  refine moves_map (moves_sql (by simp [TrashWrites, Stmt.write?])
    fun t rows ht hrows => ⟨?_, ?_⟩)
  · rw [marks_cons]
    rfl
  · cases hrows
    rw [← hsame t ht]
    exact congrArg (Option.map Hook.names) List.head?_filter

theorem moves_findHookById (hookId : Uuid) :
    Moves w id h (findHookById hookId) fun h' found =>
      marks h' = marks h ∧ found.map Hook.names = (w.db.hookWithId hookId).map Hook.names :=
  moves_findHook fun _ ht => ht.hookWithId hookId

theorem moves_findHookByName (name : String) :
    Moves w id h (findHookByName name) fun h' found =>
      marks h' = marks h ∧ found.map Hook.names = (w.db.hookByName name).map Hook.names :=
  moves_findHook fun _ ht => ht.hookByName name

theorem id_of_names {found found₀ : Option Hook}
    (h : found.map Hook.names = found₀.map Hook.names) :
    found.map (·.id) = found₀.map (·.id) := by
  have hfst := congrArg (Option.map Prod.fst) h
  simpa [Option.map_map, Function.comp_def, Hook.names] using hfst

theorem moves_resolve {identifier : String}
    (hid : (w.db.resolve identifier).map (·.id) = some id) (hm : marks h = []) :
    Moves w id h (resolveHookIncludingDeleted identifier) fun h' model =>
      marks h' = [] ∧ model.id = id := by
  let byId₀ := (Uuid.parseStr identifier).bind w.db.hookWithId
  have hresolve : (byId₀.or (w.db.hookByName identifier)).map (·.id) = some id := hid
  refine moves_bind (K := fun h' found => marks h' = marks h ∧
    found.map Hook.names = byId₀.map Hook.names) ?_ fun h' byId hfound => ?_
  · cases hparse : Uuid.parseStr identifier with
    | none => exact ⟨rfl, by simp [byId₀, hparse]⟩
    | some hookId => simpa [byId₀, hparse] using moves_findHookById hookId
  · have hsame := id_of_names hfound.2
    cases byId with
    | some model =>
      refine ⟨hfound.1.trans hm, ?_⟩
      cases hb : byId₀ with
      | none => simp [hb] at hsame
      | some g =>
        rw [hb] at hsame hresolve
        exact (Option.some.inj hsame).trans (Option.some.inj hresolve)
    | none =>
      have hnone : byId₀ = none := by simpa using hsame.symm
      rw [hnone, Option.none_or] at hresolve
      refine moves_bind (moves_findHookByName identifier) fun h'' byName hbyName => ?_
      have hname := (id_of_names hbyName.2).trans hresolve
      refine moves_orElse (by rw [← Option.isSome_map, hname]; rfl) fun model hmodel => ?_
      rw [hmodel] at hname
      exact ⟨hbyName.1.trans (hfound.1.trans hm), Option.some.inj hname⟩

theorem moves_resolveHook {identifier : String}
    (hid : (w.db.resolve identifier).map (·.id) = some id) (hm : marks h = []) :
    Moves w id h (resolveHook identifier) fun h' model => marks h' = [] ∧ model.id = id :=
  moves_bind (moves_resolve hid hm) fun _ _ hmodel =>
    moves_bind (moves_before (Program.emits_require _ _) hmodel.1) fun _ _ hm' => ⟨hm', hmodel.2⟩

/-- The row that records a move. -/
theorem moves_audit {ctx : Context} {key : ApiKey} {draw : Nat} {action : String}
    {resource details : Option String} (later : Mark)
    (hmark : ∀ row : AuditLog, row.action = action →
      markOf ⟨_, .db (.insertAuditLog row), .ok ()⟩ = some later) :
    Moves w id h (createAuditLog ctx key draw action resource details) fun h' _ =>
      marks h' = later :: marks h := by
  refine moves_sql (by simp [TrashWrites, Stmt.write?]) fun t b _ _ => ?_
  rw [marks_cons, hmark _ rfl]
  rfl

/-- A deletion that succeeds trashed the hook and left its row. -/
theorem moves_deleteHook {ctx : Context} {key : ApiKey} {identifier : String}
    {query : DeleteHookQuery} (hsoft : query.hard.getD false = false)
    (hid : (w.db.resolve identifier).map (·.id) = some id) :
    Moves w id [] (deleteHook ctx key identifier query) fun h' _ =>
      marks h' = [.deleteRow, .trashed] := by
  unfold deleteHook
  rw [hsoft]
  refine moves_bind (moves_resolveHook hid rfl) fun h₁ model hmodel => ?_
  obtain ⟨hm, rfl⟩ := hmodel
  refine moves_bind (moves_before (guardManage_writes _ _) hm) fun _ _ hm => ?_
  refine moves_bind (moves_before (Program.emits_ofExcept _) hm) fun _ _ hm => ?_
  refine moves_bind (moves_before (Program.emits_ofExcept _) hm) fun h₂ _ hm => ?_
  -- the write counts the rows it met live
  refine moves_bind (moves_sql (K := fun h' n => marks h' = if n = 0 then [] else [.trashed])
    ⟨rfl, rfl, rfl⟩ fun t n _ _ => ?_) fun h₃ n hn => ?_
  · rw [marks_cons, hm]
    by_cases hzero : n = 0 <;> simp [markOf, hzero]
  refine moves_bind (K := fun h' _ => marks h' = [.trashed]) ?_ fun h₄ _ hm => ?_
  · refine guarantees_require (fun hyes => ?_) fun hno => ?_
    · exact hn.trans (if_neg hyes)
    · exact hn.trans (if_pos (by simpa using hno))
  rw [← hm]
  exact moves_audit .deleteRow fun row hrow => by simp [markOf, hrow]

theorem moves_buildHookDetail (key : ApiKey) (model : Hook) :
    Moves w id h (buildHookDetail key model) fun h' _ => marks h' = marks h := by
  refine moves_bind (moves_lookup rfl) fun h₁ _ hm => ?_
  refine moves_bind (K := fun h' _ => marks h' = marks h) ?_ fun _ _ hm => hm
  split
  · exact hm
  · rw [← hm]
    exact moves_map (moves_lookup rfl)

/-- A restore that succeeds wrote the hook and left its row. -/
theorem moves_restoreHook {ctx : Context} {key : ApiKey} {identifier : String}
    (hid : (w.db.resolve identifier).map (·.id) = some id) :
    Moves w id [] (restoreHook ctx key identifier) fun h' _ =>
      marks h' = [.restoreRow, .restored] := by
  refine moves_bind (moves_before (Program.emits_require _ _) rfl) fun _ _ hm => ?_
  refine moves_bind (moves_resolve hid hm) fun h₁ model hmodel => ?_
  obtain ⟨hm, rfl⟩ := hmodel
  refine moves_bind (moves_before (Program.emits_require _ _) hm) fun _ _ hm => ?_
  refine moves_bind (moves_sql (K := fun h' _ => marks h' = [.restored]) ⟨rfl, rfl, rfl⟩
    fun t g _ _ => ?_) fun h₂ g hm => ?_
  · rw [marks_cons, hm]
    rfl
  refine moves_bind (moves_audit .restoreRow fun row hrow => by simp [markOf, hrow])
    fun h₃ _ hm' => ?_
  rw [hm] at hm'
  refine moves_bind (moves_findHookById model.id) fun h₄ found hfound => ?_
  refine moves_bind (K := fun h' _ => marks h' = [.restoreRow, .restored])
    (moves_orElse ?_ fun _ _ => hfound.1.trans hm') fun h₅ restored hm₅ => ?_
  · -- the hook is still there
    have hfound₀ : (w.db.hookWithId model.id).isSome = true := hookWithId_isSome_of_resolve hid
    rw [← Option.isSome_map (f := Hook.names), hfound.2, Option.isSome_map]
    exact hfound₀
  · rw [← hm₅]
    exact moves_buildHookDetail key restored

end Knowledge

/-! ### Events -/

section Events

variable {ι : Type} {w t : World} {id : Uuid} {e : Event Op World ι}

theorem World.live_iff : w.live id = true ↔ ∃ g ∈ w.db.hooks, g.id = id ∧ g.isDeleted = false := by
  simp [World.live]

theorem World.trashed_iff :
    w.trashed id = true ↔ ∃ g ∈ w.db.hooks, g.id = id ∧ g.isDeleted = true := by
  simp [World.trashed]

/-- A hook is not both. -/
theorem World.not_live_and_trashed (hwf : w.db.WellFormed) (id : Uuid) :
    (w.live id && w.trashed id) = false := by
  rw [Bool.and_eq_false_iff]
  by_contra hboth
  simp only [not_or, Bool.not_eq_false] at hboth
  obtain ⟨g, hg, hid, hlive⟩ := World.live_iff.mp hboth.1
  obtain ⟨g', hg', hid', htrashed⟩ := World.trashed_iff.mp hboth.2
  rw [hwf.hook_eq_of_id hg hg' (hid.trans hid'.symm), htrashed] at hlive
  cases hlive

theorem World.live_congr (h : t.db.hooks = w.db.hooks) : t.live id = w.live id := by
  unfold World.live
  rw [h]

theorem World.trashed_congr (h : t.db.hooks = w.db.hooks) : t.trashed id = w.trashed id := by
  unfold World.trashed
  rw [h]

/-- The condition of the write that trashes a hook. -/
def liveWithId (id : Uuid) : HookCondition := .and (.idEq id) (.isDeleted false)

theorem Database.updateHooks_keepsName {db : Database} (hwf : db.WellFormed) {c : HookCondition}
    {u : HookUpdate} (hname : u.name = none) :
    db.updateHooks c u = (.ok (db.hooks.filter c.holds).length,
      { db with hooks := db.hooks.map fun h => if c.holds h then u.apply h else h }) := by
  have hsame : ((db.hooks.map fun h => if c.holds h then u.apply h else h).map (·.name)) =
      db.hooks.map (·.name) := by
    rw [List.map_map]
    refine List.map_congr_left fun g _ => ?_
    simp only [Function.comp_apply]
    split
    · simp [HookUpdate.apply, hname]
    · rfl
  unfold Database.updateHooks
  exact if_pos (hsame ▸ hwf.hookNames)

/-- What a statement of these requests does to the hook, by its mark. -/
structure MovedBy (id : Uuid) (mark : Option Mark) (t t' : World) : Prop where
  trashes : (t.live id && t'.trashed id) = decide (mark = some .trashed)
  restores : (t.trashed id && t'.live id) = (decide (mark = some .restored) && t.trashed id)
  deleteRow : t'.db.auditCount "HOOK_DELETE" =
    t.db.auditCount "HOOK_DELETE" + if mark = some .deleteRow then 1 else 0
  restoreRow : t'.db.auditCount "HOOK_RESTORE" =
    t.db.auditCount "HOOK_RESTORE" + if mark = some .restoreRow then 1 else 0

/-- A statement that leaves the hooks alone. -/
theorem MovedBy.of_hooks {t' : World} {mark : Option Mark} (hwf : t.db.WellFormed)
    (hhooks : t'.db.hooks = t.db.hooks) (htrashed : mark ≠ some .trashed)
    (hrestored : mark ≠ some .restored)
    (hdelete : t'.db.auditCount "HOOK_DELETE" =
      t.db.auditCount "HOOK_DELETE" + if mark = some .deleteRow then 1 else 0)
    (hrestore : t'.db.auditCount "HOOK_RESTORE" =
      t.db.auditCount "HOOK_RESTORE" + if mark = some .restoreRow then 1 else 0) :
    MovedBy id mark t t' := by
  refine ⟨?_, ?_, hdelete, hrestore⟩
  · rw [World.trashed_congr hhooks, World.not_live_and_trashed hwf id, decide_eq_false htrashed]
  · rw [World.live_congr hhooks, Bool.and_comm, World.not_live_and_trashed hwf id,
      decide_eq_false hrestored, Bool.false_and]

/-- A statement that leaves hooks and trail alone leaves no mark to count. -/
theorem MovedBy.of_read {t' : World} (hwf : t.db.WellFormed) (hdb : t'.db = t.db) :
    MovedBy id none t t' :=
  .of_hooks hwf (congrArg Database.hooks hdb) nofun nofun
    (congrArg (Database.auditCount "HOOK_DELETE") hdb)
    (congrArg (Database.auditCount "HOOK_RESTORE") hdb)

theorem MovedBy.insertAuditLog (hwf : t.db.WellFormed) (row : AuditLog) :
    MovedBy id (markOf ⟨_, .db (.insertAuditLog row), (t.db.insertAuditLog row).1⟩) t
      { t with db := (t.db.insertAuditLog row).2 } := by
  unfold Database.insertAuditLog
  split
  · exact .of_read hwf rfl
  · split
    · have hmark : markOf ⟨_, .db (.insertAuditLog row), .ok ()⟩ =
        if row.action = "HOOK_DELETE" then some .deleteRow
        else if row.action = "HOOK_RESTORE" then some .restoreRow else none := rfl
      rw [hmark]
      refine .of_hooks hwf rfl ?_ ?_ ?_ ?_
      · split
        · nofun
        · split <;> nofun
      · split
        · nofun
        · split <;> nofun
      · by_cases hdelete : row.action = "HOOK_DELETE" <;>
          by_cases hrestore : row.action = "HOOK_RESTORE" <;>
          simp [Database.auditCount, List.countP_append, hdelete, hrestore]
      · by_cases hrestore : row.action = "HOOK_RESTORE"
        · simp [Database.auditCount, List.countP_append, hrestore]
        · by_cases hdelete : row.action = "HOOK_DELETE" <;>
            simp [Database.auditCount, List.countP_append, hdelete, hrestore]
    · exact .of_read hwf rfl

/-- The write of a deletion moves the hook if it counts a row. -/
theorem MovedBy.updateHooks (hwf : t.db.WellFormed) {u : HookUpdate}
    (hdeleted : u.isDeleted = some true) (hname : u.name = none) :
    MovedBy id (markOf ⟨_, .db (.updateHooks (liveWithId id) u),
        (t.db.updateHooks (liveWithId id) u).1⟩) t
      { t with db := (t.db.updateHooks (liveWithId id) u).2 } := by
  have hholds : ∀ g : Hook, (liveWithId id).holds g = true ↔ g.id = id ∧ g.isDeleted = false := by
    simp [liveWithId, HookCondition.holds]
  rw [Database.updateHooks_keepsName hwf hname]
  cases hrows : t.db.hooks.filter (liveWithId id).holds with
  | nil =>
    -- the hook is not live, and no row is written
    have hnone : ∀ g ∈ t.db.hooks, ¬(g.id = id ∧ g.isDeleted = false) := fun g hg hlive => by
      have := List.filter_eq_nil_iff.mp hrows g hg
      exact this ((hholds g).mpr hlive)
    refine .of_hooks hwf ?_ (by rintro ⟨⟩) (by rintro ⟨⟩) rfl rfl
    refine (List.map_congr_left fun g hg => if_neg ?_).trans (List.map_id' _)
    rw [hholds]
    exact hnone g hg
  | cons g rest =>
    obtain ⟨hg, hlive⟩ := List.mem_filter.mp (hrows ▸ List.mem_cons_self : g ∈ _)
    obtain ⟨hid, hlive⟩ := (hholds g).mp hlive
    have hbefore : t.live id = true := World.live_iff.mpr ⟨g, hg, hid, hlive⟩
    have hnot : t.trashed id = false := by
      simpa [hbefore] using World.not_live_and_trashed hwf id
    have hafter : World.trashed { t with
        db := { t.db with
          hooks := t.db.hooks.map fun h => if (liveWithId id).holds h then u.apply h else h } }
        id = true := by
      refine World.trashed_iff.mpr ⟨u.apply g, List.mem_map.mpr ⟨g, hg, ?_⟩, hid, ?_⟩
      · exact if_pos ((hholds g).mpr ⟨hid, hlive⟩)
      · simp [HookUpdate.apply, hdeleted]
    refine ⟨?_, ?_, rfl, rfl⟩
    · rw [hbefore, hafter]
      rfl
    · rw [hnot, Bool.false_and, Bool.and_false]

/-- The write of a restore moves the hook if it was in the trash. -/
theorem MovedBy.updateHook (hwf : t.db.WellFormed) {u : HookUpdate}
    (hdeleted : u.isDeleted = some false) (hname : u.name = none) :
    MovedBy id (markOf ⟨_, .db (.updateHook id u), (t.db.updateHook id u).1⟩) t
      { t with db := (t.db.updateHook id u).2 } := by
  cases hfound : t.db.hookWithId id with
  | none =>
    have hrun : t.db.updateHook id u = (.error .recordNotUpdated, t.db) := by
      rw [Database.updateHook, show t.db.hooks.find? (·.id == id) = none from hfound]
    rw [hrun]
    exact .of_read hwf rfl
  | some g =>
    rw [Database.updateHook_keepsName hname hwf.hookNames hfound]
    obtain ⟨hg, hid⟩ := Database.hookWithId_mem hfound
    have hafter : World.live { t with
        db := { t.db with hooks := t.db.hooks.map fun h => if h.id == id then u.apply h else h } }
        id = true := by
      refine World.live_iff.mpr ⟨u.apply g, List.mem_map.mpr ⟨g, hg, ?_⟩, hid, ?_⟩
      · exact if_pos (by simp [hid])
      · simp [HookUpdate.apply, hdeleted]
    have hnot : World.trashed { t with
        db := { t.db with hooks := t.db.hooks.map fun h => if h.id == id then u.apply h else h } }
        id = false := by
      rw [← Bool.not_eq_true, World.trashed_iff]
      rintro ⟨g', hg', hid', htrashed⟩
      obtain ⟨old, hold, rfl⟩ := List.mem_map.mp hg'
      by_cases holdId : old.id = id
      · simp [holdId, HookUpdate.apply, hdeleted] at htrashed
      · simp [holdId] at hid'
    refine ⟨?_, ?_, rfl, rfl⟩
    · rw [hnot, Bool.and_false]
      rfl
    · rw [hafter, Bool.and_true]
      rfl

theorem World.SameNames.updateHooks (ht : w.SameNames t) {c : HookCondition} {u : HookUpdate}
    (hname : u.name = none) : w.SameNames { t with db := (t.db.updateHooks c u).2 } := by
  refine ⟨ht.wellFormed.updateHooks c u, ?_⟩
  rw [Database.updateHooks_keepsName ht.wellFormed hname, ← ht.names]
  refine List.map_map.trans (List.map_congr_left fun g _ => ?_)
  simp only [Function.comp_apply]
  split
  · simp [Hook.names, HookUpdate.apply, hname]
  · rfl

theorem World.SameNames.updateHook (ht : w.SameNames t) {u : HookUpdate}
    (hname : u.name = none) : w.SameNames { t with db := (t.db.updateHook id u).2 } := by
  refine ⟨ht.wellFormed.updateHook id u, ?_⟩
  rcases t.db.updateHook_hooks id u with hsame | hedited
  · exact (congrArg (List.map Hook.names) hsame).trans ht.names
  · refine (congrArg (List.map Hook.names) hedited).trans (Eq.trans ?_ ht.names)
    refine List.map_map.trans (List.map_congr_left fun g _ => ?_)
    simp only [Function.comp_apply, HookUpdate.at_]
    split
    · simp [Hook.names, HookUpdate.apply, hname]
    · rfl

theorem World.SameNames.congr {t' : World} (ht : w.SameNames t) (hwf : t'.db.WellFormed)
    (hhooks : t'.db.hooks = t.db.hooks) : w.SameNames t' :=
  ⟨hwf, by rw [hhooks, ht.names]⟩

theorem moved_step {β : Type} {q : Op β} (hq : TrashWrites id β q) (ht : w.SameNames t) :
    w.SameNames (Op.exec β q t).2 ∧
      MovedBy id (markOf ⟨β, q, (Op.exec β q t).1⟩) t (Op.exec β q t).2 := by
  have haside : ∀ {β : Type} {q : Op β}, WritesAmong [] β q → w.SameNames (Op.exec β q t).2 ∧
      MovedBy id (markOf ⟨β, q, (Op.exec β q t).1⟩) t (Op.exec β q t).2 := by
    intro β q hq
    have hdb : (Op.exec β q t).2.db = t.db :=
      Handler.run_db_eq (p := (.ask q : Handler β)) ⟨hq, fun _ => trivial⟩ t
    rw [markOf_read hq]
    exact ⟨ht.congr (hdb ▸ ht.wellFormed) (congrArg Database.hooks hdb),
      .of_read ht.wellFormed hdb⟩
  cases q with
  | db s =>
    cases s with
    | updateHooks c u =>
      obtain ⟨rfl, hdeleted, hname⟩ := hq
      exact ⟨ht.updateHooks hname, .updateHooks ht.wellFormed hdeleted hname⟩
    | updateHook hookId u =>
      obtain ⟨rfl, hdeleted, hname⟩ := hq
      exact ⟨ht.updateHook hname, .updateHook ht.wellFormed hdeleted hname⟩
    | insertAuditLog row =>
      refine ⟨ht.congr (Stmt.exec_wellFormed (.insertAuditLog row) ht.wellFormed) ?_,
        .insertAuditLog ht.wellFormed row⟩
      exact Stmt.exec_agree (.insertAuditLog row) t.db (t := .hooks)
        (by simp [Stmt.write?, Write.tables])
    | _ => exact haside (by simp_all [TrashWrites, Stmt.write?])
  | _ => exact haside trivial

end Events

/-! ### Runs -/

section Runs

variable {ι : Type} [DecidableEq ι] {parties : ι → Party} {w : World} {id : Uuid}
  {c : Config Op AppError AdminResponse World ι}

/-- What one of these requests guarantees. -/
def TrashOutcome (request : AdminRequest) (h : Heard Op) : AdminResponse → Prop := fun _ =>
  if request.isRestore then marks h = [.restoreRow, .restored]
  else marks h = [.deleteRow, .trashed]

theorem moves_party {p : Party} (hmoves : p.request.MovesHook w.db id) :
    Moves w id [] p.program (TrashOutcome p.request) := by
  obtain ⟨ctx, key, request⟩ := p
  cases request with
  | deleteHook identifier query =>
    exact moves_bind (moves_deleteHook hmoves.1 hmoves.2) fun _ _ hm => hm
  | restoreHook identifier =>
    exact moves_bind (moves_restoreHook hmoves) fun _ _ hm => hm
  | _ => exact hmoves.elim

/-- Throughout a run the names are kept, every write is one of these, and every
request has left the marks of its outcome. -/
theorem InFlight.moves (hwf : w.db.WellFormed) (hrun : InFlight parties w c)
    (hmoves : ∀ i, (parties i).request.MovesHook w.db id) :
    (∀ i, (c.left i).Guarantees (AnsweredUnder w) (fun _ => TrashWrites id)
      (heard Op.exec i c.log) (Ends (TrashOutcome (parties i).request))) ∧
      ∀ e ∈ c.log, w.SameNames e.before ∧ TrashWrites id _ e.query := by
  obtain ⟨-, hleft, hlog⟩ := Interleaved.guarantees (J := w.SameNames)
    (A := fun _ _ => TrashWrites id) hrun ⟨hwf, rfl⟩ (fun i => moves_party (hmoves i))
    (fun _ _ _ _ _ hq ht => (moved_step hq ht).1) fun e _ ht => ⟨e.before, ht, rfl⟩
  exact ⟨hleft, fun e he => ⟨(hlog e he).1, (hlog e he).2.choose_spec⟩⟩

/-- What a request left once it ran through. -/
theorem marks_of_outcome {p : Handler AdminResponse} {request : AdminRequest} {h : Heard Op}
    (hp : Moves w id h p (TrashOutcome request)) (hran : p.ranThrough = true) :
    marks h = if p.succeeded then
      (if request.isRestore then [.restoreRow, .restored] else [.deleteRow, .trashed]) else [] := by
  cases p with
  | pure response =>
    have hend : TrashOutcome request h response := hp
    unfold TrashOutcome at hend
    cases hkind : request.isRestore <;> simpa [Handler.succeeded, hkind] using hend
  | fail e => cases e <;> first | exact hp | cases hran
  | query q k => cases hran

/-- A request is one or the other. -/
theorem AdminRequest.MovesHook.kind {db : Database} {request : AdminRequest}
    (h : request.MovesHook db id) : request.isSoftDelete = !request.isRestore := by
  cases request with
  | deleteHook identifier query => simp [isSoftDelete, isRestore, h.1]
  | restoreHook identifier => rfl
  | _ => exact h.elim

/-- The requests whose successes leave the mark. -/
def Mark.leftBy : Mark → AdminRequest → Bool
  | .trashed | .deleteRow => AdminRequest.isSoftDelete
  | .restored | .restoreRow => AdminRequest.isRestore

variable [Fintype ι]

/-- The marks in the log of a run that went through are those of its
successes. -/
theorem InFlight.countP_marks (hwf : w.db.WellFormed) (hrun : InFlight parties w c)
    (hmoves : ∀ i, (parties i).request.MovesHook w.db id)
    (hran : ∀ i, Handler.ranThrough (c.left i) = true) (m : Mark) :
    c.log.countP (fun e => markOf (e.exchange Op.exec) == some m) =
      successes parties m.leftBy c := by
  rw [← sum_countP_heard (I := Op.exec) (fun a => markOf a == some m), successes,
    Finset.card_filter]
  refine Finset.sum_congr rfl fun i _ => ?_
  have hmarks := marks_of_outcome ((hrun.moves hwf hmoves).1 i) (hran i)
  rw [← List.count_filterMap, show List.filterMap markOf _ = _ from hmarks]
  have hkind := (hmoves i).kind
  cases hsucceeded : Handler.succeeded (c.left i) <;>
    cases hrestore : (parties i).request.isRestore <;> cases m <;>
    simp [Mark.leftBy, hkind, hrestore]

omit [DecidableEq ι] [Fintype ι] in
/-- The mark of a restore is left by its write, and its write leaves it. -/
theorem restored_iff {e : Event Op World ι} (hq : TrashWrites id _ e.query)
    (hnames : w.SameNames e.before) (hthere : (w.db.hookWithId id).isSome = true) :
    markOf (e.exchange Op.exec) = some .restored ↔
      ∃ u answer, e.exchange Op.exec = ⟨_, .db (.updateHook id u), answer⟩ := by
  obtain ⟨who, query, before⟩ := e
  constructor
  · intro hmark
    obtain ⟨hookId, u, g, hexchange⟩ := markOf_eq_restored hmark
    have hwrites : ∀ a : (β : Type) × Op β × β, a = ⟨_, .db (.updateHook hookId u), .ok g⟩ →
        TrashWrites id a.1 a.2.1 → hookId = id := by
      rintro _ rfl hq
      exact hq.1
    obtain rfl := hwrites _ hexchange hq
    exact ⟨u, _, hexchange⟩
  · rintro ⟨u, answer, hexchange⟩
    cases hexchange
    obtain ⟨g, hg⟩ := Option.isSome_iff_exists.mp (show (before.db.hookWithId id).isSome = true by
      rw [← Option.isSome_map (f := Hook.names), hnames.hookWithId id, Option.isSome_map]
      exact hthere)
    have hrun := Database.updateHook_keepsName hq.2.2 hnames.wellFormed.hookNames hg
    have hanswer : Event.answer Op.exec ⟨who, .db (.updateHook id u), before⟩ =
        .ok (u.apply g) := congrArg Prod.fst hrun
    unfold Event.exchange
    rw [hanswer]
    rfl

/-- Answers, rows and moves match if and only if every restore finds the hook in
the trash when it writes. -/
theorem trash_records_match {state : AppState} (hw : Reachable state w)
    (hrun : InFlight parties w c) (hmoves : ∀ i, (parties i).request.MovesHook w.db id)
    (hran : ∀ i, Handler.ranThrough (c.left i) = true) :
    TrashMatches parties w id c ↔ RestoresTrashed id c.log := by
  have hwf := hw.sound.wellFormed
  have hlog := (hrun.moves hwf hmoves).2
  have hmoved : ∀ e ∈ c.log, MovedBy id (markOf (e.exchange Op.exec)) e.before (e.after Op.exec) :=
    fun e he => (moved_step (hlog e he).2 (hlog e he).1).2
  have hmarks := hrun.countP_marks hwf hmoves hran
  obtain ⟨hstate, hchained⟩ := hrun.chained
  have hdeleteRows : c.state.db.auditCount "HOOK_DELETE" =
      w.db.auditCount "HOOK_DELETE" + successes parties AdminRequest.isSoftDelete c := by
    rw [hstate, ← show _ = successes parties AdminRequest.isSoftDelete c from hmarks .deleteRow]
    exact hchained.count (f := fun w => w.db.auditCount "HOOK_DELETE")
      (K := fun e => markOf (e.exchange Op.exec) == some .deleteRow) fun e he => by
        simpa using (hmoved e he).deleteRow
  have hrestoreRows : c.state.db.auditCount "HOOK_RESTORE" =
      w.db.auditCount "HOOK_RESTORE" + successes parties AdminRequest.isRestore c := by
    rw [hstate, ← show _ = successes parties AdminRequest.isRestore c from hmarks .restoreRow]
    exact hchained.count (f := fun w => w.db.auditCount "HOOK_RESTORE")
      (K := fun e => markOf (e.exchange Op.exec) == some .restoreRow) fun e he => by
        simpa using (hmoved e he).restoreRow
  have hdeletions : c.log.countP (Event.trashes id) =
      successes parties AdminRequest.isSoftDelete c := by
    rw [← show _ = successes parties AdminRequest.isSoftDelete c from hmarks .trashed]
    exact List.countP_congr fun e he => by simp [Event.trashes, (hmoved e he).trashes]
  -- every restore that succeeded wrote once, and moved the hook if it was in the trash
  have hrestorations : c.log.countP (Event.restores id) =
        successes parties AdminRequest.isRestore c ↔
      ∀ e ∈ c.log, markOf (e.exchange Op.exec) = some .restored → e.before.trashed id = true := by
    rw [← show _ = successes parties AdminRequest.isRestore c from hmarks .restored,
      List.countP_congr (q := fun e => markOf (e.exchange Op.exec) == some .restored &&
        e.before.trashed id) fun e he => by simp [Event.restores, (hmoved e he).restores]]
    refine (countP_and_eq_iff
      (p := fun e : Event Op World ι => markOf (e.exchange Op.exec) == some .restored)
      (q := fun e : Event Op World ι => e.before.trashed id)).trans ?_
    simp
  have hrestored : ∀ e ∈ c.log, (markOf (e.exchange Op.exec) = some .restored ↔
      ∃ u answer, e.exchange Op.exec = ⟨_, .db (.updateHook id u), answer⟩) := by
    intro e he
    refine restored_iff (hlog e he).2 (hlog e he).1 ?_
    have hrequest := hmoves e.who
    cases hr : (parties e.who).request with
    | deleteHook identifier query =>
      rw [hr] at hrequest
      exact hookWithId_isSome_of_resolve hrequest.2
    | restoreHook identifier =>
      rw [hr] at hrequest
      exact hookWithId_isSome_of_resolve hrequest
    | _ =>
      rw [hr] at hrequest
      exact hrequest.elim
  constructor
  · intro hmatch e he hwrites
    exact hrestorations.mp hmatch.restorations e he ((hrestored e he).mpr hwrites)
  · intro htrashed
    exact ⟨hdeleteRows, hdeletions, hrestoreRows, hrestorations.mpr fun e he hmark =>
      htrashed e he ((hrestored e he).mp hmark)⟩

end Runs

section Sample

open Sample

/-- The master moves the hook into the trash, and out of it. -/
def movers : Bool → Party
  | false => ⟨ctx 5, Sample.masterRow, .deleteHook "deploy" {}⟩
  | true => ⟨ctx 6, Sample.masterRow, .restoreHook "deploy"⟩

/-- The deletion, and after it the restore. -/
def movedAndBack : Config Op AppError AdminResponse World Bool :=
  (Config.advance Op.exec false 20 ⟨fun i => (movers i).program, deployment, []⟩).advance
    Op.exec true 20

theorem trash_records_match_back : TrashMatches movers deployment 301 movedAndBack ↔
    RestoresTrashed 301 movedAndBack.log := by
  refine trash_records_match reachable_deployment
    ((Interleaved.initial.scheduled false 20).scheduled true 20) ?_ (by decide)
  have hnamed : (deployment.db.resolve "deploy").map (·.id) = some 301 := by decide
  intro i
  cases i with
  | false => exact ⟨rfl, hnamed⟩
  | true => exact hnamed

/-- The deployment with its hook in the trash. -/
def discarded : World :=
  ((handleAdmin (ctx 4) Sample.masterRow (.deleteHook "deploy" {})).run Op.exec deployment).2

theorem reachable_discarded : Reachable Sample.state discarded :=
  reachable_master reachable_deployment 4 "/hooks/deploy" (.deleteHook "deploy" {}) rfl rfl rfl

/-- The master restores it twice. -/
def restorers (i : Bool) : Party :=
  ⟨ctx (if i then 6 else 5), Sample.masterRow, .restoreHook "deploy"⟩

/-- One restore finds the hook in the trash, the other overtakes it. -/
def restoredTwice : Config Op AppError AdminResponse World Bool :=
  ((Config.advance Op.exec false 1 ⟨fun i => (restorers i).program, discarded, []⟩).advance
    Op.exec true 20).advance Op.exec false 20

/-- Two restores succeed, and the hook comes out of the trash once. -/
theorem restored_twice : ¬∀ {state : AppState} {parties : Bool → Party} {w : World} {id : Uuid}
    {c : Config Op AppError AdminResponse World Bool}, Reachable state w → InFlight parties w c →
    (∀ i, (parties i).request.MovesHook w.db id) → (∀ i, Handler.ranThrough (c.left i) = true) →
    TrashMatches parties w id c := by
  intro hclaim
  have hnamed : (discarded.db.resolve "deploy").map (·.id) = some 301 := by decide
  have hmatch : TrashMatches restorers discarded 301 restoredTwice :=
    hclaim reachable_discarded
      (((Interleaved.initial.scheduled false 1).scheduled true 20).scheduled false 20)
      (fun _ => hnamed) (by decide)
  have honce : restoredTwice.log.countP (Event.restores 301) ≠
      successes restorers AdminRequest.isRestore restoredTwice := by decide
  exact honce hmatch.restorations

end Sample

end HookExecutor
