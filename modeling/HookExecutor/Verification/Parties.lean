import HookExecutor.Lib.Interleaving
import HookExecutor.Verification.Integrity

/-!
# Requests in flight together

Requests are served by tasks of one process, and the database takes their
statements one at a time, in whatever order they come. A party is a request that
got past its middleware, with the copy of the key it was authenticated by: what
happens to that key afterwards does not reach it any more.
-/

namespace HookExecutor

/-- A request that was authenticated and is being handled. -/
structure Party where
  ctx : Context
  key : ApiKey
  request : AdminRequest

def Party.program (p : Party) : Handler AdminResponse := handleAdmin p.ctx p.key p.request

section Parties

open Program

variable {ι : Type} [DecidableEq ι] {α β : Type} {parties : ι → Party} {w : World}
  {c : Config Op AppError AdminResponse World ι}

/-- What the parties can come to from a world. -/
abbrev InFlight (parties : ι → Party) (w : World) (c : Config Op AppError AdminResponse World ι) :
    Prop :=
  Interleaved Op.exec (fun i => (parties i).program) w c

/-- What every statement keeps holds at every point of a run. -/
theorem InFlight.database {J : Database → Prop} (h : InFlight parties w c) (hw : J w.db)
    (hstmt : ∀ {β : Type} (s : Stmt β) {db : Database}, J db → J (s.exec db).2) :
    J c.state.db ∧ ∀ e ∈ c.log, J e.before.db := by
  refine Interleaved.invariant (J := fun w : World => J w.db) h hw fun β q t ht => ?_
  rw [Op.exec_db]
  cases q with
  | db s => exact hstmt s ht
  | _ => exact ht

theorem InFlight.wellFormed (h : InFlight parties w c) (hw : w.db.WellFormed) :
    c.state.db.WellFormed ∧ ∀ e ∈ c.log, e.before.db.WellFormed :=
  h.database hw Stmt.exec_wellFormed

/-! ### Statements, and what they were answered -/

/-- A statement was answered with this. -/
def Answered (h : Heard Op) (s : Stmt β) (b : β) : Prop := ⟨_, .db s, .ok b⟩ ∈ h

/-- A hook that was among the rows of an answer. -/
def HeardHook (h : Heard Op) (model : Hook) : Prop :=
  ∃ c o rows, Answered h (.selectHooks c o) rows ∧ model ∈ rows

/-- The row a lookup by identifier was answered with. -/
def ReadKey (h : Heard Op) (id : Uuid) (target : ApiKey) : Prop :=
  ∃ rows, Answered h (.selectApiKeys (.idEq id) .unordered) rows ∧ rows.head? = some target

section Heard

variable {h h' : Heard Op} {model : Hook} {s : Stmt β} {b : β}

theorem Answered.mono (hsub : h ⊆ h') (hs : Answered h s b) : Answered h' s b := hsub hs

theorem HeardHook.mono (hsub : h ⊆ h') : HeardHook h model → HeardHook h' model
  | ⟨c, o, rows, hrows, hmem⟩ => ⟨c, o, rows, hrows.mono hsub, hmem⟩

theorem ReadKey.mono {id : Uuid} {target : ApiKey} (hsub : h ⊆ h') :
    ReadKey h id target → ReadKey h' id target
  | ⟨rows, hrows, hhead⟩ => ⟨rows, hrows.mono hsub, hhead⟩

omit [DecidableEq ι] in
/-- An event at which a statement was answered. -/
theorem exchange_eq {e : Event Op World ι} {r : Except DbErr β}
    (he : e.exchange Op.exec = ⟨_, .db s, r⟩) :
    (s.exec e.before.db).1 = r ∧ (e.after Op.exec).db = (s.exec e.before.db).2 := by
  obtain ⟨hanswer, hafter⟩ := Prod.mk.inj (Event.exec_of_exchange he)
  exact ⟨hanswer, (congrArg World.db hafter).symm⟩

/-- What a party was answered, it was answered at an event of its own. -/
theorem Answered.event {i : ι} {log : List (Event Op World ι)}
    (hs : Answered (heard Op.exec i log) s b) :
    ∃ a ∈ log, a.who = i ∧ Answered [a.exchange Op.exec] s b ∧ (s.exec a.before.db).1 = .ok b ∧
      (a.after Op.exec).db = (s.exec a.before.db).2 := by
  obtain ⟨a, ha, hwho, hex⟩ := mem_heard.mp hs
  obtain ⟨hanswer, hafter⟩ := exchange_eq hex
  exact ⟨a, ha, hwho, by simp [Answered, hex], hanswer, hafter⟩

theorem mem_of_selectHooks {db : Database} {c : HookCondition} {o : HookOrder} {rows : List Hook}
    (hrows : ((Stmt.selectHooks c o).exec db).1 = .ok rows) (hmem : model ∈ rows) :
    model ∈ db.hooks := by
  cases hrows
  cases o <;> simp_all [Database.orderHooks]

theorem HeardHook.event {i : ι} {log : List (Event Op World ι)}
    (hk : HeardHook (heard Op.exec i log) model) :
    ∃ a ∈ log, a.who = i ∧ HeardHook [a.exchange Op.exec] model ∧
      model ∈ a.before.db.hooks ∧ (a.after Op.exec).db = a.before.db := by
  obtain ⟨c, o, rows, hrows, hmem⟩ := hk
  obtain ⟨a, ha, hwho, hanswered, hanswer, hafter⟩ := hrows.event
  exact ⟨a, ha, hwho, ⟨c, o, rows, hanswered, hmem⟩, mem_of_selectHooks hanswer hmem, hafter⟩

theorem ReadKey.event {i : ι} {log : List (Event Op World ι)} {id : Uuid} {target : ApiKey}
    (hk : ReadKey (heard Op.exec i log) id target) :
    ∃ a ∈ log, a.who = i ∧ ReadKey [a.exchange Op.exec] id target ∧
      target ∈ a.before.db.apiKeys ∧ target.id = id ∧ (a.after Op.exec).db = a.before.db := by
  obtain ⟨rows, hrows, hhead⟩ := hk
  obtain ⟨a, ha, hwho, hanswered, hanswer, hafter⟩ := hrows.event
  refine ⟨a, ha, hwho, ⟨rows, hanswered, hhead⟩, ?_⟩
  cases hanswer
  obtain ⟨hmem, hid⟩ := List.mem_filter.mp (List.mem_of_mem_head? hhead)
  exact ⟨hmem, by simpa [ApiKeyCondition.holds] using hid, hafter⟩

end Heard

/-! ### What the lookups are known to have answered -/

section Ensures

variable {A : Heard Op → ∀ β, Op β → Prop} {h : Heard Op}

/-- Reads and audit rows are always right. -/
def AllowsAudit (A : Heard Op → ∀ β, Op β → Prop) : Prop :=
  ∀ h β (q : Op β), WritesAmong [.insertAuditLog] β q → A h β q

theorem AllowsAudit.read (hok : AllowsAudit A) {s : Stmt β} (hs : s.write? = none) :
    A h _ (.db s) :=
  hok h _ _ (by simp [hs])

theorem ensures_audited (hok : AllowsAudit A) {p : Handler α}
    (hp : p.Emits (WritesAmong [.insertAuditLog])) : Ensures A h p fun _ _ => True :=
  hp.ensures hok

theorem ensures_sql {s : Stmt β} {P : Heard Op → β → Prop} (hok : A h _ (.db s))
    (hpost : ∀ b h', Answered h' s b → P h' b) : Ensures A h (sql s) P := by
  refine ⟨hok, fun answer => ?_⟩
  cases answer with
  | ok b => exact hpost b _ List.mem_cons_self
  | error err => trivial

theorem ensures_orElse {found : Option α} {e : AppError} {P : Heard Op → α → Prop}
    (hpost : ∀ a, found = some a → P h a) : Ensures A h (orElse found e) P := by
  cases found with
  | none => trivial
  | some a => exact hpost a rfl

theorem ensures_findHook {c : HookCondition} {o : HookOrder} (hok : AllowsAudit A) :
    Ensures A h (List.head? <$> sql (.selectHooks c o)) fun h' found =>
      ∀ model, found = some model → HeardHook h' model :=
  (ensures_sql (hok.read rfl) fun _ _ hrows => hrows).bind fun _ _ _ hrows _ hmodel =>
    ⟨c, o, _, hrows, List.mem_of_mem_head? hmodel⟩

theorem ensures_findApiKeyById (hok : AllowsAudit A) (id : Uuid) :
    Ensures A h (findApiKeyById id) fun h' found =>
      ∀ target, found = some target → ReadKey h' id target :=
  (ensures_sql (hok.read rfl) fun _ _ hrows => hrows).bind fun _ _ _ hrows _ htarget =>
    ⟨_, hrows, htarget⟩

/-- A hook that was resolved was read. -/
theorem ensures_resolveHookIncludingDeleted (hok : AllowsAudit A) (identifier : String) :
    Ensures A h (resolveHookIncludingDeleted identifier) HeardHook := by
  refine Ensures.bind (M := fun h' found => ∀ model, found = some model → HeardHook h' model)
    ?_ fun h' byId _ hfound => ?_
  · cases Uuid.parseStr identifier with
    | none => exact fun _ hnone => by cases hnone
    | some id => exact ensures_findHook hok
  · cases byId with
    | some model => exact hfound model rfl
    | none =>
      exact (ensures_findHook hok).bind fun _ _ _ hbyName => ensures_orElse hbyName

theorem ensures_resolveHook (hok : AllowsAudit A) (identifier : String) :
    Ensures A h (resolveHook identifier) fun h' model =>
      HeardHook h' model ∧ model.isDeleted = false :=
  (ensures_resolveHookIncludingDeleted hok identifier).bind fun _ model _ hmodel =>
    Ensures.bind (M := fun _ _ => model.isDeleted = false) (ensures_require id)
      fun _ _ hsub hlive => And.intro (hmodel.mono hsub) hlive

end Ensures

end Parties

end HookExecutor
