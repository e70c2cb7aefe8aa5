import HookExecutor.Lib.Dropping
import HookExecutor.Verification.Authentication
import HookExecutor.Verification.Budgets
import HookExecutor.Verification.ExecutionRecords

/-!
# Permits of requests in flight

A request that runs a hook for a key draws a permit from the key's budget, and
gives it back on every way out: when the script has ended, when the plan or the
record is refused, and when the request is dropped because its caller went away.
Whatever requests are in flight, in whatever order they take their turns and
whatever else happens to the database meanwhile, the budget of a key counts
exactly those that hold a permit of it.
-/

namespace HookExecutor

open Executor Program

/-! ### Budgets and holders -/

section Balance

variable {ι : Type} [DecidableEq ι] [Fintype ι] {w : World} {held : ι → Option Permit} {i : ι}
  {id : Uuid} {permits : Nat} {p : Permit} {b : KeyBudget}

/-- The permit is one of this semaphore of the key. -/
def Permit.isOf (id : Uuid) (generation : Nat) (p : Permit) : Bool :=
  p.keyId == id && p.generation == generation

@[simp] theorem Permit.isOf_iff {generation : Nat} :
    p.isOf id generation = true ↔ p.keyId = id ∧ p.generation = generation := by
  simp [isOf]

/-- Who holds a permit of this semaphore of the key. -/
def holding (held : ι → Option Permit) (id : Uuid) (generation : Nat) : Finset ι :=
  Finset.univ.filter fun i => (held i).any (Permit.isOf id generation)

/-- Every budget counts who holds a permit of its semaphore. -/
structure Balanced (w : World) (held : ι → Option Permit) : Prop where
  counted : ∀ id b, w.budget id = some b → b.inUse = (holding held id b.generation).card
  bounded : ∀ id b, w.budget id = some b → b.inUse ≤ b.permits
  /-- The semaphores of a key are numbered in the order they were built. -/
  known : ∀ i p, held i = some p → ∃ b, w.budget p.keyId = some b ∧ p.generation ≤ b.generation

omit [DecidableEq ι] in
theorem Balanced.congr {w' : World} (h : Balanced w held)
    (hsame : ∀ id, w'.budget id = w.budget id) : Balanced w' held where
  counted id b hb := h.counted id b (hsame id ▸ hb)
  bounded id b hb := h.bounded id b (hsame id ▸ hb)
  known i p hp := by
    rw [hsame]
    exact h.known i p hp

omit [DecidableEq ι] in
/-- The semaphore a call meets counts its holders. -/
theorem Balanced.current (h : Balanced w held) (id : Uuid) (permits : Nat) :
    (w.currentBudget id permits).inUse =
        (holding held id (w.currentBudget id permits).generation).card ∧
      (w.currentBudget id permits).inUse ≤ (w.currentBudget id permits).permits ∧
      ∀ i p, held i = some p → p.keyId = id →
        p.generation ≤ (w.currentBudget id permits).generation := by
  have hnobody : ∀ generation, (∀ i p, held i = some p → p.keyId = id →
      p.generation ≠ generation) → (holding held id generation).card = 0 := by
    intro generation hne
    rw [Finset.card_eq_zero, holding, Finset.filter_eq_empty_iff]
    intro i _ hany
    obtain ⟨p, hp, hof⟩ := (Option.any_eq_true _ _).mp hany
    obtain ⟨hkey, hgeneration⟩ := Permit.isOf_iff.mp hof
    exact hne i p hp hkey hgeneration
  unfold World.currentBudget
  cases hb : w.budget id with
  | none =>
    have hunknown : ∀ i p, held i = some p → p.keyId ≠ id := by
      rintro i p hp rfl
      obtain ⟨b, hknown, -⟩ := h.known i p hp
      rw [hb] at hknown
      cases hknown
    exact ⟨(hnobody 0 fun i p hp hkey => absurd hkey (hunknown i p hp)).symm, Nat.zero_le _,
      fun i p hp hkey => absurd hkey (hunknown i p hp)⟩
  | some b =>
    have hle : ∀ i p, held i = some p → p.keyId = id → p.generation ≤ b.generation := by
      rintro i p hp rfl
      obtain ⟨b', hknown, hle⟩ := h.known i p hp
      rw [hb] at hknown
      cases hknown
      exact hle
    dsimp only
    by_cases hsame : b.permits = permits
    · rw [if_pos hsame]
      exact ⟨h.counted id b hb, h.bounded id b hb, hle⟩
    · rw [if_neg hsame]
      refine ⟨(hnobody _ fun i p hp hkey => ?_).symm, Nat.zero_le _, fun i p hp hkey => ?_⟩
      · have := hle i p hp hkey
        dsimp only
        omega
      · exact Nat.le_succ_of_le (hle i p hp hkey)

omit [DecidableEq ι] in
/-- A key's semaphore is written, and who holds a permit of the others stays as it
was. -/
theorem Balanced.setBudget {held' : ι → Option Permit} (h : Balanced w held)
    (hcounted : b.inUse = (holding held' id b.generation).card) (hbounded : b.inUse ≤ b.permits)
    (hknown : ∀ i p, held' i = some p → p.keyId = id → p.generation ≤ b.generation)
    (hothers : ∀ i p, held' i = some p → p.keyId ≠ id → held i = some p)
    (hcards : ∀ id' ≠ id, ∀ generation,
      (holding held' id' generation).card = (holding held id' generation).card) :
    Balanced (w.setBudget id b) held' where
  counted id' b' hb' := by
    by_cases hid : id' = id
    · subst hid
      rw [World.budget_setBudget_self] at hb'
      cases hb'
      exact hcounted
    · rw [World.budget_setBudget_of_ne hid] at hb'
      rw [hcards id' hid]
      exact h.counted id' b' hb'
  bounded id' b' hb' := by
    by_cases hid : id' = id
    · subst hid
      rw [World.budget_setBudget_self] at hb'
      cases hb'
      exact hbounded
    · rw [World.budget_setBudget_of_ne hid] at hb'
      exact h.bounded id' b' hb'
  known i p hp := by
    by_cases hid : p.keyId = id
    · exact ⟨b, by rw [hid, World.budget_setBudget_self], hknown i p hp hid⟩
    · rw [World.budget_setBudget_of_ne hid]
      exact h.known i p (hothers i p hp hid)

/-- Who holds a permit of a semaphore, once one of them holds something else. -/
theorem card_holding_update (held : ι → Option Permit) (i : ι) (o : Option Permit) (id : Uuid)
    (generation : Nat) :
    (holding (Function.update held i o) id generation).card +
        (if (held i).any (Permit.isOf id generation) then 1 else 0) =
      (holding held id generation).card + if o.any (Permit.isOf id generation) then 1 else 0 :=
  card_update held i o (Permit.isOf id generation)

/-- Who holds nothing may ask for a permit. -/
theorem Balanced.tryAcquire (h : Balanced w held) (hfree : held i = none) (id : Uuid)
    (permits : Nat) :
    Balanced (w.tryAcquire id permits).2 (Function.update held i (w.tryAcquire id permits).1) := by
  obtain ⟨hcounted, hbounded, hknown⟩ := h.current id permits
  set cur := w.currentBudget id permits
  by_cases hroom : cur.inUse < cur.permits
  · have hstep : w.tryAcquire id permits =
        (some ⟨id, cur.generation⟩, w.setBudget id { cur with inUse := cur.inUse + 1 }) :=
      if_pos hroom
    have hcard := card_holding_update held i (some ⟨id, cur.generation⟩)
    simp only [hfree, Option.any_none, Option.any_some, Bool.false_eq_true, if_false,
      Nat.add_zero] at hcard
    rw [hstep]
    refine h.setBudget ?_ hroom ?_ ?_ ?_
    · have hown : Permit.isOf id cur.generation ⟨id, cur.generation⟩ = true := by simp
      rw [hcard, if_pos hown, hcounted]
    · intro j p hp hkey
      by_cases hj : j = i
      · subst hj
        rw [Function.update_self] at hp
        cases hp
        exact le_rfl
      · rw [Function.update_of_ne hj] at hp
        exact hknown j p hp hkey
    · intro j p hp hkey
      by_cases hj : j = i
      · subst hj
        rw [Function.update_self] at hp
        cases hp
        exact absurd rfl hkey
      · rwa [Function.update_of_ne hj] at hp
    · intro id' hid generation
      rw [hcard, if_neg, Nat.add_zero]
      exact fun hof => hid (Permit.isOf_iff.mp hof).1.symm
  · have hstep : w.tryAcquire id permits = (none, w.setBudget id cur) := if_neg hroom
    rw [hstep, ← hfree, Function.update_eq_self]
    exact h.setBudget hcounted hbounded hknown (fun _ _ hp _ => hp) fun _ _ _ => rfl

/-- Who holds a permit may give it back. -/
theorem Balanced.release (h : Balanced w held) (hp : held i = some p) :
    Balanced (w.release p) (Function.update held i none) := by
  obtain ⟨b, hb, hgeneration⟩ := h.known i p hp
  have hcard := card_holding_update held i none
  simp only [hp, Option.any_none, Option.any_some, Bool.false_eq_true, if_false,
    Nat.add_zero] at hcard
  have hkept : ∀ {j q}, Function.update held i none j = some q → held j = some q := by
    intro j q hq
    by_cases hj : j = i
    · subst hj
      rw [Function.update_self] at hq
      cases hq
    · rwa [Function.update_of_ne hj] at hq
  have hof : ∀ {id' generation}, ¬(p.keyId = id' ∧ p.generation = generation) →
      (holding (Function.update held i none) id' generation).card =
        (holding held id' generation).card := by
    intro id' generation hne
    have hcard' := hcard id' generation
    rwa [if_neg (mt Permit.isOf_iff.mp hne), Nat.add_zero] at hcard'
  have hle : ∀ j q, held j = some q → q.keyId = p.keyId → q.generation ≤ b.generation := by
    intro j q hq hkey
    obtain ⟨b', hb', hle⟩ := h.known j q hq
    rw [hkey, hb] at hb'
    cases hb'
    exact hle
  simp only [World.release, hb]
  by_cases hsame : b.generation = p.generation
  · rw [if_pos hsame]
    have hone := hcard p.keyId b.generation
    rw [if_pos (Permit.isOf_iff.mpr ⟨rfl, hsame.symm⟩), ← h.counted p.keyId b hb] at hone
    refine h.setBudget ?_ ?_ (fun j q hq => hle j q (hkept hq)) (fun j q hq _ => hkept hq)
      fun id' hid generation => hof fun hboth => hid hboth.1.symm
    · dsimp only
      omega
    · exact Nat.le_trans (Nat.sub_le _ _) (h.bounded p.keyId b hb)
  · rw [if_neg hsame]
    refine ⟨fun id' b' hb' => ?_, h.bounded, fun j q hq => h.known j q (hkept hq)⟩
    rw [hof, h.counted id' b' hb']
    rintro ⟨rfl, hgen⟩
    rw [hb] at hb'
    cases hb'
    exact hsame hgen.symm

/-- The key has had one budget only. -/
def Steady (id : Uuid) (m : Nat) (w : World) (held : ι → Option Permit) : Prop :=
  ∀ b, w.budget id = some b → b.permits = m ∧
    ∀ i p, held i = some p → p.keyId = id → p.generation = b.generation

/-- A call is answered by the semaphore it leaves in place. -/
theorem World.tryAcquire_semaphore (hb : (w.tryAcquire id permits).2.budget id = some b) :
    b.permits = (w.currentBudget id permits).permits ∧
      b.generation = (w.currentBudget id permits).generation ∧
      ∀ p, (w.tryAcquire id permits).1 = some p →
        p.generation = (w.currentBudget id permits).generation := by
  by_cases hroom : (w.currentBudget id permits).inUse < (w.currentBudget id permits).permits
  · simp only [World.tryAcquire, if_pos hroom, World.budget_setBudget_self] at hb ⊢
    cases hb
    exact ⟨rfl, rfl, fun p hp => by cases hp; rfl⟩
  · simp only [World.tryAcquire, if_neg hroom, World.budget_setBudget_self] at hb ⊢
    obtain rfl := Option.some.inj hb
    exact ⟨rfl, rfl, fun p hp => by cases hp⟩

omit [Fintype ι] in
theorem Steady.tryAcquire {id' : Uuid} {m : Nat} (h : Steady id m w held)
    (hknown : ∀ i p, held i = some p → ∃ b, w.budget p.keyId = some b)
    (hm : id' = id → permits = m) :
    Steady id m (w.tryAcquire id' permits).2
      (Function.update held i (w.tryAcquire id' permits).1) := by
  intro b hb
  by_cases hid : id' = id
  · obtain rfl := hm hid
    subst hid
    have hcur : (w.currentBudget id' permits).permits = permits ∧ ∀ j p, held j = some p →
        p.keyId = id' → p.generation = (w.currentBudget id' permits).generation := by
      unfold World.currentBudget
      cases hold : w.budget id' with
      | none =>
        refine ⟨rfl, fun j p hp hkey => ?_⟩
        obtain ⟨b', hb'⟩ := hknown j p hp
        rw [hkey, hold] at hb'
        cases hb'
      | some b' =>
        obtain ⟨hpermits, hgenerations⟩ := h b' hold
        dsimp only
        rw [if_pos hpermits]
        exact ⟨hpermits, hgenerations⟩
    obtain ⟨hpermits, hgenerations⟩ := hcur
    obtain ⟨hsame, hgeneration, hgranted⟩ := World.tryAcquire_semaphore hb
    refine ⟨hsame.trans hpermits, fun j p hp hkey => hgeneration ▸ ?_⟩
    by_cases hj : j = i
    · subst hj
      rw [Function.update_self] at hp
      exact hgranted p hp
    · rw [Function.update_of_ne hj] at hp
      exact hgenerations j p hp hkey
  · rw [World.tryAcquire_budget_of_ne (Ne.symm hid)] at hb
    refine ⟨(h b hb).1, fun j p hp hkey => ?_⟩
    by_cases hj : j = i
    · subst hj
      rw [Function.update_self] at hp
      exact absurd ((World.tryAcquire_keyId hp).symm.trans hkey) hid
    · rw [Function.update_of_ne hj] at hp
      exact (h b hb).2 j p hp hkey

omit [Fintype ι] in
theorem Steady.release {m : Nat} (h : Steady id m w held) :
    Steady id m (w.release p) (Function.update held i none) := by
  have hkept : ∀ {j q}, Function.update held i none j = some q → held j = some q := by
    intro j q hq
    by_cases hj : j = i
    · subst hj
      rw [Function.update_self] at hq
      cases hq
    · rwa [Function.update_of_ne hj] at hq
  intro b hb
  by_cases hid : p.keyId = id
  · rw [World.release_budget hid] at hb
    obtain ⟨b', hb', rfl⟩ := Option.map_eq_some_iff.mp hb
    obtain ⟨hpermits, hgenerations⟩ := h b' hb'
    unfold KeyBudget.returned
    split
    · exact ⟨hpermits, fun j q hq hkey => hgenerations j q (hkept hq) hkey⟩
    · exact ⟨hpermits, fun j q hq hkey => hgenerations j q (hkept hq) hkey⟩
  · rw [World.release_budget_of_ne (Ne.symm hid)] at hb
    exact ⟨(h b hb).1, fun j q hq hkey => (h b hb).2 j q (hkept hq) hkey⟩

omit [DecidableEq ι] in
/-- A key that has had one budget has no more holders than that. -/
theorem Steady.card_le {m : Nat} (h : Steady id m w held) (hb : Balanced w held) :
    (Finset.univ.filter fun i => (held i).any (·.keyId == id)).card ≤ m := by
  cases hbudget : w.budget id with
  | none =>
    refine le_of_eq_of_le (Finset.card_eq_zero.mpr (Finset.filter_eq_empty_iff.mpr ?_))
      (Nat.zero_le m)
    intro i _ hany
    obtain ⟨p, hp, hkey⟩ := (Option.any_eq_true _ _).mp hany
    obtain ⟨b, hknown, -⟩ := hb.known i p hp
    rw [beq_iff_eq.mp hkey, hbudget] at hknown
    cases hknown
  | some b =>
    obtain ⟨hpermits, hgenerations⟩ := h b hbudget
    have hsub : (Finset.univ.filter fun i => (held i).any (·.keyId == id)) ⊆
        holding held id b.generation := by
      intro i hi
      obtain ⟨p, hp, hkey⟩ := (Option.any_eq_true _ _).mp (Finset.mem_filter.mp hi).2
      have hkey := beq_iff_eq.mp hkey
      refine Finset.mem_filter.mpr ⟨Finset.mem_univ i, (Option.any_eq_true _ _).mpr ⟨p, hp, ?_⟩⟩
      exact Permit.isOf_iff.mpr ⟨hkey, hgenerations i p hp hkey⟩
    calc (Finset.univ.filter fun i => (held i).any (·.keyId == id)).card
        ≤ (holding held id b.generation).card := Finset.card_le_card hsub
      _ = b.inUse := (hb.counted id b hbudget).symm
      _ ≤ b.permits := hb.bounded id b hbudget
      _ = m := hpermits

end Balance

/-! ### What a request holds -/

/-- What an answer changes in the hands of the request: a permit is drawn, or given
back. -/
def grip : ((β : Type) × Op β × β) → Option (Option Permit)
  | ⟨_, .tryAcquire _ _, some p⟩ => some (some p)
  | ⟨_, .release _, _⟩ => some none
  | _ => none

/-- The permit a request holds after what it was answered. -/
def heldBy (h : Heard Op) : Option Permit := (h.findSome? grip).join

/-- A permit is drawn with empty hands, given back by who holds it, and held while
the record of its key is stored. -/
def HoldsRight : Heard Op → ∀ β, Op β → Prop
  | h, _, .tryAcquire _ _ => heldBy h = none
  | h, _, .release p => heldBy h = some p
  | h, _, .db (.insertExecution row) =>
    ∀ k, row.apiKeyId = some k → ∃ p, heldBy h = some p ∧ p.keyId = k
  | _, _, _ => True

/-- A permit is one of the key it was asked for. -/
def AnswersOwn : ∀ β, Op β → β → Prop
  | _, .tryAcquire id _, answer => ∀ p, answer = some p → p.keyId = id
  | _, _, _ => True

theorem answersOwn {β : Type} (q : Op β) (w : World) : AnswersOwn β q (Op.exec β q w).1 := by
  cases q with
  | tryAcquire id permits => exact fun _ hp => World.tryAcquire_keyId hp
  | _ => trivial

/-- The operation is none of these. -/
def Op.Spares : ∀ β, Op β → Prop
  | _, .tryAcquire _ _ => False
  | _, .release _ => False
  | _, .db (.insertExecution _) => False
  | _, _ => True

section Requests

variable {α β : Type} {h : Heard Op} {ctx : Context} {hook : Hook} {key : Option ApiKey}

abbrev Hands (h : Heard Op) (p : Handler α) (P : Heard Op → Except AppError α → Prop) : Prop :=
  p.Guarantees AnswersOwn HoldsRight h P

theorem heldBy_cons_of_spares {q : Op β} (hq : Op.Spares β q) (b : β) :
    heldBy (⟨β, q, b⟩ :: h) = heldBy h := by
  cases q with
  | tryAcquire id permits => exact hq.elim
  | release p => exact hq.elim
  | _ => rfl

/-- What leaves the limiter alone leaves the hands as they are. -/
theorem hands_spares {p : Handler α} (hp : p.Emits Op.Spares) :
    Hands h p fun h' _ => heldBy h' = heldBy h := by
  refine hp.guarantees (K := fun h' => heldBy h' = heldBy h) (fun h β q hq => ?_)
    (fun h' β q b hq hsame => (heldBy_cons_of_spares hq b).trans hsame) rfl
  cases q with
  | tryAcquire id permits => exact hq.elim
  | release p => exact hq.elim
  | db s =>
    cases s with
    | insertExecution row => exact hq.elim
    | _ => trivial
  | _ => trivial

theorem spares_sql {s : Stmt β} (hs : s.write? = none) :
    (sql s).Emits Op.Spares := by
  rw [emits_sql]
  cases s with
  | insertExecution row => cases hs
  | _ => trivial

theorem resolveHook_spares (identifier : String) :
    (resolveHook identifier).Emits Op.Spares := by
  refine .bind (.bind ?_ fun byId => ?_) fun _ => .bind (emits_require _ _) fun _ => trivial
  · cases Uuid.parseStr identifier with
    | none => trivial
    | some id => exact .map _ (spares_sql rfl)
  · cases byId with
    | none => exact .bind (.map _ (spares_sql rfl)) fun _ => emits_orElse _ _
    | some _ => trivial

theorem authorizeInvocation_spares (identifier : String) :
    (authorizeInvocation key identifier).Emits Op.Spares := by
  refine (resolveHook_spares _).bind fun hook => .bind ?_ fun _ => trivial
  cases key with
  | none => trivial
  | some key =>
    exact emits_unless (.bind (.map _ (spares_sql rfl)) fun _ => emits_require _ _)

theorem resolveRequestParameters_spares (body : Bytes) :
    (resolveRequestParameters ctx hook body).Emits Op.Spares :=
  .bind (emits_ofExcept _) fun _ => .bind (spares_sql rfl) fun _ => emits_ofExcept _

theorem spares_of_checksAt {now : Instant} {q : Op β}
    (hq : Op.ChecksAt now β q ∧ WritesAmong [] β q) : Op.Spares β q := by
  obtain ⟨hchecks, hreads⟩ := hq
  cases q with
  | tryAcquire id permits => exact hchecks
  | release p => exact hchecks
  | db s =>
    cases s with
    | insertExecution row => exact List.not_mem_nil (hreads _ rfl)
    | _ => trivial
  | _ => trivial

theorem authenticateBearerKey_spares {state : AppState} {clock : AuthClock}
    {presentedKey : String} {clientIp : IpAddr} {req : HttpRequest} {hook : Option Hook} :
    (authenticateBearerKey state clock presentedKey clientIp hook req).Emits Op.Spares :=
  (authenticateBearerKey_checksAt.and (authenticateBearerKey_writes _ _ _ _ _ _)).mono
    fun _ _ => spares_of_checksAt

theorem mapFailure_spares {p : Handler α} (f : AppError → AppError) (hp : p.Emits Op.Spares) :
    (mapFailure p f).Emits Op.Spares :=
  hp.attempt.bind fun _ => emits_ofExcept _

theorem invocationAuthMiddleware_spares (state : AppState) (clock : AuthClock)
    (clientIp : IpAddr) (req : HttpRequest) :
    (invocationAuthMiddleware state clock clientIp req).Emits Op.Spares := by
  unfold invocationAuthMiddleware
  -- the identifier is data here; its parsing would otherwise be unfolded
  generalize hookIdentifierFromPath req.path = identifier
  cases req.headers.getStr apiKeyHeader with
  | some presentedKey =>
    refine .bind ?_ fun _ =>
      (mapFailure_spares _ authenticateBearerKey_spares).bind fun _ => trivial
    cases identifier with
    | none => trivial
    | some identifier => exact .map _ (resolveHook_spares _).attempt
  | none =>
    exact .bind (emits_orElse _ _) fun _ => (mapFailure_spares _ (resolveHook_spares _)).bind
      fun _ => .bind (emits_ofExcept _) fun _ => trivial

/-- What runs while the permit is held leaves it held. -/
theorem hands_runPlanned (ctx : Context) (hook : Hook) (key : Option ApiKey)
    (resolved : ResolvedParameters)
    (hheld : ∀ k, key = some k → ∃ p, heldBy h = some p ∧ p.keyId = k.id) :
    Hands h (runPlanned ctx hook key resolved) fun h' _ => heldBy h' = heldBy h := by
  refine Guarantees.bind (M := fun h' _ => h' = h) ?_ (fun h' e hsame => hsame ▸ rfl) ?_
  · exact guarantees_ofExcept rfl
  · rintro h' plan rfl
    refine ⟨fun k hk => ?_, fun answer _ => ?_⟩
    · obtain ⟨caller, hcaller, rfl⟩ := Option.map_eq_some_iff.mp hk
      exact hheld caller hcaller
    · cases answer with
      | error err => exact rfl
      | ok b => exact rfl

/-- A call ends with a permit of its key in hand, or with nothing. -/
theorem hands_tryAcquire (caller : ApiKey) (hfree : heldBy h = none) :
    Hands h (Executor.tryAcquire caller) fun h' r =>
      (∀ permit, r = .ok permit → heldBy h' = some permit ∧ permit.keyId = caller.id) ∧
        ∀ e, r = .error e → heldBy h' = none := by
  refine ⟨hfree, fun answer hown => ?_⟩
  cases answer with
  | none => exact ⟨fun _ hr => (by cases hr), fun _ _ => hfree⟩
  | some permit =>
    refine ⟨fun permit' hr => ?_, fun _ hr => (by cases hr)⟩
    cases hr
    exact ⟨rfl, hown permit rfl⟩

/-- Whoever runs a hook ends with empty hands. -/
theorem hands_executeHook (resolved : ResolvedParameters) (hfree : heldBy h = none) :
    Hands h (executeHook ctx hook key resolved) fun h' _ => heldBy h' = none := by
  refine Guarantees.bind (M := fun h' _ => h' = h) ?_ (fun h' e hsame => hsame ▸ hfree) ?_
  · exact guarantees_ofExcept rfl
  · rintro h' _ rfl
    cases key with
    | none =>
      exact (hands_runPlanned ctx hook none resolved fun k hk => by cases hk).mono
        fun _ _ hsame => hsame.trans hfree
    | some caller =>
      refine (hands_tryAcquire caller hfree).bind (fun _ e hM => hM.2 e rfl) fun h' permit hM => ?_
      obtain ⟨hheld, hkey⟩ := hM.1 permit rfl
      have hplanned := hands_runPlanned ctx hook (some caller) resolved
        fun k hk => by cases hk; exact ⟨permit, hheld, hkey⟩
      refine hplanned.attempt.bind (fun _ e hM => ?_) fun h'' outcome hM => ?_
      · obtain ⟨_, hr, -⟩ := hM
        cases hr
      · obtain ⟨_, -, hsame⟩ := hM
        exact ⟨hsame.trans hheld, fun _ _ => guarantees_ofExcept rfl⟩

/-- A request that is served begins and ends with empty hands. -/
theorem hands_serve (ctx : Context) (clock : AuthClock) (inv : Invocation) :
    Hands [] (serve ctx clock (.invoke inv)) fun h' _ => heldBy h' = none := by
  rw [serve_invoke_eq]
  have haside : ∀ {γ δ : Type} {h : Heard Op} {p : Handler γ} {f : γ → Handler δ},
      p.Emits Op.Spares → heldBy h = none →
      (∀ a h', heldBy h' = none → Hands h' (f a) fun h'' _ => heldBy h'' = none) →
      Hands h (p.bind f) fun h'' _ => heldBy h'' = none :=
    fun hp hh hf => (hands_spares hp).bind (fun _ _ hsame => hsame.trans hh)
      fun h' a hsame => hf a h' (hsame.trans hh)
  refine haside (invocationAuthMiddleware_spares _ _ _ _) rfl fun caller _ hh => ?_
  refine Guarantees.map ?_
  refine haside (emits_ofExcept _) hh fun identifier _ hh => ?_
  refine haside (emits_ofExcept _) hh fun body _ hh => ?_
  have hrun : ∀ {h : Heard Op}, heldBy h = none →
      Hands h (runHookRequest ctx caller identifier body) fun h' _ => heldBy h' = none := by
    intro h hh
    refine haside (authorizeInvocation_spares _) hh fun hook _ hh => ?_
    refine haside (resolveRequestParameters_spares _) hh fun resolved _ hh => ?_
    refine haside (emits_require _ _) hh fun _ _ hh => ?_
    exact (hands_executeHook resolved hh).bind (fun _ _ hnone => hnone) fun _ _ hnone => hnone
  cases inv.route with
  | execute => exact (hrun hh).map
  | webhook => exact (hrun hh).map
  | test =>
    refine Guarantees.map ?_
    refine haside (authorizeInvocation_spares _) hh fun hook _ hh => ?_
    exact haside (resolveRequestParameters_spares _) hh fun resolved _ hh => hh

end Requests

/-! ### Requests in flight -/

/-- Something that happens beside the requests that run hooks: a statement of an
administrative request, a sweep, somebody's write to the database. It may do as it
likes, but draws on no budget. -/
structure Elsewhere where
  act : World → World
  spares : ∀ w, (act w).limiter = w.limiter

abbrev JobOp : Type → Type 1 := Disturbed Op Elsewhere

def JobOp.exec : Interpretation JobOp World := Disturbed.exec Op.exec Elsewhere.act

/-- An invocation being served, or what happens beside it. -/
inductive Job where
  | serves (ctx : Context) (clock : AuthClock) (inv : Invocation)
  | elsewhere (steps : List Elsewhere)

def Job.program : Job → Program JobOp AppError Unit
  | .serves ctx clock inv => (((fun _ => ()) <$> serve ctx clock (.invoke inv)).within Elsewhere)
  | .elsewhere steps => disturbances steps

/-- What is left to do when a request is dropped: its permit, if it holds one, is
given back. -/
def giveBack (h : Heard JobOp) : Program JobOp AppError Unit :=
  match heldBy (Disturbed.undisturbed h) with
  | some p => .query (.query (.release p)) fun _ => .fail .internal
  | none => .fail .internal

section Jobs

variable {ι : Type} [DecidableEq ι] {jobs : ι → Job} {w : World}
  {c : Config JobOp AppError Unit World ι} {i : ι}

/-- What jobs can come to, in any order, any of them dropped at any point. -/
abbrev InProgress (jobs : ι → Job) (w : World) (c : Config JobOp AppError Unit World ι) : Prop :=
  Dropping JobOp.exec giveBack (fun i => (jobs i).program) w c

/-- The permit a job holds by its place in a log. -/
def holds (log : List (Event JobOp World ι)) (i : ι) : Option Permit :=
  heldBy (Disturbed.undisturbed (heard JobOp.exec i log))

/-- What a job is to keep to. -/
abbrev Keeps (h : Heard JobOp) (p : Program JobOp AppError Unit) : Prop :=
  p.Guarantees (Undisturbed AnswersOwn) (Disturbed.Allowed HoldsRight) h
    fun h' _ => heldBy (Disturbed.undisturbed h') = none

theorem Job.keeps (job : Job) : Keeps [] job.program := by
  cases job with
  | serves ctx clock inv =>
    exact Guarantees.within (P := fun h' _ => heldBy h' = none) (hands_serve ctx clock inv).map
  | elsewhere steps =>
    exact guarantees_disturbances (P := fun h' => heldBy h' = none) steps rfl

theorem giveBack_keeps (h : Heard JobOp) : Keeps h (giveBack h) := by
  unfold giveBack
  cases hheld : heldBy (Disturbed.undisturbed h) with
  | none => exact hheld
  | some p => exact ⟨hheld, fun _ _ => rfl⟩

theorem InProgress.keeps (h : InProgress jobs w c) :
    (∀ i, Keeps (heard JobOp.exec i c.log) (c.left i)) ∧
      ∀ later e early, c.log = later ++ e :: early →
        Disturbed.Allowed HoldsRight (heard JobOp.exec e.who early) _ e.query := by
  refine Dropping.guarantees h (fun β q t => ?_) (fun i => (jobs i).keeps)
    fun i h' => giveBack_keeps h'
  cases q with
  | query q => exact answersOwn q t
  | disturb d => trivial

theorem holds_cons_query {β : Type} (q : Op β) (t : World) (log : List (Event JobOp World ι)) :
    holds (⟨i, .query q, t⟩ :: log) = Function.update (holds log) i
      (heldBy (⟨β, q, (Op.exec β q t).1⟩ ::
        Disturbed.undisturbed (heard JobOp.exec i log))) := by
  let e : Event JobOp World ι := ⟨i, .query q, t⟩
  funext j
  by_cases hj : j = i
  · subst hj
    rw [Function.update_self, holds, heard_cons_self (e := e) rfl]
    rfl
  · rw [Function.update_of_ne hj, holds, heard_cons_of_ne (e := e) (Ne.symm hj)]
    rfl

theorem holds_cons_disturb (d : Elsewhere) (t : World) (log : List (Event JobOp World ι)) :
    holds (⟨i, .disturb d, t⟩ :: log) = holds log := by
  let e : Event JobOp World ι := ⟨i, .disturb d, t⟩
  funext j
  by_cases hj : j = i
  · subst hj
    rw [holds, heard_cons_self (e := e) rfl]
    rfl
  · rw [holds, heard_cons_of_ne (e := e) (Ne.symm hj)]
    rfl

/-- What a turn does to the hand of the job that takes it, and to the budgets. -/
theorem turn_cases {log : List (Event JobOp World ι)} {e : Event JobOp World ι}
    (hkeeps : Disturbed.Allowed HoldsRight (heard JobOp.exec e.who log) _ e.query) :
    (∃ id permits, holds log e.who = none ∧
        e.exchange JobOp.exec =
          ⟨_, .query (.tryAcquire id permits), (e.before.tryAcquire id permits).1⟩ ∧
        e.after JobOp.exec = (e.before.tryAcquire id permits).2 ∧
        holds (e :: log) =
          Function.update (holds log) e.who (e.before.tryAcquire id permits).1) ∨
      (∃ p, holds log e.who = some p ∧ e.after JobOp.exec = e.before.release p ∧
        holds (e :: log) = Function.update (holds log) e.who none) ∨
      (∀ id, (e.after JobOp.exec).budget id = e.before.budget id) ∧ holds (e :: log) = holds log := by
  obtain ⟨i, query, t⟩ := e
  cases query with
  | disturb d =>
    refine .inr (.inr ⟨fun id => ?_, holds_cons_disturb d t log⟩)
    change (d.act t).budget id = t.budget id
    rw [World.budget, d.spares]
    rfl
  | query q =>
    rw [holds_cons_query]
    cases q with
    | tryAcquire id permits =>
      refine .inl ⟨id, permits, hkeeps, rfl, rfl, ?_⟩
      refine congrArg (Function.update (holds log) i) ?_
      change heldBy (⟨_, .tryAcquire id permits, (t.tryAcquire id permits).1⟩ :: _) = _
      cases (t.tryAcquire id permits).1 with
      | some p => rfl
      | none => exact hkeeps
    | release p => exact .inr (.inl ⟨p, hkeeps, rfl, rfl⟩)
    | _ => exact .inr (.inr ⟨fun _ => rfl, Function.update_eq_self i (holds log)⟩)

variable [Fintype ι]

theorem Balanced.turn {log : List (Event JobOp World ι)} {e : Event JobOp World ι}
    (h : Balanced e.before (holds log))
    (hkeeps : Disturbed.Allowed HoldsRight (heard JobOp.exec e.who log) _ e.query) :
    Balanced (e.after JobOp.exec) (holds (e :: log)) := by
  obtain ⟨id, permits, hfree, -, hafter, hholds⟩ | ⟨p, hheld, hafter, hholds⟩ | ⟨hsame, hholds⟩ :=
    turn_cases hkeeps
  · rw [hafter, hholds]
    exact h.tryAcquire hfree id permits
  · rw [hafter, hholds]
    exact h.release hheld
  · rw [hholds]
    exact h.congr hsame

/-- Every call for a key was made under one budget. -/
def CallsUnder (id : Uuid) (m : Nat) (log : List (Event JobOp World ι)) : Prop :=
  ∀ e ∈ log, ∀ permits answer,
    e.exchange JobOp.exec = ⟨_, .query (.tryAcquire id permits), answer⟩ → permits = m

omit [Fintype ι] in
theorem Steady.turn {log : List (Event JobOp World ι)} {e : Event JobOp World ι} {id : Uuid}
    {m : Nat} (h : Steady id m e.before (holds log))
    (hknown : ∀ i p, holds log i = some p → ∃ b, e.before.budget p.keyId = some b)
    (hunder : ∀ permits answer,
      e.exchange JobOp.exec = ⟨_, .query (.tryAcquire id permits), answer⟩ → permits = m)
    (hkeeps : Disturbed.Allowed HoldsRight (heard JobOp.exec e.who log) _ e.query) :
    Steady id m (e.after JobOp.exec) (holds (e :: log)) := by
  obtain ⟨id', permits, -, hcall, hafter, hholds⟩ | ⟨p, -, hafter, hholds⟩ | ⟨hsame, hholds⟩ :=
    turn_cases hkeeps
  · rw [hafter, hholds]
    refine h.tryAcquire hknown ?_
    rintro rfl
    exact hunder permits _ hcall
  · rw [hafter, hholds]
    exact h.release
  · rw [hholds]
    intro b hb
    exact h b (hsame id ▸ hb)

/-- At every point of a run, every budget counts who holds a permit of it, and that
of a key whose calls all came under one budget is still that one. -/
theorem InProgress.accounts (h : InProgress jobs w c) (hidle : w.limiter = []) :
    Balanced c.state (holds c.log) ∧
      ∀ id m, CallsUnder id m c.log → Steady id m c.state (holds c.log) := by
  obtain ⟨hstate, hchained⟩ := h.chained
  have hkeeps := h.keeps.2
  have hempty : ∀ {id b}, w.budget id ≠ some b := by simp [World.budget, hidle]
  have hall : ∀ early later, c.log = later ++ early →
      Balanced (stateAfter JobOp.exec w early) (holds early) ∧ ∀ id m, CallsUnder id m c.log →
        Steady id m (stateAfter JobOp.exec w early) (holds early) := by
    intro early
    induction early with
    | nil =>
      intro _ _
      refine ⟨⟨fun id b hb => absurd hb hempty, fun id b hb => absurd hb hempty, ?_⟩,
        fun _ _ _ b hb => absurd hb hempty⟩
      intro i p hp
      cases hp
    | cons e early ih =>
      intro later hlog
      obtain ⟨hbalanced, hsteady⟩ := ih (later ++ [e]) (by simp [hlog])
      have hbefore : e.before = stateAfter JobOp.exec w early := (hlog ▸ hchained).before
      rw [← hbefore] at hbalanced hsteady
      refine ⟨hbalanced.turn (hkeeps later e early hlog), fun id m hunder => ?_⟩
      refine (hsteady id m hunder).turn (fun i p hp => ?_) (hunder e (by simp [hlog]))
        (hkeeps later e early hlog)
      obtain ⟨b, hb, -⟩ := hbalanced.known i p hp
      exact ⟨b, hb⟩
  rw [hstate]
  exact hall c.log [] rfl

/-- What holds of the permits at a point of a run: each budget counts its holders,
and no key whose calls came under one budget has more of them; who has ended holds
nothing; and while the record of a key is stored, a permit of it is held. -/
structure PermitsAccounted (c : Config JobOp AppError Unit World ι) : Prop where
  counted : ∀ id b, c.state.budget id = some b →
    (holding (holds c.log) id b.generation).card = b.inUse ∧ b.inUse ≤ b.permits
  bounded : ∀ id m, CallsUnder id m c.log →
    (Finset.univ.filter fun i => (holds c.log i).any (·.keyId == id)).card ≤ m
  returned : ∀ i, (c.left i).outcome.isSome = true → holds c.log i = none
  idle : (∀ i, (c.left i).outcome.isSome = true) →
    ∀ id b, c.state.budget id = some b → b.inUse = 0
  covered : ∀ later e early row k answer, c.log = later ++ e :: early →
    e.exchange JobOp.exec = ⟨_, .query (.db (.insertExecution row)), answer⟩ →
    row.apiKeyId = some k → ∃ p, holds early e.who = some p ∧ p.keyId = k

/-- Whatever invocations are in flight, in whatever order they take their turns,
whichever of them are dropped, and whatever else happens to the database, permits
are accounted for. -/
theorem permits_accounted (h : InProgress jobs w c) (hidle : w.limiter = []) :
    PermitsAccounted c := by
  obtain ⟨hbalanced, hsteady⟩ := h.accounts hidle
  obtain ⟨hleft, hissued⟩ := h.keeps
  have hreturned : ∀ i, (c.left i).outcome.isSome = true → holds c.log i = none := by
    intro i hended
    obtain ⟨r, hr⟩ := Option.isSome_iff_exists.mp hended
    exact (hleft i).of_outcome hr
  refine ⟨fun id b hb => ⟨(hbalanced.counted id b hb).symm, hbalanced.bounded id b hb⟩,
    fun id m hunder => (hsteady id m hunder).card_le hbalanced, hreturned, ?_, ?_⟩
  · intro hended id b hb
    rw [hbalanced.counted id b hb, Finset.card_eq_zero, holding, Finset.filter_eq_empty_iff]
    intro i _
    rw [hreturned i (hended i)]
    exact Bool.false_ne_true
  · intro later e early row k answer hlog hstores hkey
    have hkeeps := hissued later e early hlog
    obtain ⟨i, query, t⟩ := e
    cases hstores
    exact hkeeps k hkey

end Jobs

section Sample

open Sample

/-- The maker of a hook runs it, twice at once. -/
def runsTwice : Bool → Job := fun second =>
  .serves (ctx (if second then 4 else 3)) clock
    ⟨.execute, "deploy", deploy_isSegment, "POST", "/api/hooks/deploy/execute",
      ⟨[keyHeader parentKey]⟩, []⟩

/-- Both have drawn a permit. -/
def bothRunning : Config JobOp AppError Unit World Bool :=
  (Config.advance JobOp.exec false 6 ⟨fun i => (runsTwice i).program, withOwned, []⟩).advance
    JobOp.exec true 6

/-- The caller of the second hangs up, and its permit is given back. -/
def hungUp : Config JobOp AppError Unit World Bool :=
  Config.advance JobOp.exec true 1
    { bothRunning with
      left := Function.update bothRunning.left true
        (giveBack (heard JobOp.exec true bothRunning.log)) }

theorem permits_accounted_hungUp : PermitsAccounted hungUp ∧
    (bothRunning.state.budget 101).map (·.inUse) = some 2 ∧
    (hungUp.state.budget 101).map (·.inUse) = some 1 :=
  have hrun : InProgress runsTwice withOwned hungUp :=
    (((Dropping.initial.scheduled false 6).scheduled true 6).dropped true
      (by decide)).scheduled true 1
  ⟨permits_accounted hrun rfl, by decide, by decide⟩

end Sample

end HookExecutor
