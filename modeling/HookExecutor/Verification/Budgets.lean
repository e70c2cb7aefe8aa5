import HookExecutor.Executor.Execute
import HookExecutor.Lib.Transcript
import Mathlib.Data.Finset.Card
import Mathlib.Logic.Function.Basic

/-!
# Concurrency budgets

A run of the limiter is a sequence of calls and of dropped permits, by any keys
in any order. The budget of one key is a component of it: what other keys do
changes neither its answers nor its state. Within a component, a semaphore
counts exactly the jobs still in flight among those started since the budget
took its value, so a call is refused if and only if that many are in flight,
and no stretch of calls under one budget ever has more of them.
-/

namespace HookExecutor

open Executor

/-! ### Runs of the limiter -/

/-- One event at the limiter. A job goes by its place among its key's events. -/
inductive LimiterCall where
  | tryAcquire (key : ApiKey)
  | drop (keyId : Uuid) (job : Nat)

namespace LimiterCall

def keyId : LimiterCall → Uuid
  | tryAcquire key => key.id
  | drop id _ => id

def ofKey (id : Uuid) (call : LimiterCall) : Bool := call.keyId == id

def drops (call : LimiterCall) (job : Nat) : Bool :=
  match call with
  | tryAcquire _ => false
  | drop _ n => n == job

/-- A call under the effective budget `permits`; a drop presents none. -/
def presents (permits : Nat) : LimiterCall → Bool
  | tryAcquire key => permitsOf key == permits
  | drop _ _ => true

end LimiterCall

/-- The limiter, and what the job of each event of each key still holds. -/
structure LimiterRun where
  world : World
  held : Uuid → List (Option Permit)

/-- The permit a job holds, if it holds one. -/
def permitAt (held : List (Option Permit)) (job : Nat) : Option Permit := held[job]?.join

def limiterMachine : Machine LimiterRun LimiterCall (Option Permit)
  | s, .tryAcquire key =>
    let r := s.world.tryAcquire key.id (permitsOf key)
    (r.1, { world := r.2, held := Function.update s.held key.id (s.held key.id ++ [r.1]) })
  | s, .drop id job =>
    (none,
      { world := (permitAt (s.held id) job).elim s.world s.world.release
        held := Function.update s.held id ((s.held id).set job none ++ [none]) })

/-- A process that has handed out no permit yet. -/
def LimiterRun.idle (w : World) : LimiterRun := ⟨{ w with limiter := [] }, fun _ => []⟩

/-- A permit is what the handler that runs a hook asks the limiter for. -/
theorem limiterMachine_tryAcquire (s : LimiterRun) (key : ApiKey) :
    (Executor.tryAcquire key).run Op.exec s.world =
      (match (limiterMachine s (.tryAcquire key)).1 with
        | some permit => .ok permit
        | none => .error (.tooManyRequests ("Concurrency limit reached for this API key " ++
            s!"({permitsOf key} simultaneous job(s) allowed)")),
      (limiterMachine s (.tryAcquire key)).2.world) := by
  simp only [Executor.tryAcquire, limiterMachine, Program.bind_eq, Program.run_bind,
    Program.run_ask, Op.exec]
  cases (s.world.tryAcquire key.id (permitsOf key)).1 with
  | none => rfl
  | some permit => rfl

/-! ### The budget of one key -/

/-- One key's part of a run. -/
structure KeySlots where
  budget : Option KeyBudget
  held : List (Option Permit)

def LimiterRun.slots (id : Uuid) (s : LimiterRun) : KeySlots := ⟨s.world.budget id, s.held id⟩

/-- The semaphore in use under a budget, replaced if that was edited. -/
def currentOf (budget : Option KeyBudget) (permits : Nat) : KeyBudget :=
  match budget with
  | none => ⟨permits, 0, 0⟩
  | some b => if b.permits = permits then b else ⟨permits, 0, b.generation + 1⟩

def KeyBudget.returned (b : KeyBudget) (permit : Permit) : KeyBudget :=
  if b.generation = permit.generation then { b with inUse := b.inUse - 1 } else b

/-- What the limiter does for one key. -/
def slotsMachine : Machine KeySlots LimiterCall (Option Permit)
  | s, .tryAcquire key =>
    let b := currentOf s.budget (permitsOf key)
    if b.inUse < b.permits then
      (some ⟨key.id, b.generation⟩,
        { budget := some { b with inUse := b.inUse + 1 }
          held := s.held ++ [some ⟨key.id, b.generation⟩] })
    else (none, { budget := some b, held := s.held ++ [none] })
  | s, .drop _ job =>
    (none,
      { budget := (permitAt s.held job).elim s.budget fun p => s.budget.map (·.returned p)
        held := s.held.set job none ++ [none] })

section Answers

variable {s : KeySlots} {key : ApiKey}

theorem slotsMachine_granted
    (h : (currentOf s.budget (permitsOf key)).inUse <
      (currentOf s.budget (permitsOf key)).permits) :
    slotsMachine s (.tryAcquire key) =
      (some ⟨key.id, (currentOf s.budget (permitsOf key)).generation⟩,
        { budget := some { currentOf s.budget (permitsOf key) with
            inUse := (currentOf s.budget (permitsOf key)).inUse + 1 }
          held := s.held ++ [some ⟨key.id, (currentOf s.budget (permitsOf key)).generation⟩] }) :=
  if_pos h

theorem slotsMachine_refused
    (h : ¬(currentOf s.budget (permitsOf key)).inUse <
      (currentOf s.budget (permitsOf key)).permits) :
    slotsMachine s (.tryAcquire key) =
      (none, { budget := some (currentOf s.budget (permitsOf key)), held := s.held ++ [none] }) :=
  if_neg h

end Answers

namespace World

variable {w : World} {id id' : Uuid} {b : KeyBudget} {permit : Permit}

@[simp] theorem budget_setBudget_self : (w.setBudget id b).budget id = some b := by
  simp [budget, setBudget]

theorem budget_setBudget_of_ne (h : id' ≠ id) : (w.setBudget id b).budget id' = w.budget id' := by
  simp only [budget, setBudget]
  rw [List.find?_cons_of_neg (by simpa using h.symm), List.find?_filter]
  congr 2
  funext entry
  by_cases hentry : entry.1 = id'
  · simp [hentry, h]
  · simp [hentry]

theorem tryAcquire_budget_of_ne (h : id' ≠ id) (permits : Nat) :
    (w.tryAcquire id permits).2.budget id' = w.budget id' := by
  simp only [tryAcquire]
  split
  · exact budget_setBudget_of_ne h
  · exact budget_setBudget_of_ne h

theorem release_budget_of_ne (h : id' ≠ permit.keyId) :
    (w.release permit).budget id' = w.budget id' := by
  simp only [release]
  split
  · rfl
  · split
    · exact budget_setBudget_of_ne h
    · rfl

theorem release_budget (hid : permit.keyId = id) :
    (w.release permit).budget id = (w.budget id).map (·.returned permit) := by
  subst hid
  simp only [release]
  cases hb : w.budget permit.keyId with
  | none => simp [hb]
  | some b =>
    simp only [KeyBudget.returned, Option.map_some]
    split
    · simp
    · exact hb

end World

/-- Every job holds a permit of its own key. -/
def LimiterRun.OwnPermits (s : LimiterRun) : Prop :=
  ∀ id p, some p ∈ s.held id → p.keyId = id

theorem permitAt_mem {held : List (Option Permit)} {job : Nat} {p : Permit}
    (h : permitAt held job = some p) : some p ∈ held := by
  rw [permitAt, Option.join_eq_some_iff] at h
  exact List.mem_of_getElem? h

theorem World.tryAcquire_keyId {w : World} {id : Uuid} {permits : Nat} {p : Permit}
    (h : (w.tryAcquire id permits).1 = some p) : p.keyId = id := by
  simp only [World.tryAcquire] at h
  split at h
  · obtain rfl := Option.some.inj h
    rfl
  · cases h

theorem LimiterRun.OwnPermits.step {s : LimiterRun} (h : s.OwnPermits) (call : LimiterCall) :
    (limiterMachine s call).2.OwnPermits := by
  intro id p hp
  cases call with
  | tryAcquire key =>
    simp only [limiterMachine, Function.update_apply] at hp
    split at hp
    · next hid =>
      rcases List.mem_append.mp hp with hold | hnew
      · exact h id p (hid ▸ hold)
      · rw [hid]
        exact World.tryAcquire_keyId (List.mem_singleton.mp hnew).symm
    · exact h id p hp
  | drop keyId job =>
    simp only [limiterMachine, Function.update_apply] at hp
    split at hp
    · next hid =>
      rcases List.mem_append.mp hp with hold | hnew
      · rcases List.mem_or_eq_of_mem_set hold with hheld | hnone
        · exact h id p (hid ▸ hheld)
        · cases hnone
      · cases List.mem_singleton.mp hnew
    · exact h id p hp

/-- A key's own event is answered by its own part. -/
theorem slots_step {s : LimiterRun} (h : s.OwnPermits) {id : Uuid} {call : LimiterCall}
    (hown : call.ofKey id = true) :
    (limiterMachine s call).1 = (slotsMachine (s.slots id) call).1 ∧
      (limiterMachine s call).2.slots id = (slotsMachine (s.slots id) call).2 := by
  cases call with
  | tryAcquire key =>
    obtain rfl : key.id = id := by simpa [LimiterCall.ofKey, LimiterCall.keyId] using hown
    let b := currentOf (s.world.budget key.id) (permitsOf key)
    by_cases hfree : b.inUse < b.permits
    · have hworld : s.world.tryAcquire key.id (permitsOf key) =
          (some ⟨key.id, b.generation⟩,
            s.world.setBudget key.id { b with inUse := b.inUse + 1 }) := if_pos hfree
      rw [slotsMachine_granted (s := s.slots key.id) hfree]
      simp [limiterMachine, hworld, LimiterRun.slots, b]
    · have hworld : s.world.tryAcquire key.id (permitsOf key) =
          (none, s.world.setBudget key.id b) := if_neg hfree
      rw [slotsMachine_refused (s := s.slots key.id) hfree]
      simp [limiterMachine, hworld, LimiterRun.slots, b]
  | drop keyId job =>
    obtain rfl : keyId = id := by simpa [LimiterCall.ofKey, LimiterCall.keyId] using hown
    refine ⟨rfl, ?_⟩
    simp only [limiterMachine, slotsMachine, LimiterRun.slots, Function.update_self]
    cases hp : permitAt (s.held keyId) job with
    | none => rfl
    | some p =>
      have hid := h keyId p (permitAt_mem hp)
      simp only [Option.elim_some, World.release_budget hid]

/-- Another key's event leaves a key's part alone. -/
theorem slots_step_of_other {s : LimiterRun} (h : s.OwnPermits) {id : Uuid} {call : LimiterCall}
    (hother : call.ofKey id = false) : (limiterMachine s call).2.slots id = s.slots id := by
  have hne : id ≠ call.keyId := by
    intro heq
    simp [LimiterCall.ofKey, heq] at hother
  cases call with
  | tryAcquire key =>
    change id ≠ key.id at hne
    simp only [limiterMachine, LimiterRun.slots, Function.update_of_ne hne,
      World.tryAcquire_budget_of_ne hne]
  | drop keyId job =>
    change id ≠ keyId at hne
    simp only [limiterMachine, LimiterRun.slots, Function.update_of_ne hne]
    cases hp : permitAt (s.held keyId) job with
    | none => rfl
    | some p =>
      have hid := h keyId p (permitAt_mem hp)
      simp only [Option.elim_some, World.release_budget_of_ne (hid ▸ hne)]

/-- What happens to one key in a run. -/
def eventsOf (id : Uuid) (events : List (LimiterCall × Option Permit)) :
    List (LimiterCall × Option Permit) :=
  events.filter fun e => e.1.ofKey id

theorem eventsOf_transcript (w : World) (calls : List LimiterCall) (id : Uuid) :
    eventsOf id (limiterMachine.transcript (.idle w) calls) =
      slotsMachine.transcript ⟨none, []⟩ (calls.filter (·.ofKey id)) :=
  Machine.transcript_filter (P := LimiterRun.OwnPermits) (v := LimiterRun.slots id)
    (fun _ call h => h.step call) (fun _ _ h hown => slots_step h hown)
    (fun _ _ h hother => slots_step_of_other h hother)
    (fun _ _ hmem => by cases hmem)

/-! ### What is in flight -/

/-- What the job of an event holds once a key's events are over: what it was
granted, unless that was dropped since. -/
def heldAt (events : List (LimiterCall × Option Permit)) (job : Nat) : Option Permit :=
  if (events.drop (job + 1)).any fun e => e.1.drops job then none else (events[job]?).bind (·.2)

/-- Whether the budget of an event has been presented by every call since. -/
def currentAt (events : List (LimiterCall × Option Permit)) (permits job : Nat) : Bool :=
  (events.drop job).all fun e => e.1.presents permits

/-- The jobs in flight among those started since the budget took its value. -/
def inFlight (events : List (LimiterCall × Option Permit)) (permits : Nat) : Finset Nat :=
  (Finset.range events.length).filter fun job =>
    (heldAt events job).isSome ∧ currentAt events permits job

/-- The jobs in flight among those started by a stretch of events. -/
def inFlightOf (events : List (LimiterCall × Option Permit)) (first last : Nat) : Finset Nat :=
  (Finset.range events.length).filter fun job =>
    (heldAt events job).isSome ∧ first ≤ job ∧ job < last

/-- The jobs that hold a permit of one semaphore. -/
def holders (events : List (LimiterCall × Option Permit)) (generation : Nat) : Finset Nat :=
  (Finset.range events.length).filter fun job =>
    (heldAt events job).any fun p => p.generation == generation

section Histories

variable {events : List (LimiterCall × Option Permit)} {e : LimiterCall × Option Permit}
  {job permits generation : Nat} {p : Permit} {key : ApiKey}

theorem heldAt_snoc_of_lt (h : job < events.length) :
    heldAt (events ++ [e]) job = if e.1.drops job then none else heldAt events job := by
  unfold heldAt
  rw [List.drop_append_of_le_length (by omega), List.getElem?_append_left h, List.any_append]
  cases hdrop : e.1.drops job with
  | true => simp [hdrop]
  | false =>
    simp only [List.any_cons, List.any_nil, hdrop, Bool.or_false, Bool.false_eq_true, if_false]

theorem heldAt_snoc_self : heldAt (events ++ [e]) events.length = e.2 := by
  unfold heldAt
  rw [List.drop_of_length_le (by simp), List.getElem?_append_right le_rfl]
  simp

theorem heldAt_of_length_le (h : events.length ≤ job) : heldAt events job = none := by
  unfold heldAt
  rw [List.getElem?_eq_none h]
  simp

theorem lt_of_heldAt (h : heldAt events job = some p) : job < events.length := by
  by_contra hge
  rw [heldAt_of_length_le (by omega)] at h
  cases h

theorem currentAt_snoc (h : job ≤ events.length) :
    currentAt (events ++ [e]) permits job =
      (currentAt events permits job && e.1.presents permits) := by
  unfold currentAt
  rw [List.drop_append_of_le_length h, List.all_append]
  simp

theorem mem_holders :
    job ∈ holders events generation ↔
      ∃ p, heldAt events job = some p ∧ p.generation = generation := by
  simp only [holders, Finset.mem_filter, Finset.mem_range, Option.any_eq_true, beq_iff_eq]
  constructor
  · rintro ⟨-, p, hp, hgeneration⟩
    exact ⟨p, hp, hgeneration⟩
  · rintro ⟨p, hp, hgeneration⟩
    exact ⟨lt_of_heldAt hp, p, hp, hgeneration⟩

theorem mem_inFlight :
    job ∈ inFlight events permits ↔
      ∃ p, heldAt events job = some p ∧ currentAt events permits job = true := by
  simp only [inFlight, Finset.mem_filter, Finset.mem_range, Option.isSome_iff_exists]
  constructor
  · rintro ⟨-, ⟨p, hp⟩, hcurrent⟩
    exact ⟨p, hp, hcurrent⟩
  · rintro ⟨p, hp, hcurrent⟩
    exact ⟨lt_of_heldAt hp, ⟨p, hp⟩, hcurrent⟩

end Histories

/-- A key's semaphore accounts for the key's events. -/
structure Accounts (events : List (LimiterCall × Option Permit)) (s : KeySlots) : Prop where
  length_held : s.held.length = events.length
  permitAt_held : ∀ job, permitAt s.held job = heldAt events job
  /-- Only calls are granted anything. -/
  granted : ∀ job p, heldAt events job = some p →
    ∃ key, events[job]? = some (.tryAcquire key, some p)
  unused : s.budget = none → ∀ job, heldAt events job = none
  counted : ∀ b, s.budget = some b → b.inUse = (holders events b.generation).card
  bounded : ∀ b, s.budget = some b → b.inUse ≤ b.permits
  /-- The semaphores of a key are numbered in the order they were built, and
  the jobs of the last are those started under the current budget. -/
  newest : ∀ b, s.budget = some b → ∀ job p, heldAt events job = some p →
    p.generation ≤ b.generation ∧
      (p.generation = b.generation ↔ currentAt events b.permits job = true)
  /-- The budget that is still presented is the one the semaphore was built with. -/
  presented : ∀ b, s.budget = some b → ∀ job key o permits,
    events[job]? = some (.tryAcquire key, o) → currentAt events permits job = true →
      permits = b.permits

theorem accounts_start : Accounts [] ⟨none, []⟩ where
  length_held := rfl
  permitAt_held := fun _ => rfl
  granted := fun _ _ h => by simp [heldAt] at h
  unused := fun _ _ => by simp [heldAt]
  counted := fun _ h => by cases h
  bounded := fun _ h => by cases h
  newest := fun _ h => by cases h
  presented := fun _ h => by cases h

/-- The semaphore a call finds is the last one, or a new one nobody holds. -/
theorem currentOf_cases (budget : Option KeyBudget) (permits : Nat) :
    (∃ b, budget = some b ∧ b.permits = permits ∧ currentOf budget permits = b) ∨
      ((currentOf budget permits).permits = permits ∧ (currentOf budget permits).inUse = 0 ∧
        ∀ b, budget = some b →
          b.permits ≠ permits ∧ b.generation < (currentOf budget permits).generation) := by
  cases budget with
  | none => exact .inr ⟨rfl, rfl, fun _ h => by cases h⟩
  | some b =>
    by_cases hsame : b.permits = permits
    · exact .inl ⟨b, rfl, hsame, if_pos hsame⟩
    · have heq : currentOf (some b) permits = ⟨permits, 0, b.generation + 1⟩ := if_neg hsame
      refine .inr ⟨by rw [heq], by rw [heq], ?_⟩
      rintro _ ⟨⟩
      rw [heq]
      exact ⟨hsame, Nat.lt_succ_self _⟩

section Accounting

variable {events : List (LimiterCall × Option Permit)} {s : KeySlots} {key : ApiKey}
  {job permits : Nat} {p : Permit} {o : Option Permit}

/-- The semaphore that answers a call numbers the jobs of the current budget. -/
theorem Accounts.generation_current (h : Accounts events s) (permits : Nat)
    (hp : heldAt events job = some p) :
    p.generation ≤ (currentOf s.budget permits).generation ∧
      (p.generation = (currentOf s.budget permits).generation ↔
        currentAt events permits job = true) := by
  rcases currentOf_cases s.budget permits with ⟨b, hb, rfl, heq⟩ | ⟨-, -, hfresh⟩
  · rw [heq]
    exact h.newest b hb job p hp
  · cases hb : s.budget with
    | none =>
      rw [h.unused hb job] at hp
      cases hp
    | some b =>
      obtain ⟨hne, hlt⟩ := hfresh b hb
      rw [← hb]
      have hle := (h.newest b hb job p hp).1
      refine ⟨by omega, ⟨fun heq => by omega, fun hcurrent => ?_⟩⟩
      obtain ⟨key, hcall⟩ := h.granted job p hp
      exact absurd (h.presented b hb job key _ permits hcall hcurrent).symm hne

theorem Accounts.holders_current (h : Accounts events s) (permits : Nat) :
    holders events (currentOf s.budget permits).generation = inFlight events permits := by
  ext job
  rw [mem_holders, mem_inFlight]
  constructor
  · rintro ⟨p, hp, hgeneration⟩
    exact ⟨p, hp, (h.generation_current permits hp).2.mp hgeneration⟩
  · rintro ⟨p, hp, hcurrent⟩
    exact ⟨p, hp, (h.generation_current permits hp).2.mpr hcurrent⟩

/-- Its count is that of the jobs in flight under the budget. -/
theorem Accounts.inUse_current (h : Accounts events s) (permits : Nat) :
    (currentOf s.budget permits).inUse = (inFlight events permits).card := by
  rw [← h.holders_current]
  rcases currentOf_cases s.budget permits with ⟨b, hb, rfl, heq⟩ | ⟨-, hzero, hfresh⟩
  · rw [heq]
    exact h.counted b hb
  · rw [hzero, eq_comm, Finset.card_eq_zero, Finset.eq_empty_iff_forall_notMem]
    intro job hjob
    obtain ⟨p, hp, hgeneration⟩ := mem_holders.mp hjob
    cases hb : s.budget with
    | none =>
      rw [h.unused hb job] at hp
      cases hp
    | some b =>
      have hlt := (hfresh b hb).2
      have hle := (h.newest b hb job p hp).1
      omega

theorem permits_currentOf (budget : Option KeyBudget) (permits : Nat) :
    (currentOf budget permits).permits = permits := by
  rcases currentOf_cases budget permits with ⟨b, -, hpermits, heq⟩ | ⟨hpermits, -⟩
  · rw [heq, hpermits]
  · exact hpermits

theorem Accounts.inFlight_le (h : Accounts events s) (permits : Nat) :
    (inFlight events permits).card ≤ permits := by
  rw [← h.inUse_current]
  rcases currentOf_cases s.budget permits with ⟨b, hb, hpermits, heq⟩ | ⟨-, hzero, -⟩
  · rw [heq, ← hpermits]
    exact h.bounded b hb
  · rw [hzero]
    exact Nat.zero_le permits

/-- A call is refused if and only if its budget is used up. -/
theorem Accounts.refused_iff (h : Accounts events s) :
    (slotsMachine s (.tryAcquire key)).1 = none ↔
      (inFlight events (permitsOf key)).card = permitsOf key := by
  have hle := h.inFlight_le (permitsOf key)
  have hinUse := h.inUse_current (permitsOf key)
  have hpermits := permits_currentOf s.budget (permitsOf key)
  by_cases hfree : (currentOf s.budget (permitsOf key)).inUse <
      (currentOf s.budget (permitsOf key)).permits
  · rw [slotsMachine_granted hfree]
    simp only [reduceCtorEq, false_iff]
    omega
  · rw [slotsMachine_refused hfree]
    simp only [true_iff]
    omega

/-! ### One event -/

theorem heldAt_snoc_call (h : job < events.length) :
    heldAt (events ++ [(.tryAcquire key, o)]) job = heldAt events job := by
  rw [heldAt_snoc_of_lt h]
  rfl

theorem heldAt_snoc_drop (id : Uuid) (n job : Nat) :
    heldAt (events ++ [(.drop id n, none)]) job =
      if n = job then none else heldAt events job := by
  rcases Nat.lt_trichotomy job events.length with hlt | rfl | hgt
  · rw [heldAt_snoc_of_lt hlt]
    simp [LimiterCall.drops]
  · rw [heldAt_snoc_self, heldAt_of_length_le le_rfl]
    simp
  · rw [heldAt_of_length_le (by rw [List.length_append]; exact hgt),
      heldAt_of_length_le (by omega)]
    simp

theorem permitAt_append_of_lt {held : List (Option Permit)} (h : job < held.length) :
    permitAt (held ++ [o]) job = permitAt held job := by
  rw [permitAt, permitAt, List.getElem?_append_left h]

theorem permitAt_append_self {held : List (Option Permit)} :
    permitAt (held ++ [o]) held.length = o := by
  simp [permitAt]

theorem permitAt_of_length_le {held : List (Option Permit)} (h : held.length ≤ job) :
    permitAt held job = none := by
  simp [permitAt, List.getElem?_eq_none h]

theorem permitAt_set {held : List (Option Permit)} (n : Nat) :
    permitAt (held.set n none ++ [none]) job = if n = job then none else permitAt held job := by
  unfold permitAt
  rw [List.getElem?_append]
  simp only [List.length_set, List.getElem?_set]
  by_cases hlt : job < held.length
  · by_cases hn : n = job
    · simp [hlt, hn]
    · simp [hlt, hn]
  · have houtside : ([none] : List (Option Permit))[job - held.length]?.join = none := by
      cases job - held.length <;> rfl
    rw [if_neg hlt, houtside, List.getElem?_eq_none (Nat.le_of_not_lt hlt)]
    simp

theorem mem_holders_snoc_call {generation : Nat}
    (ho : ∀ p, o = some p → p.generation = generation) :
    job ∈ holders (events ++ [(.tryAcquire key, o)]) generation ↔
      job ∈ holders events generation ∨ (job = events.length ∧ o.isSome) := by
  rw [mem_holders, mem_holders]
  rcases Nat.lt_trichotomy job events.length with hlt | rfl | hgt
  · rw [heldAt_snoc_call hlt]
    simp [Nat.ne_of_lt hlt]
  · rw [heldAt_snoc_self, heldAt_of_length_le le_rfl]
    cases o with
    | none => simp
    | some p => simpa using ho p rfl
  · rw [heldAt_of_length_le (by rw [List.length_append]; exact hgt),
      heldAt_of_length_le (by omega)]
    simp [Nat.ne_of_gt hgt]

/-- A call: what it is granted is held by one job more. -/
theorem Accounts.snoc_call (h : Accounts events s)
    (ho : ∀ p, o = some p → p.generation = (currentOf s.budget (permitsOf key)).generation)
    (hbound : (inFlight events (permitsOf key)).card + (if o.isSome then 1 else 0) ≤
      permitsOf key) :
    Accounts (events ++ [(.tryAcquire key, o)])
      { budget := some { currentOf s.budget (permitsOf key) with
          inUse := (inFlight events (permitsOf key)).card + if o.isSome then 1 else 0 }
        held := s.held ++ [o] } where
  length_held := by simp [h.length_held]
  permitAt_held := by
    intro job
    rcases Nat.lt_trichotomy job events.length with hlt | rfl | hgt
    · rw [heldAt_snoc_call hlt, permitAt_append_of_lt (by rw [h.length_held]; exact hlt),
        h.permitAt_held]
    · rw [heldAt_snoc_self]
      exact h.length_held ▸ permitAt_append_self
    · rw [heldAt_of_length_le (by rw [List.length_append]; exact hgt),
        permitAt_of_length_le (by rw [List.length_append, h.length_held]; exact hgt)]
  granted := by
    intro job p hp
    rcases Nat.lt_trichotomy job events.length with hlt | rfl | hgt
    · rw [heldAt_snoc_call hlt] at hp
      obtain ⟨key', hcall⟩ := h.granted job p hp
      exact ⟨key', by rw [List.getElem?_append_left hlt, hcall]⟩
    · rw [heldAt_snoc_self] at hp
      exact ⟨key, by simpa using hp⟩
    · rw [heldAt_of_length_le (by rw [List.length_append]; exact hgt)] at hp
      cases hp
  unused := fun hb => by cases hb
  counted := by
    rintro _ ⟨⟩
    change _ = (holders _ (currentOf s.budget (permitsOf key)).generation).card
    cases o with
    | none =>
      have hsame : holders (events ++ [(.tryAcquire key, none)])
          (currentOf s.budget (permitsOf key)).generation = inFlight events (permitsOf key) := by
        rw [← h.holders_current]
        ext job
        rw [mem_holders_snoc_call ho]
        simp
      rw [hsame]
      rfl
    | some p =>
      have hinsert : holders (events ++ [(.tryAcquire key, some p)])
          (currentOf s.budget (permitsOf key)).generation =
            insert events.length (inFlight events (permitsOf key)) := by
        rw [← h.holders_current]
        ext job
        rw [mem_holders_snoc_call ho, Finset.mem_insert]
        simp [or_comm]
      have hnew : events.length ∉ inFlight events (permitsOf key) := by
        intro hmem
        obtain ⟨p, hp, -⟩ := mem_inFlight.mp hmem
        exact absurd (lt_of_heldAt hp) (Nat.lt_irrefl _)
      rw [hinsert, Finset.card_insert_of_notMem hnew]
      rfl
  bounded := by
    rintro _ ⟨⟩
    change _ ≤ (currentOf s.budget (permitsOf key)).permits
    rw [permits_currentOf]
    exact hbound
  newest := by
    rintro _ ⟨⟩ job p hp
    change p.generation ≤ (currentOf s.budget (permitsOf key)).generation ∧
      (p.generation = (currentOf s.budget (permitsOf key)).generation ↔
        currentAt _ (currentOf s.budget (permitsOf key)).permits job = true)
    rw [permits_currentOf]
    rcases Nat.lt_trichotomy job events.length with hlt | rfl | hgt
    · rw [heldAt_snoc_call hlt] at hp
      rw [currentAt_snoc hlt.le]
      simpa [LimiterCall.presents] using h.generation_current (permitsOf key) hp
    · rw [heldAt_snoc_self] at hp
      rw [currentAt_snoc le_rfl]
      simp [ho p hp, currentAt, LimiterCall.presents]
    · rw [heldAt_of_length_le (by rw [List.length_append]; exact hgt)] at hp
      cases hp
  presented := by
    rintro _ ⟨⟩ job key' o' permits hcall hcurrent
    change permits = (currentOf s.budget (permitsOf key)).permits
    have hjob : job ≤ events.length := by
      have hlt := (List.getElem?_eq_some_iff.mp hcall).1
      rw [List.length_append] at hlt
      exact Nat.le_of_lt_succ hlt
    rw [currentAt_snoc hjob, Bool.and_eq_true] at hcurrent
    rw [permits_currentOf]
    exact (by simpa [LimiterCall.presents] using hcurrent.2 : permitsOf key = permits).symm

theorem holders_snoc_drop (id : Uuid) (n generation : Nat) :
    holders (events ++ [(.drop id n, none)]) generation = (holders events generation).erase n := by
  ext job
  rw [Finset.mem_erase, mem_holders, mem_holders, heldAt_snoc_drop]
  by_cases hn : n = job
  · simp [hn]
  · simp [hn, Ne.symm hn]

theorem budget_of_drop {id : Uuid} {n : Nat} {b' : KeyBudget}
    (h : (slotsMachine s (.drop id n)).2.budget = some b') :
    ∃ b, s.budget = some b ∧ b'.permits = b.permits ∧ b'.generation = b.generation ∧
      b'.inUse = if (permitAt s.held n).any (·.generation == b.generation) then b.inUse - 1
        else b.inUse := by
  simp only [slotsMachine] at h
  cases hpermit : permitAt s.held n with
  | none =>
    rw [hpermit] at h
    exact ⟨b', h, rfl, rfl, rfl⟩
  | some p =>
    rw [hpermit] at h
    obtain ⟨b, hb, rfl⟩ := Option.map_eq_some_iff.mp h
    refine ⟨b, hb, ?_⟩
    unfold KeyBudget.returned
    by_cases hgeneration : b.generation = p.generation
    · simp [hgeneration]
    · simp [hgeneration, Ne.symm hgeneration]

/-- A dropped permit: its job holds nothing, and its semaphore counts it no
longer. -/
theorem Accounts.snoc_drop (h : Accounts events s) (id : Uuid) (n : Nat) :
    Accounts (events ++ [(.drop id n, none)]) (slotsMachine s (.drop id n)).2 where
  length_held := by simp [slotsMachine, h.length_held]
  permitAt_held := by
    intro job
    change permitAt (s.held.set n none ++ [none]) job = _
    rw [permitAt_set, heldAt_snoc_drop, h.permitAt_held]
  granted := by
    intro job p hp
    rw [heldAt_snoc_drop] at hp
    split at hp
    · cases hp
    · obtain ⟨key', hcall⟩ := h.granted job p hp
      exact ⟨key', by rw [List.getElem?_append_left (lt_of_heldAt hp), hcall]⟩
  unused := by
    intro hb job
    rw [heldAt_snoc_drop]
    split
    · rfl
    · refine h.unused ?_ job
      simp only [slotsMachine] at hb
      cases hpermit : permitAt s.held n with
      | none => simpa [hpermit] using hb
      | some p => simpa [hpermit] using hb
  counted := by
    intro b' hb'
    obtain ⟨b, hb, -, hgeneration, hinUse⟩ := budget_of_drop hb'
    rw [hgeneration, hinUse, h.counted b hb, holders_snoc_drop, h.permitAt_held]
    by_cases hheld : n ∈ holders events b.generation
    · rw [Finset.card_erase_of_mem hheld]
      obtain ⟨p, hp, hpg⟩ := mem_holders.mp hheld
      simp [hp, hpg]
    · rw [Finset.erase_eq_of_notMem hheld, if_neg]
      intro hany
      obtain ⟨p, hp, hpg⟩ := (Option.any_eq_true _ _).mp hany
      exact hheld (mem_holders.mpr ⟨p, hp, by simpa using hpg⟩)
  bounded := by
    intro b' hb'
    obtain ⟨b, hb, hpermits, -, hinUse⟩ := budget_of_drop hb'
    have hle := h.bounded b hb
    rw [hpermits, hinUse]
    split <;> omega
  newest := by
    intro b' hb' job p hp
    obtain ⟨b, hb, hpermits, hgeneration, -⟩ := budget_of_drop hb'
    rw [heldAt_snoc_drop] at hp
    split at hp
    · cases hp
    · rw [hpermits, hgeneration, currentAt_snoc (lt_of_heldAt hp).le]
      simpa [LimiterCall.presents] using h.newest b hb job p hp
  presented := by
    intro b' hb' job key' o' permits hcall hcurrent
    obtain ⟨b, hb, hpermits, -, -⟩ := budget_of_drop hb'
    have hjob : job < events.length := by
      have hlt := (List.getElem?_eq_some_iff.mp hcall).1
      rw [List.length_append] at hlt
      refine lt_of_le_of_ne (Nat.le_of_lt_succ hlt) ?_
      rintro rfl
      simp at hcall
    rw [currentAt_snoc hjob.le, Bool.and_eq_true] at hcurrent
    rw [List.getElem?_append_left hjob] at hcall
    rw [hpermits]
    exact h.presented b hb job key' o' permits hcall hcurrent.1

/-- One event of a key: its semaphore accounts for one event more. -/
theorem Accounts.step (h : Accounts events s) (call : LimiterCall) :
    Accounts (events ++ [(call, (slotsMachine s call).1)]) (slotsMachine s call).2 := by
  cases call with
  | drop id n => exact h.snoc_drop id n
  | tryAcquire key =>
    have hpositive : 0 < permitsOf key := by
      unfold permitsOf
      omega
    have hinUse := h.inUse_current (permitsOf key)
    have hpermits := permits_currentOf s.budget (permitsOf key)
    by_cases hfree : (currentOf s.budget (permitsOf key)).inUse <
        (currentOf s.budget (permitsOf key)).permits
    · rw [slotsMachine_granted hfree, hinUse]
      refine h.snoc_call (o := some _) ?_ ?_
      · rintro _ ⟨⟩
        rfl
      · simp only [Option.isSome_some, if_true]
        omega
    · have hnone : Accounts (events ++ [(.tryAcquire key, none)]) _ :=
        h.snoc_call (fun _ hp => by cases hp) (by simpa using h.inFlight_le (permitsOf key))
      rw [slotsMachine_refused hfree]
      simpa [← hinUse] using hnone

end Accounting

/-! ### Whole runs -/

section Runs

variable {w : World} {calls : List LimiterCall} {id : Uuid}
  {past rest : List (LimiterCall × Option Permit)}

/-- Wherever a key's events are cut, some state of its semaphore accounts for
those before. -/
theorem exists_accounts
    (h : eventsOf id (limiterMachine.transcript (.idle w) calls) = past ++ rest) :
    ∃ s, Accounts past s := by
  rw [eventsOf_transcript] at h
  obtain ⟨before, after, -, rfl⟩ := Machine.exists_of_transcript_eq_append h
  exact ⟨_, Machine.invariant_of_step (r := fun _ _ => True)
    (fun _ _ call hs _ => hs.step call) accounts_start (List.pairwise_of_forall fun _ _ => trivial)⟩

/-- What a job holds, it held at every moment since it was granted. -/
theorem heldAt_of_append {job : Nat} {p : Permit} (hjob : job < past.length)
    (h : heldAt (past ++ rest) job = some p) : heldAt past job = some p := by
  unfold heldAt at h ⊢
  rw [List.drop_append_of_le_length hjob, List.any_append, List.getElem?_append_left hjob] at h
  split at h
  · cases h
  · next hkept =>
    rw [Bool.or_eq_true, not_or] at hkept
    rw [if_neg hkept.1]
    exact h

/-- The jobs of a stretch that are still in flight were in flight at its end. -/
theorem inFlightOf_subset {earlier stretch later : List (LimiterCall × Option Permit)}
    {permits : Nat} (hstretch : ∀ e ∈ stretch, e.1.presents permits = true) :
    inFlightOf (earlier ++ stretch ++ later) earlier.length (earlier ++ stretch).length ⊆
      inFlight (earlier ++ stretch) permits := by
  intro job hjob
  obtain ⟨-, hheld, hfirst, hlast⟩ := Finset.mem_filter.mp hjob
  obtain ⟨p, hp⟩ := Option.isSome_iff_exists.mp hheld
  refine mem_inFlight.mpr ⟨p, heldAt_of_append hlast hp, ?_⟩
  unfold currentAt
  rw [List.drop_append, List.drop_of_length_le hfirst, List.nil_append, List.all_eq_true]
  intro e he
  exact hstretch e (List.mem_of_mem_drop he)

/-- Whatever calls and drops a run is made of: a call is refused if and only if
its budget's worth of jobs, started since the key's budget took that value, is
in flight; no stretch of a key's events under one budget ever has more of its
jobs in flight than that; and no key's events depend on another's. -/
theorem budget_accounting (w : World) (calls : List LimiterCall) :
    (∀ past rest key answer,
      limiterMachine.transcript (.idle w) calls = past ++ (.tryAcquire key, answer) :: rest →
        (answer = none ↔
          (inFlight (eventsOf key.id past) (permitsOf key)).card = permitsOf key)) ∧
    (∀ past rest id permits, limiterMachine.transcript (.idle w) calls = past ++ rest →
      (inFlight (eventsOf id past) permits).card ≤ permits) ∧
    (∀ id earlier stretch later permits,
      eventsOf id (limiterMachine.transcript (.idle w) calls) = earlier ++ stretch ++ later →
        (∀ e ∈ stretch, e.1.presents permits = true) →
          (inFlightOf (earlier ++ stretch ++ later) earlier.length
            (earlier ++ stretch).length).card ≤ permits) ∧
    ∀ id, eventsOf id (limiterMachine.transcript (.idle w) calls) =
      limiterMachine.transcript (.idle w) (calls.filter (·.ofKey id)) := by
  refine ⟨?_, ?_, ?_, ?_⟩
  · intro past rest key answer hrun
    have hkey : slotsMachine.transcript ⟨none, []⟩ (calls.filter (·.ofKey key.id)) =
        eventsOf key.id past ++ (.tryAcquire key, answer) :: eventsOf key.id rest := by
      rw [← eventsOf_transcript w, hrun, eventsOf, List.filter_append, List.filter_cons_of_pos]
      · rfl
      · simp [LimiterCall.ofKey, LimiterCall.keyId]
    obtain ⟨s, hs, rfl, -⟩ := Machine.invariant_at (r := fun _ _ => True)
      (fun _ _ call hs _ => hs.step call) accounts_start
      (List.pairwise_of_forall fun _ _ => trivial) hkey
    exact hs.refused_iff
  · intro past rest id permits hrun
    have hown : eventsOf id (limiterMachine.transcript (.idle w) calls) =
        eventsOf id past ++ eventsOf id rest := by
      rw [hrun, eventsOf, List.filter_append]
      rfl
    obtain ⟨s, hs⟩ := exists_accounts hown
    exact hs.inFlight_le permits
  · intro id earlier stretch later permits hrun hstretch
    obtain ⟨s, hs⟩ := exists_accounts hrun
    exact (Finset.card_le_card (inFlightOf_subset hstretch)).trans (hs.inFlight_le permits)
  · intro id
    have halone : eventsOf id (limiterMachine.transcript (.idle w) (calls.filter (·.ofKey id))) =
        limiterMachine.transcript (.idle w) (calls.filter (·.ofKey id)) := by
      refine List.filter_eq_self.mpr ?_
      intro e he
      have hinput : e.1 ∈ calls.filter (·.ofKey id) := by
        rw [← limiterMachine.transcript_inputs (.idle w) (calls.filter _)]
        exact List.mem_map_of_mem he
      exact (List.mem_filter.mp hinput).2
    rw [← halone, eventsOf_transcript, eventsOf_transcript, List.filter_filter]
    simp only [Bool.and_self]

end Runs

end HookExecutor
