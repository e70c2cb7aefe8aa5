import HookExecutor.Lib.Transcript
import HookExecutor.Verification.ReplayMemory

/-!
# The replay guard as an ideal memory

An ideal memory forgets nothing and answers by looking back one window. The
guard's table stands for it: at any instant no earlier than the last call, it
holds a live entry of exactly the signatures accepted less than a window ago.
Sweeps of either schedule keep that relation, so they change no answer.
-/

namespace HookExecutor

/-- One call of the guard: what is presented, and when. -/
abbrev Presentation := SignatureId × Instant

/-- The guard as a machine that is presented one signature after the other. -/
def replayMachine : Machine ReplayGuard Presentation Bool := fun g call =>
  g.checkAndRecord call.1.keyId call.1.digest call.2

namespace ReplayGuard

variable {g : ReplayGuard} {id id' : SignatureId} {now at_ : Instant}

/-- A sweep changes nothing about what is remembered from its instant on. -/
theorem remembers_pruneIfDue_iff (h : g.Distinct) (hnow : now ≤ at_) :
    (g.pruneIfDue now).Remembers id at_ ↔ g.Remembers id at_ := by
  constructor
  · rintro ⟨expiry, hfound, hlive⟩
    exact ⟨expiry, h.lookup_of_pruneIfDue hfound, hlive⟩
  · intro hremembers
    exact hremembers.pruneIfDue hnow

theorem remembers_record_self : (g.record id now).Remembers id at_ ↔ at_ < now + g.window := by
  constructor
  · rintro ⟨expiry, hfound, hlive⟩
    rw [lookup_record_self] at hfound
    obtain rfl := Option.some.inj hfound
    exact hlive
  · intro hlive
    exact ⟨_, lookup_record_self, hlive⟩

theorem remembers_record_of_ne (h : id' ≠ id) :
    (g.record id now).Remembers id' at_ ↔ g.Remembers id' at_ := by
  unfold Remembers
  rw [lookup_record_of_ne h]

/-- What a call answers and leaves behind, told by what is remembered. -/
theorem checkAndRecord_of_distinct (h : g.Distinct) (id : SignatureId) (now : Instant) :
    (g.Remembers id now ∧
        g.checkAndRecord id.keyId id.digest now = (false, g.pruneIfDue now)) ∨
      (¬g.Remembers id now ∧
        g.checkAndRecord id.keyId id.digest now = (true, (g.pruneIfDue now).record id now)) := by
  have hswept := checkAndRecord_eq g id now
  rwa [remembers_pruneIfDue_iff h le_rfl] at hswept

end ReplayGuard

open ReplayGuard

/-- The ideal answer to the question whether a signature was used: some call
for it was let through less than a window ago. -/
def AcceptedWithin (window : Int) (past : List (Presentation × Bool)) (id : SignatureId)
    (now : Instant) : Prop :=
  ∃ t, ((id, t), true) ∈ past ∧ now < t + window

/-- A guard whose table stands for the calls made of it. -/
structure StandsFor (window : Int) (past : List (Presentation × Bool)) (g : ReplayGuard) :
    Prop where
  window_eq : g.window = window
  distinct : g.Distinct
  /-- From the last call on, what is remembered is what an ideal memory holds. -/
  remembers_iff : ∀ id now, (∀ e ∈ past, e.1.2 ≤ now) →
    (g.Remembers id now ↔ AcceptedWithin window past id now)

variable {window : Int} {past : List (Presentation × Bool)} {g : ReplayGuard}
  {id id' : SignatureId} {now at_ : Instant}

theorem acceptedWithin_refused :
    AcceptedWithin window (past ++ [((id, now), false)]) id' at_ ↔
      AcceptedWithin window past id' at_ := by
  simp [AcceptedWithin]

theorem acceptedWithin_accepted_of_ne (h : id' ≠ id) :
    AcceptedWithin window (past ++ [((id, now), true)]) id' at_ ↔
      AcceptedWithin window past id' at_ := by
  simp [AcceptedWithin, h]

/-- The last acceptance outlives those before it. -/
theorem acceptedWithin_accepted_self (hpast : ∀ e ∈ past, e.1.2 ≤ now) :
    AcceptedWithin window (past ++ [((id, now), true)]) id at_ ↔ at_ < now + window := by
  constructor
  · rintro ⟨t, hmem, hlive⟩
    rcases List.mem_append.mp hmem with hearlier | hlast
    · have horder : t ≤ now := hpast _ hearlier
      exact lt_of_lt_of_le hlive (Int.add_le_add_right horder window)
    · obtain ⟨⟨-, rfl⟩, -⟩ := by simpa using hlast
      exact hlive
  · intro hlive
    exact ⟨now, List.mem_append_right _ (List.mem_singleton_self _), hlive⟩

theorem standsFor_new (windowSeconds : Int) (start : Instant) :
    StandsFor (clampedWindow windowSeconds * nanosPerSecond) [] (new windowSeconds start) where
  window_eq := rfl
  distinct := distinct_new windowSeconds start
  remembers_iff := by
    intro id now _
    constructor
    · rintro ⟨expiry, hfound, -⟩
      cases hfound
    · rintro ⟨t, hmem, -⟩
      cases hmem

theorem past_le_of_le {o : Bool}
    (h : ∀ e ∈ past ++ [((id, now), o)], e.1.2 ≤ at_) : (∀ e ∈ past, e.1.2 ≤ at_) ∧ now ≤ at_ := by
  constructor
  · intro e he
    exact h e (List.mem_append_left _ he)
  · exact h _ (List.mem_append_right _ (List.mem_singleton_self _))

/-- One call: the answer is the ideal one, and the table stands for one call
more. -/
theorem StandsFor.step (h : StandsFor window past g) (hpast : ∀ e ∈ past, e.1.2 ≤ now) :
    StandsFor window (past ++ [((id, now), (replayMachine g (id, now)).1)])
      (replayMachine g (id, now)).2 := by
  rcases checkAndRecord_of_distinct h.distinct id now with ⟨-, heq⟩ | ⟨-, heq⟩
  · simp only [replayMachine, heq]
    refine ⟨by rw [pruneIfDue_window, h.window_eq], h.distinct.pruneIfDue now, ?_⟩
    intro id' at_ hat
    obtain ⟨hearlier, hnow⟩ := past_le_of_le hat
    rw [remembers_pruneIfDue_iff h.distinct hnow, h.remembers_iff id' at_ hearlier,
      acceptedWithin_refused]
  · simp only [replayMachine, heq]
    refine ⟨by rw [record_window, pruneIfDue_window, h.window_eq],
      (h.distinct.pruneIfDue now).record id now, ?_⟩
    intro id' at_ hat
    obtain ⟨hearlier, hnow⟩ := past_le_of_le hat
    by_cases hid : id' = id
    · subst hid
      rw [remembers_record_self, pruneIfDue_window, h.window_eq,
        acceptedWithin_accepted_self hpast]
    · rw [remembers_record_of_ne hid, remembers_pruneIfDue_iff h.distinct hnow,
        h.remembers_iff id' at_ hearlier, acceptedWithin_accepted_of_ne hid]

/-- A guard that stands for its past gives the ideal answer. -/
theorem StandsFor.answer (h : StandsFor window past g) (hpast : ∀ e ∈ past, e.1.2 ≤ now) :
    (replayMachine g (id, now)).1 = true ↔ ¬AcceptedWithin window past id now := by
  rw [← h.remembers_iff id now hpast]
  rcases checkAndRecord_of_distinct h.distinct id now with ⟨hold, heq⟩ | ⟨hfresh, heq⟩
  · simp [replayMachine, heq, hold]
  · simp [replayMachine, heq, hfresh]

/-- For every run of calls in the order of the clock: a call is let through if
and only if no call for the same key and digest was let through before it and
less than one window ago. -/
theorem ideal_memory (windowSeconds : Int) (start : Instant) (calls : List Presentation)
    (hclock : calls.Pairwise fun a b => a.2 ≤ b.2)
    (past rest : List (Presentation × Bool)) (id : SignatureId) (now : Instant) (answer : Bool)
    (hrun : replayMachine.transcript (new windowSeconds start) calls =
      past ++ ((id, now), answer) :: rest) :
    answer = true ↔
      ¬∃ t, ((id, t), true) ∈ past ∧ now < t + clampedWindow windowSeconds * nanosPerSecond := by
  obtain ⟨g, hg, rfl, hpast⟩ := Machine.invariant_at
    (I := StandsFor (clampedWindow windowSeconds * nanosPerSecond))
    (fun _ _ _ h hle => h.step hle) (standsFor_new windowSeconds start) hclock hrun
  exact hg.answer hpast

/-- A signature presented again ten seconds later, to a guard of five minutes. -/
theorem ideal_memory_repeated :
    false = true ↔ ¬∃ t, (((⟨0, [1]⟩ : SignatureId), t), true) ∈ [((⟨0, [1]⟩, (0 : Int)), true)] ∧
      10 * nanosPerSecond < t + clampedWindow 300 * nanosPerSecond :=
  ideal_memory 300 0 [(⟨0, [1]⟩, 0), (⟨0, [1]⟩, 10 * nanosPerSecond)]
    (by simp [nanosPerSecond]) _ [] _ _ false (by decide)

end HookExecutor
