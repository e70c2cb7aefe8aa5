import HookExecutor.Verification.IdealMemory

/-!
# How long the replay guard holds an entry

An expired entry is not honoured, but it takes up room until a sweep drops it.
Whichever schedule made the last sweep, the next one is due within a quarter of
the window, so no entry is held for longer than a window and a quarter.
-/

namespace HookExecutor

open ReplayGuard

namespace ReplayGuard

variable {g : ReplayGuard} {now : Instant}

@[simp] theorem pruneIfDue_pruneInterval : (g.pruneIfDue now).pruneInterval = g.pruneInterval := by
  simp only [pruneIfDue]
  split <;> rfl

/-- What is left of the table, and when it is swept next, once a sweep that was
due has been made. -/
theorem pruneIfDue_cases (g : ReplayGuard) (now : Instant) :
    (now < g.next ∧ (g.pruneIfDue now).next = g.next ∧ (g.pruneIfDue now).seen = g.seen) ∨
      ((g.pruneIfDue now).next = now + g.pruneInterval ∧
        (g.pruneIfDue now).seen = g.seen.filter fun entry => now < entry.2) := by
  simp only [pruneIfDue]
  split
  · rename_i hnotDue
    exact .inl ⟨not_le.mp hnotDue.1, rfl, rfl⟩
  · exact .inr ⟨rfl, rfl⟩

end ReplayGuard

/-- What a table holds was let through a window before it expires, and is swept
soon after it expires. -/
structure HoldsInTime (window : Int) (past : List (Presentation × Bool)) (g : ReplayGuard) :
    Prop where
  window_eq : g.window = window
  interval_eq : 4 * g.pruneInterval = window
  recorded : ∀ entry ∈ g.seen, ∃ t, ((entry.1, t), true) ∈ past ∧ entry.2 = t + window
  next_le_expiry : ∀ entry ∈ g.seen, g.next ≤ entry.2 + g.pruneInterval

/-- Besides, the next sweep is due soon after the last call. -/
structure SweptInTime (window : Int) (start : Instant) (past : List (Presentation × Bool))
    (g : ReplayGuard) : Prop extends HoldsInTime window past g where
  next_le_now : ∀ now, start ≤ now → (∀ e ∈ past, e.1.2 ≤ now) → g.next ≤ now + g.pruneInterval

variable {window : Int} {start now : Instant} {past : List (Presentation × Bool)}
  {g : ReplayGuard} {id : SignatureId}

theorem sweptInTime_new (windowSeconds : Int) (start : Instant) :
    SweptInTime (clampedWindow windowSeconds * nanosPerSecond) start []
      (new windowSeconds start) where
  window_eq := rfl
  interval_eq := by
    have hquarter (n : Int) : 4 * (n * 1000000000 / 4) = n * 1000000000 := by omega
    exact hquarter _
  recorded := by
    intro entry hentry
    cases hentry
  next_le_expiry := by
    intro entry hentry
    cases hentry
  next_le_now := by
    intro now hstart _
    exact Int.add_le_add_right hstart _

/-- After the sweep a call begins with, made or not, the next one lies ahead,
and not far. -/
theorem SweptInTime.pruneIfDue (h : SweptInTime window start past g) (hwindow : 0 < window)
    (hstart : start ≤ now) (hpast : ∀ e ∈ past, e.1.2 ≤ now) :
    HoldsInTime window past (g.pruneIfDue now) ∧ now < (g.pruneIfDue now).next ∧
      (g.pruneIfDue now).next ≤ now + (g.pruneIfDue now).pruneInterval := by
  have hinterval := h.interval_eq
  have hpos : 0 < g.pruneInterval := by omega
  rw [pruneIfDue_pruneInterval]
  obtain ⟨hlater, hnext, hseen⟩ | ⟨hnext, hseen⟩ := g.pruneIfDue_cases now
  · refine ⟨⟨?_, ?_, ?_, ?_⟩, ?_, ?_⟩
    · rw [pruneIfDue_window, h.window_eq]
    · rw [pruneIfDue_pruneInterval, hinterval]
    · rw [hseen]
      exact h.recorded
    · rw [hseen, hnext, pruneIfDue_pruneInterval]
      exact h.next_le_expiry
    · rw [hnext]
      exact hlater
    · rw [hnext]
      exact h.next_le_now now hstart hpast
  · refine ⟨⟨?_, ?_, ?_, ?_⟩, ?_, ?_⟩
    · rw [pruneIfDue_window, h.window_eq]
    · rw [pruneIfDue_pruneInterval, hinterval]
    · rw [hseen]
      intro entry hentry
      exact h.recorded entry (List.mem_filter.mp hentry).1
    · rw [hseen, hnext, pruneIfDue_pruneInterval]
      intro entry hentry
      have hlive : now < entry.2 := by simpa using (List.mem_filter.mp hentry).2
      exact Int.add_le_add_right (le_of_lt hlive) _
    · rw [hnext]
      exact Int.lt_add_of_pos_right now hpos
    · rw [hnext]

/-- A call that is refused leaves one more exchange, and nothing else, behind. -/
theorem HoldsInTime.refused (h : HoldsInTime window past g) :
    HoldsInTime window (past ++ [((id, now), false)]) g where
  window_eq := h.window_eq
  interval_eq := h.interval_eq
  recorded := by
    intro entry hentry
    obtain ⟨t, hmem, hexpiry⟩ := h.recorded entry hentry
    exact ⟨t, List.mem_append_left _ hmem, hexpiry⟩
  next_le_expiry := h.next_le_expiry

/-- A call that is let through leaves its entry behind, which expires a window
from now. -/
theorem HoldsInTime.record (h : HoldsInTime window past g) (hwindow : 0 < window)
    (hnext : g.next ≤ now + g.pruneInterval) :
    HoldsInTime window (past ++ [((id, now), true)]) (g.record id now) where
  window_eq := h.window_eq
  interval_eq := h.interval_eq
  recorded := by
    intro entry hentry
    obtain rfl | hold := List.mem_cons.mp hentry
    · exact ⟨now, List.mem_append_right _ (List.mem_singleton_self _), by rw [h.window_eq]⟩
    · obtain ⟨t, hmem, hexpiry⟩ := h.recorded entry (List.mem_filter.mp hold).1
      exact ⟨t, List.mem_append_left _ hmem, hexpiry⟩
  next_le_expiry := by
    intro entry hentry
    obtain rfl | hold := List.mem_cons.mp hentry
    · have hexpiry : now ≤ now + g.window := by
        rw [h.window_eq]
        exact Int.le_add_of_nonneg_right (le_of_lt hwindow)
      exact hnext.trans (Int.add_le_add_right hexpiry _)
    · exact h.next_le_expiry entry (List.mem_filter.mp hold).1

/-- One call: the guard is still swept in time, and the next sweep lies ahead. -/
theorem SweptInTime.step (id : SignatureId) (h : SweptInTime window start past g)
    (hwindow : 0 < window) (hstart : start ≤ now) (hpast : ∀ e ∈ past, e.1.2 ≤ now) :
    SweptInTime window start (past ++ [((id, now), (replayMachine g (id, now)).1)])
        (replayMachine g (id, now)).2 ∧
      now < (replayMachine g (id, now)).2.next := by
  obtain ⟨hholds, hahead, hsoon⟩ := h.pruneIfDue hwindow hstart hpast
  have hlater : ∀ {o : Bool} (later : Instant), (∀ e ∈ past ++ [((id, now), o)], e.1.2 ≤ later) →
      (g.pruneIfDue now).next ≤ later + (g.pruneIfDue now).pruneInterval := by
    intro o later hle
    exact hsoon.trans (Int.add_le_add_right (past_le_of_le hle).2 _)
  obtain ⟨-, heq⟩ | ⟨-, heq⟩ := checkAndRecord_eq g id now
  · simp only [replayMachine, heq]
    exact ⟨⟨hholds.refused, fun later _ hle => hlater later hle⟩, hahead⟩
  · simp only [replayMachine, heq]
    exact ⟨⟨hholds.record hwindow hsoon, fun later _ hle => hlater later hle⟩, hahead⟩

theorem clampedWindow_pos (windowSeconds : Int) :
    0 < clampedWindow windowSeconds * nanosPerSecond := by
  have hclamped : 1 ≤ clampedWindow windowSeconds := Int.le_max_left _ _
  unfold nanosPerSecond
  omega

theorem quarter_window_bound {now next expiry t interval window : Int} (hahead : now < next)
    (hnext : next ≤ expiry + interval) (hexpiry : expiry = t + window)
    (hinterval : 4 * interval = window) : 4 * (now - t) < 5 * window := by
  omega

/-- For every run of calls in the order of the clock: right after a call, every
entry of the table is of a signature let through less than a window and a
quarter ago. -/
theorem replay_memory_bounded (windowSeconds : Int) (start : Instant)
    (calls : List Presentation) (id : SignatureId) (now : Instant)
    (hstart : ∀ call ∈ calls ++ [(id, now)], start ≤ call.2)
    (hclock : (calls ++ [(id, now)]).Pairwise fun a b => a.2 ≤ b.2) :
    ∀ entry ∈ (replayMachine.after (new windowSeconds start) (calls ++ [(id, now)])).seen,
      ∃ t, ((entry.1, t), true) ∈
          replayMachine.transcript (new windowSeconds start) (calls ++ [(id, now)]) ∧
        entry.2 = t + clampedWindow windowSeconds * nanosPerSecond ∧
        4 * (now - t) < 5 * (clampedWindow windowSeconds * nanosPerSecond) := by
  have hwindow := clampedWindow_pos windowSeconds
  have hlast : (id, now) ∈ calls ++ [(id, now)] :=
    List.mem_append_right _ (List.mem_singleton_self _)
  obtain ⟨hbefore, -, hcross⟩ := List.pairwise_append.mp hclock
  have hswept := Machine.invariant_of_inputs (p := fun call : Presentation => start ≤ call.2)
    (I := SweptInTime (clampedWindow windowSeconds * nanosPerSecond) start)
    (fun _ _ call h hcall hle => (h.step call.1 hwindow hcall hle).1)
    (sweptInTime_new windowSeconds start)
    (fun call hcall => hstart call (List.mem_append_left _ hcall)) hbefore
  obtain ⟨hnow, hahead⟩ := hswept.step id hwindow (hstart _ hlast) (by
    intro e he
    have hinput : e.1 ∈ calls := by
      rw [← replayMachine.transcript_inputs (new windowSeconds start) calls]
      exact List.mem_map_of_mem he
    exact hcross e.1 hinput (id, now) (List.mem_singleton_self _))
  rw [Machine.after_append, Machine.transcript_append]
  intro entry hentry
  obtain ⟨t, hmem, hexpiry⟩ := hnow.recorded entry hentry
  exact ⟨t, hmem, hexpiry,
    quarter_window_bound hahead (hnow.next_le_expiry entry hentry) hexpiry hnow.interval_eq⟩

/-- Two signatures, the second one presented after the first has expired: the
second one is what is left in the table. -/
theorem replay_memory_bounded_expired :
    (replayMachine.after (new 300 0)
        ([(⟨0, [1]⟩, 0)] ++ [(⟨0, [2]⟩, 400 * nanosPerSecond)])).seen =
      [(⟨0, [2]⟩, 700 * nanosPerSecond)] ∧
    ∃ t, ((⟨0, [2]⟩, t), true) ∈ replayMachine.transcript (new 300 0)
          ([(⟨0, [1]⟩, 0)] ++ [(⟨0, [2]⟩, 400 * nanosPerSecond)]) ∧
        700 * nanosPerSecond = t + clampedWindow 300 * nanosPerSecond ∧
        4 * (400 * nanosPerSecond - t) < 5 * (clampedWindow 300 * nanosPerSecond) := by
  have hseen : (replayMachine.after (new 300 0)
      ([(⟨0, [1]⟩, 0)] ++ [(⟨0, [2]⟩, 400 * nanosPerSecond)])).seen =
      [(⟨0, [2]⟩, 700 * nanosPerSecond)] := by
    decide
  refine ⟨hseen, ?_⟩
  exact replay_memory_bounded 300 0 [(⟨0, [1]⟩, 0)] ⟨0, [2]⟩ (400 * nanosPerSecond)
    (by simp [nanosPerSecond]) (by simp [nanosPerSecond]) (⟨0, [2]⟩, 700 * nanosPerSecond)
    (hseen ▸ List.mem_singleton_self _)

end HookExecutor
