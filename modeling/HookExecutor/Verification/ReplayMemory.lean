import HookExecutor.Replay
import Mathlib.Data.List.Nodup

/-!
# What the replay guard remembers

An entry counts as long as it has not expired. A live entry survives every
sweep and every record of another signature, so once a signature is recorded it
is refused until its entry expires, whenever sweeps happen to run.
-/

namespace HookExecutor.ReplayGuard

variable {g : ReplayGuard} {id id' : SignatureId} {now at_ expiry : Instant}

/-- An unexpired entry. -/
def Remembers (g : ReplayGuard) (id : SignatureId) (now : Instant) : Prop :=
  ∃ expiry, g.lookup id = some expiry ∧ now < expiry

@[simp] theorem record_window : (g.record id now).window = g.window := rfl

@[simp] theorem pruneIfDue_window : (g.pruneIfDue now).window = g.window := by
  simp only [pruneIfDue]
  split <;> rfl

theorem lookup_record_self : (g.record id now).lookup id = some (now + g.window) := by
  simp [record, lookup]

theorem lookup_record_of_ne (h : id' ≠ id) : (g.record id now).lookup id' = g.lookup id' := by
  simp only [record, lookup]
  rw [List.find?_cons_of_neg (by simpa using h.symm), List.find?_filter]
  congr 2
  funext entry
  by_cases hentry : entry.1 = id'
  · simp [hentry, h]
  · simp [hentry]

/-- A sweep keeps what has not expired. -/
theorem lookup_pruneIfDue (hfound : g.lookup id = some expiry) (hlive : now < expiry) :
    (g.pruneIfDue now).lookup id = some expiry := by
  simp only [pruneIfDue]
  split
  · exact hfound
  · simp only [lookup, Option.map_eq_some_iff] at hfound ⊢
    obtain ⟨entry, hentry, rfl⟩ := hfound
    refine ⟨entry, ?_, rfl⟩
    rw [List.find?_filter]
    obtain ⟨hid, before, after, hsplit, hbefore⟩ := List.find?_eq_some_iff_append.mp hentry
    refine List.find?_eq_some_iff_append.mpr ⟨by simp [hlive, hid], before, after, hsplit, ?_⟩
    intro e he
    have hother : e.1 ≠ id := by simpa using hbefore e he
    simp [hother]

theorem Remembers.pruneIfDue (h : g.Remembers id at_) (hnow : now ≤ at_) :
    (g.pruneIfDue now).Remembers id at_ := by
  obtain ⟨expiry, hfound, hlive⟩ := h
  exact ⟨expiry, lookup_pruneIfDue hfound (lt_of_le_of_lt hnow hlive), hlive⟩

/-- A signature is let through exactly if the swept guard holds no live entry
of it. -/
theorem checkAndRecord_eq (g : ReplayGuard) (id : SignatureId) (now : Instant) :
    ((g.pruneIfDue now).Remembers id now ∧
        g.checkAndRecord id.keyId id.digest now = (false, g.pruneIfDue now)) ∨
      (¬(g.pruneIfDue now).Remembers id now ∧
        g.checkAndRecord id.keyId id.digest now = (true, (g.pruneIfDue now).record id now)) := by
  obtain ⟨keyId, digest⟩ := id
  unfold checkAndRecord Remembers
  dsimp only
  cases hfound : (g.pruneIfDue now).lookup ⟨keyId, digest⟩ with
  | none => simp
  | some expiry =>
    by_cases hlive : now < expiry
    · simp [hlive]
    · simp [hlive]

@[simp] theorem checkAndRecord_window (g : ReplayGuard) (id : SignatureId) (now : Instant) :
    (g.checkAndRecord id.keyId id.digest now).2.window = g.window := by
  rcases checkAndRecord_eq g id now with ⟨-, heq⟩ | ⟨-, heq⟩
  · rw [heq, pruneIfDue_window]
  · rw [heq, record_window, pruneIfDue_window]

/-- What was let through was not remembered, and is from then on. -/
theorem checkAndRecord_accepted (id : SignatureId) {g' : ReplayGuard}
    (h : g.checkAndRecord id.keyId id.digest now = (true, g')) :
    ¬g.Remembers id now ∧ g' = (g.pruneIfDue now).record id now := by
  rcases checkAndRecord_eq g id now with ⟨-, heq⟩ | ⟨hfresh, heq⟩
  · rw [heq] at h
    simp at h
  · rw [heq] at h
    obtain ⟨-, rfl⟩ := Prod.mk.inj h
    exact ⟨fun hlive => hfresh (hlive.pruneIfDue le_rfl), rfl⟩

/-- Whatever else is presented in the meantime, a live entry lives on. -/
theorem Remembers.checkAndRecord (id' : SignatureId) (h : g.Remembers id at_) (hnow : now ≤ at_) :
    (g.checkAndRecord id'.keyId id'.digest now).2.Remembers id at_ := by
  have hswept := h.pruneIfDue hnow
  rcases checkAndRecord_eq g id' now with ⟨-, heq⟩ | ⟨hfresh, heq⟩
  · rw [heq]
    exact hswept
  · rw [heq]
    by_cases hid : id = id'
    · subst hid
      obtain ⟨expiry, hfound, hlive⟩ := hswept
      exact absurd ⟨expiry, hfound, lt_of_le_of_lt hnow hlive⟩ hfresh
    · obtain ⟨expiry, hfound, hlive⟩ := hswept
      exact ⟨expiry, by rw [lookup_record_of_ne hid]; exact hfound, hlive⟩

/-- Each signature has one entry at most. -/
def Distinct (g : ReplayGuard) : Prop := (g.seen.map (·.1)).Nodup

theorem distinct_new (windowSeconds : Int) (now : Instant) : (new windowSeconds now).Distinct :=
  List.nodup_nil

theorem Distinct.pruneIfDue (h : g.Distinct) (now : Instant) : (g.pruneIfDue now).Distinct := by
  unfold Distinct ReplayGuard.pruneIfDue
  dsimp only
  split
  · exact h
  · exact h.sublist (List.filter_sublist.map _)

theorem Distinct.record (h : g.Distinct) (id : SignatureId) (now : Instant) :
    (g.record id now).Distinct := by
  refine List.nodup_cons.mpr ⟨?_, h.sublist (List.filter_sublist.map _)⟩
  intro hmem
  obtain ⟨entry, hentry, hid⟩ := List.mem_map.mp hmem
  have hother := (List.mem_filter.mp hentry).2
  simp [hid] at hother

theorem Distinct.checkAndRecord (h : g.Distinct) (id : SignatureId) (now : Instant) :
    (g.checkAndRecord id.keyId id.digest now).2.Distinct := by
  rcases checkAndRecord_eq g id now with ⟨-, heq⟩ | ⟨-, heq⟩
  · rw [heq]
    exact h.pruneIfDue now
  · rw [heq]
    exact (h.pruneIfDue now).record id now

/-- With one entry a signature, a sweep reveals none. -/
theorem Distinct.lookup_of_pruneIfDue (h : g.Distinct)
    (hfound : (g.pruneIfDue now).lookup id = some expiry) : g.lookup id = some expiry := by
  simp only [ReplayGuard.pruneIfDue] at hfound
  split at hfound
  · exact hfound
  · obtain ⟨entry, hentry, rfl⟩ := Option.map_eq_some_iff.mp hfound
    have hmem := (List.mem_filter.mp (List.mem_of_find?_eq_some hentry)).1
    have hid : entry.1 = id := by simpa using List.find?_some hentry
    refine Option.map_eq_some_iff.mpr ?_
    cases hfirst : g.seen.find? (fun e => e.1 == id) with
    | none => exact absurd (by simp [hid]) (List.find?_eq_none.mp hfirst entry hmem)
    | some first =>
      have hfirstId : first.1 = id := by simpa using List.find?_some hfirst
      obtain rfl := List.inj_on_of_nodup_map h (List.mem_of_find?_eq_some hfirst) hmem
        (hfirstId.trans hid.symm)
      exact ⟨first, rfl, rfl⟩

/-- A guard that remembers less lets through what one that remembers more does. -/
theorem checkAndRecord_fst_of_remembers (id : SignatureId) {g' : ReplayGuard} (h : g.Distinct)
    (hmore : g.Remembers id now → g'.Remembers id now)
    (hfirst : (g'.checkAndRecord id.keyId id.digest now).1 = true) :
    (g.checkAndRecord id.keyId id.digest now).1 = true := by
  rcases checkAndRecord_eq g id now with ⟨⟨expiry, hfound, hlive⟩, -⟩ | ⟨-, heq⟩
  · have hremembered := (hmore ⟨expiry, h.lookup_of_pruneIfDue hfound, hlive⟩).pruneIfDue le_rfl
    rcases checkAndRecord_eq g' id now with ⟨-, heq⟩ | ⟨hfresh, -⟩
    · rw [heq] at hfirst
      cases hfirst
    · exact absurd hremembered hfresh
  · rw [heq]

end HookExecutor.ReplayGuard
