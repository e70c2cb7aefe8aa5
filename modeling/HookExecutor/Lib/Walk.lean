import Mathlib.Data.List.Dedup
import Mathlib.Logic.Relation
import HookExecutor.Lib.Program

/-!
# Walking a graph level by level

A walk starts at a root, asks for the children of a whole frontier at once and
goes on with those it has not met. The question may be put to anything that
answers in a monad. When every answer is the children under one relation, the
walk returns each vertex below the root exactly once; a bound on how many
vertices there can be bounds the levels, so cycles do no harm.
-/

universe u

namespace Walk

variable {α : Type} [DecidableEq α]

/-- The members of an answer that are met for the first time. -/
def fresh (root : α) (seen found : List α) : List α :=
  (found.filter fun x => x != root && !seen.contains x).dedup

@[simp] theorem mem_fresh {root x : α} {seen found : List α} :
    x ∈ fresh root seen found ↔ x ∈ found ∧ x ≠ root ∧ x ∉ seen := by
  simp [fresh]

theorem nodup_fresh (root : α) (seen found : List α) : (fresh root seen found).Nodup :=
  List.nodup_dedup _

/-- Everything below the root, one level after the other, for at most `fuel`
levels. -/
def levels {m : Type → Type u} [Monad m] (children : List α → m (List α)) (root : α) :
    (fuel : Nat) → (seen frontier : List α) → m (List α)
  | 0, seen, _ => pure seen
  | fuel + 1, seen, frontier =>
    if frontier.isEmpty then pure seen
    else do
      let found ← children frontier
      levels children root fuel (seen ++ fresh root seen found) (fresh root seen found)

/-- The walk of plain answers, one level at a time. -/
theorem levels_succ {children : List α → List α} {root : α} {fuel : Nat} {seen frontier : List α}
    (h : frontier ≠ []) :
    levels (m := Id) children root (fuel + 1) seen frontier =
      levels (m := Id) children root fuel (seen ++ fresh root seen (children frontier))
        (fresh root seen (children frontier)) := by
  simp only [levels, List.isEmpty_iff, h, if_false]
  rfl

/-! ### The walk of a relation -/

variable (child : α → α → Prop) (root : α)

/-- What holds between two levels: the vertices met are below the root, and
only the children of the frontier are still to be asked for. -/
structure LevelInvariant (seen frontier : List α) : Prop where
  nodup : seen.Nodup
  notRoot : root ∉ seen
  below : ∀ x ∈ seen, Relation.TransGen child root x
  frontier_met : ∀ x ∈ frontier, x = root ∨ x ∈ seen
  closed : ∀ p, p = root ∨ p ∈ seen → p ∉ frontier → ∀ x, child p x → x = root ∨ x ∈ seen

omit [DecidableEq α] in
theorem levelInvariant_start : LevelInvariant child root [] [root] where
  nodup := List.nodup_nil
  notRoot := by simp
  below := by simp
  frontier_met := by simp
  closed := by
    intro p hp hfrontier
    simp_all

variable {child root}

/-- One level: the children of the frontier join what has been met. -/
theorem LevelInvariant.next {seen frontier found : List α}
    (h : LevelInvariant child root seen frontier)
    (hfound : ∀ x, x ∈ found ↔ ∃ p ∈ frontier, child p x) :
    LevelInvariant child root (seen ++ fresh root seen found) (fresh root seen found) where
  nodup := by
    refine h.nodup.append (nodup_fresh _ _ _) ?_
    intro x hx hfresh
    exact (mem_fresh.mp hfresh).2.2 hx
  notRoot := by
    intro hroot
    rcases List.mem_append.mp hroot with hseen | hfresh
    · exact h.notRoot hseen
    · exact (mem_fresh.mp hfresh).2.1 rfl
  below := by
    intro x hx
    rcases List.mem_append.mp hx with hseen | hfresh
    · exact h.below x hseen
    · obtain ⟨p, hp, hchild⟩ := (hfound x).mp (mem_fresh.mp hfresh).1
      rcases h.frontier_met p hp with rfl | hseen
      · exact .single hchild
      · exact .tail (h.below p hseen) hchild
  frontier_met := fun x hx => .inr (List.mem_append_right _ hx)
  closed := by
    intro p hp hnew x hchild
    have hmet : p = root ∨ p ∈ seen := by
      rcases hp with rfl | hp
      · exact .inl rfl
      · exact .inr ((List.mem_append.mp hp).resolve_right hnew)
    by_cases hfrontier : p ∈ frontier
    · by_cases hroot : x = root
      · exact .inl hroot
      by_cases hseen : x ∈ seen
      · exact .inr (List.mem_append_left _ hseen)
      have hx : x ∈ found := (hfound x).mpr ⟨p, hfrontier, hchild⟩
      exact .inr (List.mem_append_right _ (mem_fresh.mpr ⟨hx, hroot, hseen⟩))
    · exact (h.closed p hmet hfrontier x hchild).imp_right (List.mem_append_left _)

omit [DecidableEq α] in
/-- With no frontier left, what has been met is everything below the root. -/
theorem LevelInvariant.mem_iff {seen : List α} (h : LevelInvariant child root seen []) (x : α) :
    x ∈ seen ↔ x ≠ root ∧ Relation.TransGen child root x := by
  constructor
  · intro hx
    exact ⟨fun hroot => h.notRoot (hroot ▸ hx), h.below x hx⟩
  · rintro ⟨hroot, hbelow⟩
    have hmet : x = root ∨ x ∈ seen := by
      clear hroot
      induction hbelow with
      | single hchild => exact h.closed root (.inl rfl) (by simp) _ hchild
      | tail _ hchild ih => exact h.closed _ ih (by simp) _ hchild
    exact hmet.resolve_left hroot

/-- A level that meets something new leaves one level fewer to bound. -/
theorem enough_next {bound fuel : Nat} {seen frontier found : List α} (hfrontier : frontier ≠ [])
    (hfuel : frontier = [] ∨ bound < seen.length + (fuel + 1)) :
    fresh root seen found = [] ∨ bound < (seen ++ fresh root seen found).length + fuel := by
  by_cases hnew : fresh root seen found = []
  · exact .inl hnew
  · have hpos := List.length_pos_of_ne_nil hnew
    have hlt := hfuel.resolve_left hfrontier
    rw [List.length_append]
    exact .inr (by omega)

/-- Enough fuel for every level: the walk ends with nothing left to ask. -/
theorem levels_spec {children : List α → List α}
    (hchildren : ∀ frontier x, x ∈ children frontier ↔ ∃ p ∈ frontier, child p x)
    {bound : Nat} (hbound : ∀ l : List α, l.Nodup → l.length ≤ bound)
    (fuel : Nat) {seen frontier : List α} (h : LevelInvariant child root seen frontier)
    (hfuel : frontier = [] ∨ bound < seen.length + fuel) :
    LevelInvariant child root (levels (m := Id) children root fuel seen frontier) [] := by
  induction fuel generalizing seen frontier with
  | zero =>
    have hlen := hbound seen h.nodup
    have hempty : frontier = [] := hfuel.resolve_right (by omega)
    subst hempty
    exact h
  | succ fuel ih =>
    by_cases hempty : frontier = []
    · subst hempty
      exact h
    · rw [levels_succ hempty]
      exact ih (h.next (hchildren frontier)) (enough_next hempty hfuel)

/-- A walk whose questions are answered without touching the state is the walk
of those answers. -/
theorem run_levels {Q : Type → Type u} {ε σ : Type} {I : Interpretation Q σ} {s : σ}
    {ask : List α → Program Q ε (List α)} {children : List α → List α}
    (hask : ∀ frontier, (ask frontier).run I s = (.ok (children frontier), s))
    (root : α) (fuel : Nat) (seen frontier : List α) :
    (levels ask root fuel seen frontier).run I s =
      (.ok (levels (m := Id) children root fuel seen frontier), s) := by
  induction fuel generalizing seen frontier with
  | zero => rfl
  | succ fuel ih =>
    by_cases hempty : frontier = []
    · subst hempty
      rfl
    · rw [levels_succ hempty, ← ih]
      simp only [levels, List.isEmpty_iff, hempty, if_false]
      exact Program.run_bind_ok (hask frontier)

/-! ### The walk without a bound -/

/-- What the walk comes to when nothing bounds its levels: it ends at a level
with nothing to ask, or with the failure of a question. -/
inductive Loop {Q : Type → Type u} {ε σ : Type} (I : Interpretation Q σ)
    (ask : List α → Program Q ε (List α)) (root : α) :
    List α → List α → σ → Except ε (List α) × σ → Prop
  | done {seen : List α} {s : σ} : Loop I ask root seen [] s (.ok seen, s)
  | level {seen frontier found : List α} {s s' : σ} {r : Except ε (List α) × σ}
      (hfrontier : frontier ≠ []) (hask : (ask frontier).run I s = (.ok found, s'))
      (hrest : Loop I ask root (seen ++ fresh root seen found) (fresh root seen found) s' r) :
      Loop I ask root seen frontier s r
  | failed {seen frontier : List α} {s s' : σ} {e : ε} (hfrontier : frontier ≠ [])
      (hask : (ask frontier).run I s = (.error e, s')) :
      Loop I ask root seen frontier s (.error e, s')

/-- The walk comes to one thing. -/
theorem Loop.unique {Q : Type → Type u} {ε σ : Type} {I : Interpretation Q σ}
    {ask : List α → Program Q ε (List α)} {root : α} {seen frontier : List α} {s : σ}
    {r r' : Except ε (List α) × σ} (h : Loop I ask root seen frontier s r)
    (h' : Loop I ask root seen frontier s r') : r = r' := by
  induction h with
  | done =>
    cases h' with
    | done => rfl
    | level hfrontier _ _ => exact absurd rfl hfrontier
    | failed hfrontier _ => exact absurd rfl hfrontier
  | level hfrontier hask _ ih =>
    cases h' with
    | done => exact absurd rfl hfrontier
    | level _ hask' hrest' =>
      cases hask.symm.trans hask'
      exact ih hrest'
    | failed _ hask' => cases hask.symm.trans hask'
  | failed hfrontier hask =>
    cases h' with
    | done => exact absurd rfl hfrontier
    | level _ hask' _ => cases hask.symm.trans hask'
    | failed _ hask' => exact hask.symm.trans hask'

/-- With enough fuel the bounded walk is the walk without a bound. -/
theorem loop_levels {Q : Type → Type u} {ε σ : Type} {I : Interpretation Q σ} {s : σ}
    {ask : List α → Program Q ε (List α)} {children : List α → List α}
    (hask : ∀ frontier, (ask frontier).run I s = (.ok (children frontier), s))
    (hchildren : ∀ frontier x, x ∈ children frontier ↔ ∃ p ∈ frontier, child p x)
    {bound : Nat} (hbound : ∀ l : List α, l.Nodup → l.length ≤ bound)
    (fuel : Nat) {seen frontier : List α} (h : LevelInvariant child root seen frontier)
    (hfuel : frontier = [] ∨ bound < seen.length + fuel) :
    Loop I ask root seen frontier s
      (.ok (levels (m := Id) children root fuel seen frontier), s) := by
  induction fuel generalizing seen frontier with
  | zero =>
    have hlen := hbound seen h.nodup
    have hempty : frontier = [] := hfuel.resolve_right (by omega)
    subst hempty
    exact .done
  | succ fuel ih =>
    by_cases hempty : frontier = []
    · subst hempty
      exact .done
    · rw [levels_succ hempty]
      exact .level hempty (hask frontier)
        (ih (h.next (hchildren frontier)) (enough_next hempty hfuel))

theorem levels_emits {Q : Type → Type u} {ε : Type} {P : ∀ β, Q β → Prop}
    {ask : List α → Program Q ε (List α)} (hask : ∀ frontier, (ask frontier).Emits P)
    (root : α) (fuel : Nat) (seen frontier : List α) :
    (levels ask root fuel seen frontier).Emits P := by
  induction fuel generalizing seen frontier with
  | zero => trivial
  | succ fuel ih =>
    by_cases hempty : frontier = []
    · subst hempty
      trivial
    · simp only [levels, List.isEmpty_iff, hempty, if_false]
      exact (hask frontier).bind fun _ => ih _ _

end Walk
