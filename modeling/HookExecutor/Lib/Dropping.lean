import HookExecutor.Lib.Disturbance
import HookExecutor.Lib.Guarantee

/-!
# Programs that are dropped

Whoever runs programs together may drop one of them between two of its queries.
What it holds at that point it was given by the queries it was answered, so what
it still has to do is a program of its own, which depends on these alone. The
guarantees of programs, and of what unwinds them, are kept in every run.

`card_update` counts who holds what.
-/

universe u v

section Drop

variable {Q : Type → Type u} {ε α σ : Type} {ι : Type v} [DecidableEq ι] {I : Interpretation Q σ}
  {unwind : Heard Q → Program Q ε α} {g : ι → Program Q ε α} {s : σ} {c c' : Config Q ε α σ ι}

/-- One of the programs takes a turn, or is dropped before it came to its end. -/
inductive Progress (I : Interpretation Q σ) (unwind : Heard Q → Program Q ε α) :
    Config Q ε α σ ι → Config Q ε α σ ι → Prop
  | turn {c c' : Config Q ε α σ ι} (turn : Turn I c c') : Progress I unwind c c'
  | drop {c : Config Q ε α σ ι} (i : ι) (running : (c.left i).next.isSome = true) :
      Progress I unwind c
        { c with left := Function.update c.left i (unwind (heard I i c.log)) }

/-- What the programs `g` can come to from `s`, some of them dropped on the way. -/
def Dropping (I : Interpretation Q σ) (unwind : Heard Q → Program Q ε α) (g : ι → Program Q ε α)
    (s : σ) (c : Config Q ε α σ ι) : Prop :=
  Relation.ReflTransGen (Progress I unwind) ⟨g, s, []⟩ c

theorem Dropping.initial : Dropping I unwind g s ⟨g, s, []⟩ := .refl

theorem Interleaved.dropping (h : Interleaved I g s c) : Dropping I unwind g s c := by
  induction h with
  | refl => exact .refl
  | tail _ hstep ih => exact ih.tail (.turn hstep)

theorem Dropping.chained (h : Dropping I unwind g s c) :
    c.state = stateAfter I s c.log ∧ Chained I s c.log := by
  induction h with
  | refl => exact ⟨rfl, trivial⟩
  | tail _ hstep ih =>
    cases hstep with
    | drop i running => exact ih
    | turn hturn =>
      cases hturn with
      | query next => exact ⟨rfl, ih⟩

/-- Programs whose answers are always the ones they rely on are at a point their
guarantee allows, and so is every query they issued. -/
theorem Dropping.guarantees {R : ∀ β, Q β → β → Prop} {A : ι → Heard Q → ∀ β, Q β → Prop}
    {P : ι → Heard Q → Except ε α → Prop} (hrun : Dropping I unwind g s c)
    (hrely : ∀ β (q : Q β) t, R β q (I _ q t).1)
    (hstart : ∀ i, (g i).Guarantees R (A i) [] (P i))
    (hunwind : ∀ i h, (unwind h).Guarantees R (A i) h (P i)) :
    (∀ i, (c.left i).Guarantees R (A i) (heard I i c.log) (P i)) ∧
      ∀ later e early, c.log = later ++ e :: early → A e.who (heard I e.who early) _ e.query := by
  induction hrun with
  | refl => exact ⟨hstart, by simp⟩
  | @tail c _ _ hstep ih =>
    obtain ⟨hleft, hlog⟩ := ih
    cases hstep with
    | drop i running =>
      refine ⟨fun j => ?_, hlog⟩
      dsimp only
      by_cases hj : j = i
      · subst hj
        rw [Function.update_self]
        exact hunwind j _
      · rw [Function.update_of_ne hj]
        exact hleft j
    | turn hturn =>
      cases hturn with
      | @query i β q k next =>
        have hi := hleft i
        rw [next] at hi
        refine ⟨fun j => ?_, fun later e early heq => ?_⟩
        · dsimp only
          by_cases hj : j = i
          · subst hj
            rw [Function.update_self, heard_cons_self (e := ⟨j, q, c.state⟩) rfl]
            exact hi.2 _ (hrely β q c.state)
          · rw [Function.update_of_ne hj, heard_cons_of_ne (e := ⟨i, q, c.state⟩) (Ne.symm hj)]
            exact hleft j
        · cases later with
          | nil =>
            obtain ⟨rfl, rfl⟩ := List.cons.inj heq
            exact hi.1
          | cons e' later => exact hlog later e early (List.cons.inj heq).2

/-- One of the programs may be dropped once it took some turns. -/
theorem Dropping.dropped (h : Dropping I unwind g s c) (i : ι)
    (running : (c.left i).next.isSome = true) :
    Dropping I unwind g s { c with left := Function.update c.left i (unwind (heard I i c.log)) } :=
  h.tail (.drop i running)

theorem Dropping.scheduled (h : Dropping I unwind g s c) (i : ι) (n : Nat) :
    Dropping I unwind g s (c.advance I i n) := by
  induction n generalizing c with
  | zero => exact h
  | succ n ih =>
    unfold Config.advance
    split
    · rename_i hnext
      exact ih (h.tail (.turn (Turn.query hnext)))
    · exact h

end Drop

/-! ### Guarantees among disturbances -/

namespace Program

variable {Q : Type → Type u} {ε α D : Type} {R : ∀ β, Q β → β → Prop}
  {A : Heard Q → ∀ β, Q β → Prop}

/-- What is relied on of queries; nothing is of disturbances. -/
def Undisturbed (R : ∀ β, Q β → β → Prop) : ∀ β, Disturbed Q D β → β → Prop
  | _, .query q, b => R _ q b
  | _, .disturb _, _ => True

theorem Guarantees.within {h : Heard (Disturbed Q D)} {p : Program Q ε α}
    {P : Heard Q → Except ε α → Prop}
    (hp : p.Guarantees R A (Disturbed.undisturbed h) P) :
    (p.within D).Guarantees (Undisturbed R) (Disturbed.Allowed A) h
      fun h' r => P (Disturbed.undisturbed h') r := by
  induction p generalizing h with
  | pure a => exact hp
  | fail e => exact hp
  | query q k ih => exact ⟨hp.1, fun b hb => ih b (hp.2 b hb)⟩

/-- Disturbances leave it known what the queries were answered. -/
theorem guarantees_disturbances {h : Heard (Disturbed Q D)} {P : Heard Q → Prop} (ds : List D)
    (hP : P (Disturbed.undisturbed h)) :
    (disturbances ds : Program (Disturbed Q D) ε Unit).Guarantees (Undisturbed R)
      (Disturbed.Allowed A) h fun h' _ => P (Disturbed.undisturbed h') := by
  induction ds generalizing h with
  | nil => exact hP
  | cons d rest ih => exact ⟨trivial, fun _ _ => ih hP⟩

/-- A program and the one that looks at how it ended. -/
theorem Guarantees.attempt {h : Heard Q} {p : Program Q ε α} {P : Heard Q → Except ε α → Prop}
    (hp : p.Guarantees R A h P) :
    p.attempt.Guarantees R A h fun h' (r : Except ε (Except ε α)) =>
      ∃ r', r = .ok r' ∧ P h' r' := by
  induction p generalizing h with
  | pure a => exact ⟨_, rfl, hp⟩
  | fail e => exact ⟨_, rfl, hp⟩
  | query q k ih => exact ⟨hp.1, fun b hb => ih b (hp.2 b hb)⟩

end Program

/-! ### Who holds what -/

/-- How many hold what is counted changes with the one whose holding changes. -/
theorem card_update {ι τ : Type*} [DecidableEq ι] [Fintype ι] (held : ι → Option τ) (i : ι)
    (o : Option τ) (p : τ → Bool) :
    (Finset.univ.filter fun j => (Function.update held i o j).any p).card +
        (if (held i).any p then 1 else 0) =
      (Finset.univ.filter fun j => (held j).any p).card + if o.any p then 1 else 0 := by
  have hothers : ∀ j ∈ Finset.univ.erase i, (if (Function.update held i o j).any p then 1 else 0) =
      if (held j).any p then 1 else 0 := by
    intro j hj
    rw [Function.update_of_ne (Finset.ne_of_mem_erase hj)]
  have hafter := Finset.add_sum_erase Finset.univ
    (fun j => if (Function.update held i o j).any p then 1 else 0) (Finset.mem_univ i)
  have hbefore := Finset.add_sum_erase Finset.univ
    (fun j => if (held j).any p then 1 else 0) (Finset.mem_univ i)
  rw [Finset.sum_congr rfl hothers] at hafter
  simp only [Function.update_self] at hafter
  rw [Finset.card_filter, Finset.card_filter, ← hafter, ← hbefore]
  omega
