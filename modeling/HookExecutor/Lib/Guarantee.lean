import Mathlib.Algebra.BigOperators.Group.Finset.Piecewise
import HookExecutor.Lib.Interleaving

/-!
# What programs rely on and what they guarantee

As long as the answers a program is given are the ones it relies on, the queries
it issues and the way it ends are guaranteed, a failure included. Programs that
guarantee to keep an invariant, and rely on no more than the invariant, may run
together: each of them is given the answers it relies on.
-/

universe u v

namespace Program

/-- How a program ended, if it has. -/
def outcome {Q : Type → Type u} {ε α : Type} : Program Q ε α → Option (Except ε α)
  | .pure a => some (.ok a)
  | .fail e => some (.error e)
  | .query _ _ => none

variable {Q : Type → Type u} {ε α β : Type} {R : ∀ β, Q β → β → Prop}
  {A : Heard Q → ∀ β, Q β → Prop} {h : Heard Q}

/-- Relying on its answers, the program only issues queries that are right by
what it has heard, and ends only as is right by it. -/
def Guarantees (R : ∀ β, Q β → β → Prop) (A : Heard Q → ∀ β, Q β → Prop) :
    Heard Q → Program Q ε α → (Heard Q → Except ε α → Prop) → Prop
  | h, .pure a, P => P h (.ok a)
  | h, .fail e, P => P h (.error e)
  | h, .query q k, P => A h _ q ∧ ∀ b, R _ q b → Guarantees R A (⟨_, q, b⟩ :: h) (k b) P

theorem Guarantees.mono {p : Program Q ε α} {P P' : Heard Q → Except ε α → Prop}
    (hp : p.Guarantees R A h P) (himp : ∀ h' r, P h' r → P' h' r) : p.Guarantees R A h P' := by
  induction p generalizing h with
  | pure a => exact himp h _ hp
  | fail e => exact himp h _ hp
  | query q k ih => exact ⟨hp.1, fun b hb => ih b (hp.2 b hb)⟩

theorem Guarantees.bind {p : Program Q ε α} {f : α → Program Q ε β}
    {M : Heard Q → Except ε α → Prop} {P : Heard Q → Except ε β → Prop}
    (hp : p.Guarantees R A h M) (herror : ∀ h' e, M h' (.error e) → P h' (.error e))
    (hf : ∀ h' a, M h' (.ok a) → (f a).Guarantees R A h' P) : (p.bind f).Guarantees R A h P := by
  induction p generalizing h with
  | pure a => exact hf h a hp
  | fail e => exact herror h e hp
  | query q k ih => exact ⟨hp.1, fun b hb => ih b (hp.2 b hb)⟩

theorem Guarantees.map {p : Program Q ε α} {f : α → β} {P : Heard Q → Except ε β → Prop}
    (hp : p.Guarantees R A h fun h' r => P h' (r.map f)) : (f <$> p).Guarantees R A h P :=
  hp.bind (fun _ _ he => he) fun _ _ ha => ha

theorem guarantees_ofExcept {r : Except ε α} {P : Heard Q → Except ε α → Prop} (hr : P h r) :
    (ofExcept r).Guarantees R A h P := by
  cases r with
  | ok a => exact hr
  | error e => exact hr

theorem guarantees_require {c : Prop} [Decidable c] {e : ε} {P : Heard Q → Except ε Unit → Prop}
    (hok : c → P h (.ok ())) (herror : ¬c → P h (.error e)) : (require c e).Guarantees R A h P := by
  by_cases hyes : c
  · rw [require, if_pos hyes]
    exact hok hyes
  · rw [require, if_neg hyes]
    exact herror hyes

/-- A program that came to its end is right by its guarantee. -/
theorem Guarantees.of_outcome {p : Program Q ε α} {r : Except ε α}
    {P : Heard Q → Except ε α → Prop} (hp : p.Guarantees R A h P) (hr : p.outcome = some r) :
    P h r := by
  cases p with
  | pure a =>
    cases hr
    exact hp
  | fail e =>
    cases hr
    exact hp
  | query q k => cases hr

/-- Run by itself, a program keeps what the queries it guarantees keep, and the
answers it relies on follow from. -/
theorem Guarantees.run_inv {σ : Type} {I : Interpretation Q σ} {J : σ → Prop} {p : Program Q ε α}
    {P : Heard Q → Except ε α → Prop} {s : σ} (hp : p.Guarantees R A h P) (hs : J s)
    (hkeep : ∀ h β (q : Q β) t, A h β q → J t → J (I _ q t).2)
    (hrely : ∀ β (q : Q β) t, J t → R β q (I _ q t).1) : J (p.run I s).2 := by
  induction p generalizing h s with
  | pure a => exact hs
  | fail e => exact hs
  | query q k ih => exact ih _ (hp.2 _ (hrely _ q s hs)) (hkeep h _ q s hp.1 hs)

/-- Queries of a kind, none of which changes what is known, leave it known. -/
theorem Emits.guarantees {P : ∀ β, Q β → Prop} {K : Heard Q → Prop} {p : Program Q ε α}
    (hp : p.Emits P) (hok : ∀ h β q, P β q → A h β q)
    (hkeep : ∀ h β (q : Q β) b, P β q → K h → K (⟨β, q, b⟩ :: h)) (hK : K h) :
    p.Guarantees R A h fun h' _ => K h' := by
  induction p generalizing h with
  | pure a => exact hK
  | fail e => exact hK
  | query q k ih => exact ⟨hok h _ q hp.1, fun b _ => ih b (hp.2 b) (hkeep h _ q b hp.1 hK)⟩

end Program

/-- A condition adds nothing to a count if and only if all that is counted meets
it. -/
theorem countP_and_eq_iff {α : Type u} {p q : α → Bool} {l : List α} :
    l.countP (fun a => p a && q a) = l.countP p ↔ ∀ a ∈ l, p a = true → q a = true := by
  have hsplit : l.countP (fun a => p a && q a) = (l.filter p).countP q := by
    rw [List.countP_filter]
    exact List.countP_congr fun a _ => by rw [Bool.and_comm]
  rw [hsplit, List.countP_eq_length_filter (p := p), List.countP_eq_length]
  simp [List.mem_filter]

section Runs

variable {Q : Type → Type u} {ε α σ : Type} {ι : Type v} [DecidableEq ι] {I : Interpretation Q σ}
  {g : ι → Program Q ε α} {s : σ} {c : Config Q ε α σ ι}

/-- Programs that keep an invariant by what they guarantee, and rely on nothing
that does not follow from it, keep it together; each is at a point its guarantee
allows. -/
theorem Interleaved.guarantees {J : σ → Prop} {R : ∀ β, Q β → β → Prop}
    {A : ι → Heard Q → ∀ β, Q β → Prop} {P : ι → Heard Q → Except ε α → Prop}
    (hrun : Interleaved I g s c) (hs : J s)
    (hstart : ∀ i, (g i).Guarantees R (A i) [] (P i))
    (hkeep : ∀ i h β (q : Q β) t, A i h β q → J t → J (I _ q t).2)
    (hrely : ∀ e ∈ c.log, J e.before → R _ e.query (e.answer I)) :
    J c.state ∧ (∀ i, (c.left i).Guarantees R (A i) (heard I i c.log) (P i)) ∧
      ∀ e ∈ c.log, J e.before ∧ ∃ h, A e.who h _ e.query := by
  induction hrun with
  | refl => exact ⟨hs, hstart, by simp⟩
  | @tail c _ _ hstep ih =>
    cases hstep with
    | @query i β q k next =>
      obtain ⟨hstate, hleft, hlog⟩ := ih fun e he => hrely e (List.mem_cons_of_mem _ he)
      have hi := hleft i
      rw [next] at hi
      refine ⟨hkeep i _ β q _ hi.1 hstate, fun j => ?_, List.forall_mem_cons.mpr
        ⟨⟨hstate, _, hi.1⟩, hlog⟩⟩
      dsimp only
      by_cases hj : j = i
      · subst hj
        rw [Function.update_self, heard_cons_self (e := ⟨j, q, c.state⟩) rfl]
        exact hi.2 _ (hrely ⟨j, q, c.state⟩ List.mem_cons_self hstate)
      · rw [Function.update_of_ne hj, heard_cons_of_ne (e := ⟨i, q, c.state⟩) (Ne.symm hj)]
        exact hleft j

/-- Whatever is counted of the exchanges of a log, is counted once for the one
that heard it. -/
theorem sum_countP_heard [Fintype ι] (f : ((β : Type) × Q β × β) → Bool)
    (log : List (Event Q σ ι)) :
    ∑ i, (heard I i log).countP f = log.countP fun e => f (e.exchange I) := by
  induction log with
  | nil => simp
  | cons e log ih =>
    have hsplit : ∀ i, (heard I i (e :: log)).countP f =
        (heard I i log).countP f +
          if e.who = i then (if f (e.exchange I) then 1 else 0) else 0 := by
      intro i
      by_cases hi : e.who = i
      · rw [heard_cons_self hi, List.countP_cons, if_pos hi]
      · rw [heard_cons_of_ne hi, if_neg hi, Nat.add_zero]
    simp only [hsplit, Finset.sum_add_distrib, ih, Finset.sum_ite_eq, Finset.mem_univ, if_true,
      List.countP_cons]

end Runs
