import HookExecutor.Lib.Interleaving

/-!
# Programs that are disturbed

Something beside the programs may change the state they share, at any time and
without asking. A disturbance is one more kind of query, issued by programs of
its own; what a program is known to do undisturbed it is known to do disturbed.
-/

universe u

/-- Queries of an interface, and disturbances from outside. -/
inductive Disturbed (Q : Type → Type u) (D : Type) : Type → Type (max u 1)
  | query {β : Type} (q : Q β) : Disturbed Q D β
  | disturb (d : D) : Disturbed Q D Unit

namespace Disturbed

variable {Q : Type → Type u} {D σ : Type}

/-- A disturbance does to the state what `act` says. -/
def exec (I : Interpretation Q σ) (act : D → σ → σ) : Interpretation (Disturbed Q D) σ
  | _, .query q, s => I _ q s
  | _, .disturb d, s => ((), act d s)

/-- The queries among what was heard. -/
def undisturbed (h : Heard (Disturbed Q D)) : Heard Q :=
  h.filterMap fun
    | ⟨β, .query q, b⟩ => some ⟨β, q, b⟩
    | ⟨_, .disturb _, _⟩ => none

theorem mem_undisturbed {h : Heard (Disturbed Q D)} {β : Type} {q : Q β} {b : β} :
    ⟨β, q, b⟩ ∈ undisturbed h ↔ ⟨β, .query q, b⟩ ∈ h := by
  simp only [undisturbed, List.mem_filterMap]
  constructor
  · rintro ⟨⟨β', q', b'⟩, hmem, heq⟩
    cases q' with
    | query q' =>
      cases heq
      exact hmem
    | disturb d => cases heq
  · exact fun hmem => ⟨_, hmem, rfl⟩

/-- What is allowed of queries; disturbances always are. -/
def Allowed (A : Heard Q → ∀ β, Q β → Prop) : Heard (Disturbed Q D) → ∀ β, Disturbed Q D β → Prop
  | h, _, .query q => A (undisturbed h) _ q
  | _, _, .disturb _ => True

end Disturbed

namespace Program

variable {Q : Type → Type u} {ε α D : Type}

/-- The program, among others that disturb it. -/
def within (D : Type) : Program Q ε α → Program (Disturbed Q D) ε α
  | .pure a => .pure a
  | .fail e => .fail e
  | .query q k => .query (.query q) fun b => (k b).within D

theorem Ensures.within {A : Heard Q → ∀ β, Q β → Prop} {h : Heard (Disturbed Q D)}
    {p : Program Q ε α} {P : Heard Q → α → Prop}
    (hp : p.Ensures A (Disturbed.undisturbed h) P) :
    (p.within D).Ensures (Disturbed.Allowed A) h fun h' a => P (Disturbed.undisturbed h') a := by
  induction p generalizing h with
  | pure a => exact hp
  | fail e => trivial
  | query q k ih => exact ⟨hp.1, fun b => ih b (hp.2 b)⟩

/-- One disturbance after another. -/
def disturbances : List D → Program (Disturbed Q D) ε Unit
  | [] => .pure ()
  | d :: rest => .query (.disturb d) fun _ => disturbances rest

theorem ensures_disturbances {A : Heard Q → ∀ β, Q β → Prop} {h : Heard (Disturbed Q D)}
    (ds : List D) : (disturbances ds : Program (Disturbed Q D) ε Unit).Ensures
      (Disturbed.Allowed A) h fun _ _ => True := by
  induction ds generalizing h with
  | nil => trivial
  | cons d rest ih => exact ⟨trivial, fun _ => ih⟩

end Program
