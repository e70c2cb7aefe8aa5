import Mathlib.Order.Basic

/-!
# Programs that query a shared state

A `Program` issues the queries of a signature `Q`, one at a time, and either
returns a value or fails with an error. Nothing is said about what a query
does: an `Interpretation` gives each query its answer and its effect on a
state, and `run` executes a program against it without interruption. The same
tree is interleaved with others in `Lib.Interleaving`.

`Emits` bounds the queries a program can ever issue, whatever it is answered.
It is what frame arguments are made from: a program that only emits reads
leaves the state as it found it.
-/

universe u

/-- A chain of fallible steps that returned went through each of them. -/
theorem Except.bind_eq_ok_iff {ε α β : Type} {x : Except ε α} {f : α → Except ε β} {b : β} :
    x >>= f = .ok b ↔ ∃ a, x = .ok a ∧ f a = .ok b := by
  cases x with
  | ok a => simp [Bind.bind, Except.bind]
  | error e => simp [Bind.bind, Except.bind]

/-- Naming an error differently changes no success. -/
theorem Except.map_eq_ok_iff {ε α β : Type} {x : Except ε α} {f : α → β} {b : β} :
    f <$> x = .ok b ↔ ∃ a, x = .ok a ∧ f a = b := by
  cases x with
  | ok a => simp [Functor.map, Except.map]
  | error e => simp [Functor.map, Except.map]

theorem Except.mapError_eq_ok_iff {ε ε' α : Type} {x : Except ε α} {f : ε → ε'} {a : α} :
    x.mapError f = .ok a ↔ x = .ok a := by
  cases x with
  | ok b => simp [Except.mapError]
  | error e => simp [Except.mapError]

/-- A tree of queries ending in a value or an error. -/
inductive Program (Q : Type → Type u) (ε α : Type) : Type (max 1 u) where
  | pure (a : α)
  | fail (e : ε)
  | query {β : Type} (q : Q β) (k : β → Program Q ε α)

/-- What each query answers and what it does to the state. -/
abbrev Interpretation (Q : Type → Type u) (σ : Type) := ∀ β, Q β → σ → β × σ

namespace Program

variable {Q : Type → Type u} {ε ε' α β σ : Type}

def bind : Program Q ε α → (α → Program Q ε β) → Program Q ε β
  | .pure a, f => f a
  | .fail e, _ => .fail e
  | .query q k, f => .query q fun b => (k b).bind f

instance : Monad (Program Q ε) where
  pure := .pure
  bind := .bind

/-- Issue one query and return its answer. -/
def ask (q : Q α) : Program Q ε α := .query q .pure

/-- A value that was computed without a query. -/
def ofExcept : Except ε α → Program Q ε α
  | .ok a => .pure a
  | .error e => .fail e

/-- Continue only if `c` holds. -/
def require (c : Prop) [Decidable c] (e : ε) : Program Q ε Unit :=
  if c then .pure () else .fail e

/-- Run a program and hand its error back as a value. -/
def attempt : Program Q ε α → Program Q ε' (Except ε α)
  | .pure a => .pure (.ok a)
  | .fail e => .pure (.error e)
  | .query q k => .query q fun b => (k b).attempt

@[simp] theorem pure_eq (a : α) : (Pure.pure a : Program Q ε α) = .pure a := rfl
@[simp] theorem bind_eq (p : Program Q ε α) (f : α → Program Q ε β) : p >>= f = p.bind f := rfl
@[simp] theorem map_eq (f : α → β) (p : Program Q ε α) :
    f <$> p = p.bind fun a => .pure (f a) := rfl

/-- The answer and the state a program leaves when nothing interrupts it. -/
def run (I : Interpretation Q σ) : Program Q ε α → σ → Except ε α × σ
  | .pure a, s => (.ok a, s)
  | .fail e, s => (.error e, s)
  | .query q k, s => (k (I _ q s).1).run I (I _ q s).2

variable {I : Interpretation Q σ}

@[simp] theorem run_pure (a : α) (s : σ) : (.pure a : Program Q ε α).run I s = (.ok a, s) := rfl
@[simp] theorem run_fail (e : ε) (s : σ) :
    (.fail e : Program Q ε α).run I s = (.error e, s) := rfl
@[simp] theorem run_query (q : Q β) (k : β → Program Q ε α) (s : σ) :
    (Program.query q k).run I s = (k (I _ q s).1).run I (I _ q s).2 := rfl

@[simp] theorem run_ask (q : Q α) (s : σ) :
    (ask q : Program Q ε α).run I s = (.ok (I _ q s).1, (I _ q s).2) := rfl

@[simp] theorem run_ofExcept (r : Except ε α) (s : σ) :
    (ofExcept r : Program Q ε α).run I s = (r, s) := by
  cases r <;> rfl

@[simp] theorem run_require (c : Prop) [Decidable c] (e : ε) (s : σ) :
    (require c e : Program Q ε Unit).run I s = (if c then .ok () else .error e, s) := by
  by_cases h : c
  · simp [require, h]
  · simp [require, h]

/-- A bind runs its continuation from the state its first half left. -/
theorem run_bind (p : Program Q ε α) (f : α → Program Q ε β) (s : σ) :
    (p.bind f).run I s =
      match p.run I s with
      | (.ok a, s') => (f a).run I s'
      | (.error e, s') => (.error e, s') := by
  induction p generalizing s with
  | pure a => rfl
  | fail e => rfl
  | query q k ih => exact ih _ _

theorem run_bind_ok {p : Program Q ε α} {f : α → Program Q ε β} {s s' : σ} {a : α}
    (h : p.run I s = (.ok a, s')) : (p.bind f).run I s = (f a).run I s' := by
  rw [run_bind, h]

theorem run_bind_error {p : Program Q ε α} {f : α → Program Q ε β} {s s' : σ} {e : ε}
    (h : p.run I s = (.error e, s')) : (p.bind f).run I s = (.error e, s') := by
  rw [run_bind, h]

/-- A bind that returned did so through both halves. -/
theorem run_bind_eq_ok_iff {p : Program Q ε α} {f : α → Program Q ε β} {s t : σ} {b : β} :
    (p.bind f).run I s = (.ok b, t) ↔
      ∃ a s', p.run I s = (.ok a, s') ∧ (f a).run I s' = (.ok b, t) := by
  rw [run_bind]
  constructor
  · intro h
    cases hp : p.run I s with
    | mk r s' =>
      rw [hp] at h
      cases r with
      | ok a => exact ⟨a, s', rfl, h⟩
      | error e => simp at h
  · rintro ⟨a, s', hp, hf⟩
    rw [hp]
    exact hf

/-- A bind that failed did so in one of its halves. -/
theorem run_bind_eq_error_iff {p : Program Q ε α} {f : α → Program Q ε β} {s t : σ} {e : ε} :
    (p.bind f).run I s = (.error e, t) ↔
      p.run I s = (.error e, t) ∨
        ∃ a s', p.run I s = (.ok a, s') ∧ (f a).run I s' = (.error e, t) := by
  rw [run_bind]
  cases hp : p.run I s with
  | mk r s' =>
    cases r with
    | ok a =>
      constructor
      · exact fun h => .inr ⟨a, s', rfl, h⟩
      · rintro (h | ⟨_, _, h, hf⟩)
        · simp at h
        · cases h
          exact hf
    | error e' => simp

@[simp] theorem run_attempt (p : Program Q ε α) (s : σ) :
    (p.attempt : Program Q ε' (Except ε α)).run I s = (.ok (p.run I s).1, (p.run I s).2) := by
  induction p generalizing s with
  | pure a => rfl
  | fail e => rfl
  | query q k ih => exact ih _ _

/-- What holds after the first half, and is then kept by the second, holds after
both. -/
theorem run_bind_post {J K : σ → Prop} {p : Program Q ε α} {f : α → Program Q ε β} {s : σ}
    (hp : J (p.run I s).2) (hJK : ∀ t, J t → K t)
    (hf : ∀ a t, p.run I s = (.ok a, t) → J t → K ((f a).run I t).2) :
    K ((p.bind f).run I s).2 := by
  rw [run_bind]
  cases h : p.run I s with
  | mk r t =>
    rw [h] at hp
    cases r with
    | ok a => exact hf a t h hp
    | error e => exact hJK t hp

/-- A first half that only reads hands the state on as it was. -/
theorem run_bind_read {K : σ → Prop} {p : Program Q ε α} {f : α → Program Q ε β} {s : σ}
    (hread : (p.run I s).2 = s) (hs : K s)
    (hf : ∀ a, p.run I s = (.ok a, s) → K ((f a).run I s).2) : K ((p.bind f).run I s).2 :=
  run_bind_post (J := fun t => t = s) hread (fun _ h => h ▸ hs)
    (fun a t h ht => by subst ht; exact hf a h)

/-- Two halves that only answer make a whole that only answers. -/
theorem run_bind_answer {p : Program Q ε α} {f : α → Program Q ε β} {s : σ} {r : Except ε α}
    {g : α → Except ε β} (hp : p.run I s = (r, s)) (hf : ∀ a, (f a).run I s = (g a, s)) :
    (p.bind f).run I s = (r >>= g, s) := by
  cases r with
  | ok a => rw [run_bind_ok hp, hf]; rfl
  | error e => rw [run_bind_error hp]; rfl

/-- A map changes the value and nothing else. -/
theorem run_map (f : α → β) (p : Program Q ε α) (s : σ) :
    (f <$> p).run I s = ((p.run I s).1.map f, (p.run I s).2) := by
  rw [map_eq, run_bind]
  cases p.run I s with
  | mk r t => cases r <;> rfl

theorem bind_assoc {γ : Type} (p : Program Q ε α) (f : α → Program Q ε β)
    (g : β → Program Q ε γ) : (p.bind f).bind g = p.bind fun a => (f a).bind g := by
  induction p with
  | pure a => rfl
  | fail e => rfl
  | query q k ih => exact congrArg (Program.query q) (funext ih)

/-! ### The queries a program can issue -/

/-- Every query the program may ever issue satisfies `P`. -/
def Emits (P : ∀ β, Q β → Prop) : Program Q ε α → Prop
  | .pure _ => True
  | .fail _ => True
  | .query q k => P _ q ∧ ∀ b, (k b).Emits P

variable {P P' : ∀ β, Q β → Prop}

@[simp] theorem emits_pure (a : α) : (.pure a : Program Q ε α).Emits P := trivial
@[simp] theorem emits_fail (e : ε) : (.fail e : Program Q ε α).Emits P := trivial
@[simp] theorem emits_query (q : Q β) (k : β → Program Q ε α) :
    (Program.query q k).Emits P ↔ P _ q ∧ ∀ b, (k b).Emits P := Iff.rfl

@[simp] theorem emits_ask (q : Q α) : (ask q : Program Q ε α).Emits P ↔ P _ q := by
  simp [ask]

@[simp] theorem emits_ofExcept (r : Except ε α) : (ofExcept r : Program Q ε α).Emits P := by
  cases r <;> trivial

@[simp] theorem emits_require (c : Prop) [Decidable c] (e : ε) :
    (require c e : Program Q ε Unit).Emits P := by
  by_cases h : c
  · simp [require, h]
  · simp [require, h]

theorem Emits.bind {p : Program Q ε α} {f : α → Program Q ε β}
    (hp : p.Emits P) (hf : ∀ a, (f a).Emits P) : (p.bind f).Emits P := by
  induction p with
  | pure a => exact hf a
  | fail e => trivial
  | query q k ih => exact ⟨hp.1, fun b => ih b (hp.2 b)⟩

/-- After a value that was computed, only the case it succeeded in matters. -/
theorem emits_ofExcept_bind {r : Except ε α} {f : α → Program Q ε β}
    (hf : ∀ a, r = .ok a → (f a).Emits P) : ((ofExcept r).bind f).Emits P := by
  cases r with
  | ok a => exact hf a rfl
  | error e => trivial

theorem Emits.map {p : Program Q ε α} (f : α → β) (hp : p.Emits P) : (f <$> p).Emits P :=
  hp.bind fun _ => trivial

/-- A program that may return at once without asking anything. -/
theorem emits_unless {c : Prop} [Decidable c] {a : α} {p : Program Q ε α} (hp : p.Emits P) :
    (if c then .pure a else p : Program Q ε α).Emits P := by
  by_cases hc : c
  · rw [if_pos hc]
    trivial
  · rw [if_neg hc]
    exact hp

theorem Emits.attempt {p : Program Q ε α} (hp : p.Emits P) :
    (p.attempt : Program Q ε' (Except ε α)).Emits P := by
  induction p with
  | pure a => trivial
  | fail e => trivial
  | query q k ih => exact ⟨hp.1, fun b => ih b (hp.2 b)⟩

theorem Emits.mono {p : Program Q ε α} (hp : p.Emits P) (h : ∀ β q, P β q → P' β q) :
    p.Emits P' := by
  induction p with
  | pure a => trivial
  | fail e => trivial
  | query q k ih => exact ⟨h _ _ hp.1, fun b => ih b (hp.2 b)⟩

/-- What is known of the queries of a program in two ways. -/
theorem Emits.and {p : Program Q ε α} (hp : p.Emits P) (hp' : p.Emits P') :
    p.Emits fun β q => P β q ∧ P' β q := by
  induction p with
  | pure a => trivial
  | fail e => trivial
  | query q k ih => exact ⟨⟨hp.1, hp'.1⟩, fun b => ih b (hp.2 b) (hp'.2 b)⟩

/-- A preorder that each emitted query respects relates the two ends of a run. -/
theorem Emits.run_rel {R : σ → σ → Prop} {p : Program Q ε α}
    (hp : p.Emits fun _ q => ∀ s, R s (I _ q s).2)
    (refl : ∀ s, R s s) (trans : ∀ {s t v}, R s t → R t v → R s v) (s : σ) :
    R s (p.run I s).2 := by
  induction p generalizing s with
  | pure a => exact refl s
  | fail e => exact refl s
  | query q k ih => exact trans (hp.1 s) (ih _ (hp.2 _) _)

/-- An invariant that each emitted query keeps is kept by a run. -/
theorem Emits.run_inv {J : σ → Prop} {p : Program Q ε α}
    (hp : p.Emits fun _ q => ∀ s, J s → J (I _ q s).2) {s : σ} (hs : J s) : J (p.run I s).2 :=
  hp.run_rel (R := fun s t => J s → J t) (fun _ h => h) (fun h h' hs => h' (h hs)) s hs

/-- Two states that every emitted query answers alike, and leaves alike, are told
apart by no run. -/
theorem Emits.lockstep {R : σ → σ → Prop} {p : Program Q ε α}
    (hp : p.Emits fun _ q => ∀ s t, R s t → (I _ q s).1 = (I _ q t).1 ∧ R (I _ q s).2 (I _ q t).2)
    {s t : σ} (h : R s t) : (p.run I s).1 = (p.run I t).1 ∧ R (p.run I s).2 (p.run I t).2 := by
  induction p generalizing s t with
  | pure a => exact ⟨rfl, h⟩
  | fail e => exact ⟨rfl, h⟩
  | query q k ih =>
    obtain ⟨hanswer, hafter⟩ := hp.1 s t h
    rw [run_query, run_query, hanswer]
    exact ih _ (hp.2 _) hafter

/-- Two related states are told apart by no run of the program, and stay related. -/
def Lockstep (I : Interpretation Q σ) (R : σ → σ → Prop) (p : Program Q ε α) : Prop :=
  ∀ s t, R s t → (p.run I s).1 = (p.run I t).1 ∧ R (p.run I s).2 (p.run I t).2

theorem Lockstep.bind {R : σ → σ → Prop} {p : Program Q ε α} {f : α → Program Q ε β}
    (hp : p.Lockstep I R) (hf : ∀ a, (f a).Lockstep I R) : (p.bind f).Lockstep I R := by
  intro s t h
  obtain ⟨hanswer, hafter⟩ := hp s t h
  rw [run_bind, run_bind]
  cases hs : p.run I s with
  | mk r s' =>
    cases ht : p.run I t with
    | mk r' t' =>
      rw [hs, ht] at hanswer hafter
      obtain rfl : r = r' := hanswer
      cases r with
      | ok a => exact hf a s' t' hafter
      | error e => exact ⟨rfl, hafter⟩

theorem lockstep_ofExcept {R : σ → σ → Prop} (r : Except ε α) :
    (ofExcept r).Lockstep I R := by
  intro s t h
  rw [run_ofExcept, run_ofExcept]
  exact ⟨rfl, h⟩

/-- A run does not depend on the interpretation if both answer what it asks
alike, and leave the state as it is. -/
theorem Emits.run_eq {I' : Interpretation Q σ} {p : Program Q ε α} {s : σ}
    (hp : p.Emits fun β q => I' β q s = I β q s ∧ (I β q s).2 = s) : p.run I' s = p.run I s := by
  induction p with
  | pure a => rfl
  | fail e => rfl
  | query q k ih =>
    obtain ⟨hanswer, hsame⟩ := hp.1
    rw [run_query, run_query, hanswer, hsame]
    exact ih _ (hp.2 _)

theorem emits_any (p : Program Q ε α) : p.Emits fun _ _ => True := by
  induction p with
  | pure a => trivial
  | fail e => trivial
  | query q k ih => exact ⟨trivial, ih⟩

/-! ### The queries a run issues -/

/-- Run from `s`, the program comes to issue a query that satisfies `P`. -/
def Issues (I : Interpretation Q σ) (P : ∀ β, Q β → Prop) : Program Q ε α → σ → Prop
  | .pure _, _ => False
  | .fail _, _ => False
  | .query q k, s => P _ q ∨ (k (I _ q s).1).Issues I P (I _ q s).2

theorem issues_bind {p : Program Q ε α} {f : α → Program Q ε β} {s : σ} :
    (p.bind f).Issues I P s ↔
      p.Issues I P s ∨ ∃ a t, p.run I s = (.ok a, t) ∧ (f a).Issues I P t := by
  induction p generalizing s with
  | pure a =>
    constructor
    · exact fun h => .inr ⟨a, s, rfl, h⟩
    · rintro (h | ⟨_, _, hrun, h⟩)
      · exact h.elim
      · cases hrun
        exact h
  | fail e =>
    constructor
    · exact fun h => h.elim
    · rintro (h | ⟨_, _, hrun, -⟩)
      · exact h
      · cases hrun
  | query q k ih =>
    change P _ q ∨ _ ↔ (P _ q ∨ _) ∨ _
    rw [ih, or_assoc]
    rfl

theorem issues_ofExcept_bind {r : Except ε α} {f : α → Program Q ε β} {s : σ} :
    ((ofExcept r).bind f).Issues I P s ↔ ∃ a, r = .ok a ∧ (f a).Issues I P s := by
  cases r with
  | ok a =>
    constructor
    · exact fun h => ⟨a, rfl, h⟩
    · rintro ⟨_, hr, h⟩
      cases hr
      exact h
  | error e => exact iff_of_false id (by rintro ⟨_, hr, -⟩; cases hr)

theorem issues_require_bind {c : Prop} [Decidable c] {e : ε} {f : Unit → Program Q ε β} {s : σ} :
    ((require c e).bind f).Issues I P s ↔ c ∧ (f ()).Issues I P s := by
  by_cases hc : c
  · rw [require, if_pos hc]
    exact (and_iff_right hc).symm
  · rw [require, if_neg hc]
    exact iff_of_false id fun h => hc h.1

theorem issues_attempt {p : Program Q ε α} {s : σ} :
    (p.attempt : Program Q ε' (Except ε α)).Issues I P s ↔ p.Issues I P s := by
  induction p generalizing s with
  | pure a => exact Iff.rfl
  | fail e => exact Iff.rfl
  | query q k ih => exact or_congr Iff.rfl (ih _)

/-- What no query of the program can be, none of a run is. -/
theorem Emits.not_issues {p : Program Q ε α} (hp : p.Emits fun β q => ¬P β q) (s : σ) :
    ¬p.Issues I P s := by
  induction p generalizing s with
  | pure a => exact id
  | fail e => exact id
  | query q k ih => exact fun h => h.elim hp.1 (ih _ (hp.2 _) _)

theorem Emits.issues_bind {p : Program Q ε α} {f : α → Program Q ε β} {s : σ}
    (hp : p.Emits fun β q => ¬P β q) :
    (p.bind f).Issues I P s ↔ ∃ a t, p.run I s = (.ok a, t) ∧ (f a).Issues I P t := by
  rw [Program.issues_bind, or_iff_right (hp.not_issues s)]

theorem issues_bind_of_emits {p : Program Q ε α} {f : α → Program Q ε β} {s : σ}
    (hf : ∀ a, (f a).Emits fun β q => ¬P β q) : (p.bind f).Issues I P s ↔ p.Issues I P s := by
  rw [Program.issues_bind, or_iff_left]
  rintro ⟨a, t, -, h⟩
  exact (hf a).not_issues t h

/-- A query that changes nothing, in any state. -/
def IsRead (I : Interpretation Q σ) (β : Type) (q : Q β) : Prop := ∀ s, (I β q s).2 = s

/-- A program made of reads leaves the state as it found it. -/
theorem Emits.run_snd {p : Program Q ε α} (hp : p.Emits (IsRead I)) (s : σ) :
    (p.run I s).2 = s :=
  (hp.mono fun _ _ h s => h s).run_rel (R := fun s t => t = s) (fun _ => rfl)
    (fun h h' => h'.trans h) s

end Program
