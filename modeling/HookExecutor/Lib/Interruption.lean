import HookExecutor.Lib.Program

/-!
# Programs that are cut short

A program need not get to its end. Whoever runs it may drop it between two
queries, and a query may fail in ways its interpretation never shows. `advance`
runs a program for a number of queries and hands back what is left of it, and
`Throughout` is what holds at each of these points. `CutShort` is every state
that dropping and failing can leave. A program that gives up on a failure leaves
none that it does not pass through anyway.
-/

namespace Program

universe u

variable {Q : Type → Type u} {ε α β σ : Type} {I : Interpretation Q σ}
  {fails : ∀ β, Q β → β → Prop}

/-- What is left of a program after so many queries, and the state by then. -/
def advance (I : Interpretation Q σ) : Nat → Program Q ε α → σ → Program Q ε α × σ
  | n + 1, .query q k, s => (k (I _ q s).1).advance I n (I _ q s).2
  | _, p, s => (p, s)

@[simp] theorem advance_zero (p : Program Q ε α) (s : σ) : p.advance I 0 s = (p, s) := by
  cases p <;> rfl

@[simp] theorem advance_pure (n : Nat) (a : α) (s : σ) :
    (.pure a : Program Q ε α).advance I n s = (.pure a, s) := by
  cases n <;> rfl

@[simp] theorem advance_fail (n : Nat) (e : ε) (s : σ) :
    (.fail e : Program Q ε α).advance I n s = (.fail e, s) := by
  cases n <;> rfl

@[simp] theorem advance_query (n : Nat) (q : Q β) (k : β → Program Q ε α) (s : σ) :
    (Program.query q k).advance I (n + 1) s = (k (I _ q s).1).advance I n (I _ q s).2 := rfl

/-- Running what is left is running on. -/
theorem run_advance (n : Nat) (p : Program Q ε α) (s : σ) :
    (p.advance I n s).1.run I (p.advance I n s).2 = p.run I s := by
  induction n generalizing p s with
  | zero => rw [advance_zero]
  | succ n ih =>
    cases p with
    | pure a => rfl
    | fail e => rfl
    | query q k => exact ih _ _

/-- A bind is in its first half, or past it. -/
theorem advance_bind (n : Nat) (p : Program Q ε α) (f : α → Program Q ε β) (s : σ) :
    ((p.bind f).advance I n s).2 = (p.advance I n s).2 ∨
      ∃ a s' m, p.run I s = (.ok a, s') ∧
        ((p.bind f).advance I n s).2 = ((f a).advance I m s').2 := by
  induction p generalizing n s with
  | pure a => exact .inr ⟨a, s, n, rfl, rfl⟩
  | fail e => exact .inl (by rw [bind, advance_fail, advance_fail])
  | query q k ih =>
    cases n with
    | zero => exact .inl rfl
    | succ n => exact ih _ n _

/-- A preorder that each emitted query respects relates the start of a program
to every point of it. -/
theorem Emits.advance_rel {R : σ → σ → Prop} {p : Program Q ε α}
    (hp : p.Emits fun _ q => ∀ s, R s (I _ q s).2)
    (refl : ∀ s, R s s) (trans : ∀ {s t v}, R s t → R t v → R s v) (n : Nat) (s : σ) :
    R s (p.advance I n s).2 := by
  induction n generalizing p s with
  | zero =>
    rw [advance_zero]
    exact refl s
  | succ n ih =>
    cases p with
    | pure a => exact refl s
    | fail e => exact refl s
    | query q k => exact trans (hp.1 s) (ih (hp.2 _) _)

/-! ### What holds throughout -/

/-- `J` holds at every point of a program, its start and its end included. -/
def Throughout (I : Interpretation Q σ) (J : σ → Prop) (p : Program Q ε α) (s : σ) : Prop :=
  ∀ n, J (p.advance I n s).2

section Throughout

variable {J : σ → Prop} {p : Program Q ε α} {f : α → Program Q ε β} {s s' : σ} {a : α} {e : ε}

theorem Throughout.start (h : Throughout I J p s) : J s := by
  simpa using h 0

theorem throughout_pure (hs : J s) : Throughout I J (.pure a : Program Q ε α) s := fun n => by
  rwa [advance_pure]

theorem throughout_fail (hs : J s) : Throughout I J (.fail e : Program Q ε α) s := fun n => by
  rwa [advance_fail]

theorem throughout_query {q : Q β} {k : β → Program Q ε α} (hs : J s)
    (hk : Throughout I J (k (I _ q s).1) (I _ q s).2) : Throughout I J (.query q k) s
  | 0 => by rwa [advance_zero]
  | n + 1 => hk n

/-- What holds throughout the first half, and throughout the second from where
the first ended. -/
theorem throughout_bind (hp : Throughout I J p s)
    (hf : ∀ a s', p.run I s = (.ok a, s') → Throughout I J (f a) s') :
    Throughout I J (p.bind f) s := by
  intro n
  rcases advance_bind n p f s with hstop | ⟨a, s', m, hrun, hstop⟩
  · rw [hstop]
    exact hp n
  · rw [hstop]
    exact hf a s' hrun m

theorem throughout_bind_ok (hrun : p.run I s = (.ok a, s')) (hp : Throughout I J p s)
    (hf : Throughout I J (f a) s') : Throughout I J (p.bind f) s :=
  throughout_bind hp fun _ _ h => by
    cases hrun.symm.trans h
    exact hf

end Throughout

/-! ### Dropping and failing -/

/-- The states a program can leave if it is dropped before any of its queries,
and any of them may fail, with an answer of its own and no effect. -/
inductive CutShort (I : Interpretation Q σ) (fails : ∀ β, Q β → β → Prop) :
    Program Q ε α → σ → σ → Prop
  | dropped {p : Program Q ε α} {s : σ} : CutShort I fails p s s
  | step {β : Type} {q : Q β} {k : β → Program Q ε α} {s t : σ}
      (rest : CutShort I fails (k (I _ q s).1) (I _ q s).2 t) : CutShort I fails (.query q k) s t
  | failed {β : Type} {q : Q β} {k : β → Program Q ε α} {s t : σ} {b : β} (failure : fails _ q b)
      (rest : CutShort I fails (k b) s t) : CutShort I fails (.query q k) s t

theorem cutShort_advance (n : Nat) (p : Program Q ε α) (s : σ) :
    CutShort I fails p s (p.advance I n s).2 := by
  induction n generalizing p s with
  | zero =>
    rw [advance_zero]
    exact .dropped
  | succ n ih =>
    cases p with
    | pure a => exact .dropped
    | fail e => exact .dropped
    | query q k => exact .step (ih _ _)

/-- Whatever query fails, the program fails with it. -/
def GivesUp (fails : ∀ β, Q β → β → Prop) : Program Q ε α → Prop
  | .pure _ => True
  | .fail _ => True
  | .query q k => (∀ b, fails _ q b → ∃ e, k b = .fail e) ∧ ∀ b, (k b).GivesUp fails

theorem GivesUp.bind {p : Program Q ε α} {f : α → Program Q ε β} (hp : p.GivesUp fails)
    (hf : ∀ a, (f a).GivesUp fails) : (p.bind f).GivesUp fails := by
  induction p with
  | pure a => exact hf a
  | fail e => trivial
  | query q k ih =>
    refine ⟨fun b hb => ?_, fun b => ih b (hp.2 b)⟩
    obtain ⟨e, he⟩ := hp.1 b hb
    refine ⟨e, ?_⟩
    change (k b).bind f = _
    rw [he]
    rfl

theorem GivesUp.map {p : Program Q ε α} (f : α → β) (hp : p.GivesUp fails) :
    (f <$> p).GivesUp fails :=
  hp.bind fun _ => trivial

@[simp] theorem givesUp_ofExcept (r : Except ε α) :
    (ofExcept r : Program Q ε α).GivesUp fails := by
  cases r <;> trivial

@[simp] theorem givesUp_require (c : Prop) [Decidable c] (e : ε) :
    (require c e : Program Q ε Unit).GivesUp fails := by
  by_cases h : c
  · simp [require, h, GivesUp]
  · simp [require, h, GivesUp]

theorem givesUp_unless {c : Prop} [Decidable c] {a : α} {p : Program Q ε α}
    (hp : p.GivesUp fails) : (if c then .pure a else p : Program Q ε α).GivesUp fails := by
  by_cases hc : c
  · rw [if_pos hc]
    trivial
  · rw [if_neg hc]
    exact hp

/-- A program that gives up on every failure stops somewhere on its way. -/
theorem CutShort.exists_advance {p : Program Q ε α} {s t : σ} (h : CutShort I fails p s t)
    (hp : p.GivesUp fails) : ∃ n, t = (p.advance I n s).2 := by
  induction h with
  | dropped => exact ⟨0, by rw [advance_zero]⟩
  | step rest ih =>
    obtain ⟨n, hn⟩ := ih (hp.2 _)
    exact ⟨n + 1, hn⟩
  | failed failure rest ih =>
    obtain ⟨e, he⟩ := hp.1 _ failure
    obtain ⟨n, hn⟩ := ih (hp.2 _)
    rw [he, advance_fail] at hn
    exact ⟨0, hn.trans (by rw [advance_zero])⟩

theorem CutShort.of_throughout {J : σ → Prop} {p : Program Q ε α} {s t : σ}
    (h : CutShort I fails p s t) (hp : p.GivesUp fails) (hJ : Throughout I J p s) : J t := by
  obtain ⟨n, rfl⟩ := h.exists_advance hp
  exact hJ n

end Program
