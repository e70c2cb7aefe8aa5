import HookExecutor.Lib.Interleaving

/-!
# One machine seen through another

A machine whose every query answers as on another one, and leaves the image of what
that one is left as, runs a program, or several at once, as the other does.
-/

universe u v

/-- The query as it met the image of the state. -/
def Event.image {Q : Type → Type u} {σ τ : Type} {ι : Type v} (f : σ → τ) (e : Event Q σ ι) :
    Event Q τ ι := ⟨e.who, e.query, f e.before⟩

def Config.image {Q : Type → Type u} {ε α σ τ : Type} {ι : Type v} (f : σ → τ)
    (c : Config Q ε α σ ι) : Config Q ε α τ ι := ⟨c.left, f c.state, c.log.map (·.image f)⟩

/-- Every query of `J` answers on the image of a sound state as it does of `I` on the
state, and leaves the image of the sound state that one leaves. -/
def Mirrors {Q : Type → Type u} {σ τ : Type} (I : Interpretation Q σ) (J : Interpretation Q τ)
    (Sound : σ → Prop) (f : σ → τ) : Prop :=
  ∀ β (q : Q β) s, Sound s →
    J β q (f s) = ((I β q s).1, f (I β q s).2) ∧ Sound (I β q s).2

namespace Mirrors

variable {Q : Type → Type u} {ε α σ τ : Type} {ι : Type v} [DecidableEq ι]
  {I : Interpretation Q σ} {J : Interpretation Q τ} {Sound : σ → Prop} {f : σ → τ} {s : σ}
  {g : ι → Program Q ε α}

theorem run (h : Mirrors I J Sound f) (p : Program Q ε α) (hs : Sound s) :
    p.run J (f s) = ((p.run I s).1, f (p.run I s).2) ∧ Sound (p.run I s).2 := by
  induction p generalizing s with
  | pure a => exact ⟨rfl, hs⟩
  | fail e => exact ⟨rfl, hs⟩
  | query q k ih =>
    obtain ⟨hquery, hafter⟩ := h _ q s hs
    rw [Program.run_query, Program.run_query, hquery]
    exact ih _ hafter

theorem sound (h : Mirrors I J Sound f) (hs : Sound s) {c : Config Q ε α σ ι}
    (hrun : Interleaved I g s c) : Sound c.state :=
  (hrun.invariant hs fun β q t ht => (h β q t ht).2).1

theorem turn (h : Mirrors I J Sound f) {c : Config Q ε α σ ι} (hc : Sound c.state) {i : ι}
    {β : Type} {q : Q β} {k : β → Program Q ε α} :
    (⟨Function.update (c.image f).left i (k (J β q (c.image f).state).1),
      (J β q (c.image f).state).2, ⟨i, q, (c.image f).state⟩ :: (c.image f).log⟩ :
        Config Q ε α τ ι) =
      Config.image f ⟨Function.update c.left i (k (I β q c.state).1), (I β q c.state).2,
        ⟨i, q, c.state⟩ :: c.log⟩ := by
  obtain ⟨hquery, -⟩ := h β q c.state hc
  rw [show (c.image f).state = f c.state from rfl, hquery]
  rfl

/-- Programs that take turns come to the images of what they come to on the other
machine, and to nothing else. -/
theorem interleaved_iff (h : Mirrors I J Sound f) (hs : Sound s) {d : Config Q ε α τ ι} :
    Interleaved J g (f s) d ↔
      ∃ c, Interleaved I g s c ∧ d = c.image f := by
  constructor
  · intro hrun
    induction hrun with
    | refl => exact ⟨⟨g, s, []⟩, .refl, rfl⟩
    | tail _ hturn ih =>
      obtain ⟨c, hc, rfl⟩ := ih
      cases hturn with
      | query next =>
        have hnext : c.left _ = .query _ _ := next
        exact ⟨_, hc.tail (.query hnext), h.turn (h.sound hs hc)⟩
  · rintro ⟨c, hrun, rfl⟩
    induction hrun with
    | refl => exact .refl
    | @tail c' d hbefore hturn ih =>
      cases hturn with
      | query next =>
        rw [← h.turn (h.sound hs hbefore)]
        have hnext : (c'.image f).left _ = .query _ _ := next
        exact ih.tail (.query hnext)

end Mirrors
