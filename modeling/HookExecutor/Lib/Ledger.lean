import Mathlib.Data.List.Basic
import Mathlib.Data.List.Forall2
import Mathlib.Logic.Relation

/-!
# Ledgers

A system takes steps from state to state, and its states hold entries. An entry
may age while the system goes on. Where every step accounts for the entries it
leaves, an entry at the end of a run was there at its start or was made by one of
its steps; where every step accounts for the entries it finds, an entry of the
start is there at the end or was struck by one of its steps. Either way the entry
has only aged meanwhile. The account may rest on an invariant of the system.

Where the entries are a list that every step can only add to, they are a list that
every run can only add to, and each entry a run added was made by one of its steps.

`Fades` is the way of ageing of an entry that can only be forgotten something,
and `NoneNew` and `NoneLost` compare two lists of entries.
-/

universe u v

/-- Lists age entry by entry. -/
theorem List.Forall₂.comp {ρ : Type v} {ages : ρ → ρ → Prop}
    (trans : ∀ x y z, ages x y → ages y z → ages x z) {a b c : List ρ}
    (hab : List.Forall₂ ages a b) (hbc : List.Forall₂ ages b c) : List.Forall₂ ages a c := by
  induction hab generalizing c with
  | nil => exact hbc
  | cons hx _ ih =>
    cases hbc with
    | cons hy hrest => exact .cons (trans _ _ _ hx hy) (ih hrest)

namespace Ledger

variable {σ : Type u} {ρ : Type v} {inv : σ → Prop} {step : σ → σ → Prop}
  {holds : σ → ρ → Prop} {ages : ρ → ρ → Prop} {made struck : σ → σ → ρ → Prop} {s t : σ} {x y : ρ}

/-- An entry is held, in an older form. -/
def HeldBy (holds : σ → ρ → Prop) (ages : ρ → ρ → Prop) (s : σ) (y : ρ) : Prop :=
  ∃ x, holds s x ∧ ages x y

/-- An entry is held, in a younger form. -/
def KeptBy (holds : σ → ρ → Prop) (ages : ρ → ρ → Prop) (s : σ) (x : ρ) : Prop :=
  ∃ y, holds s y ∧ ages x y

/-- What an entry held after a step is accounted for by. -/
def Enters (inv : σ → Prop) (step : σ → σ → Prop) (holds : σ → ρ → Prop) (ages : ρ → ρ → Prop)
    (made : σ → σ → ρ → Prop) : Prop :=
  ∀ {s t y}, inv s → step s t → holds t y → HeldBy holds ages s y ∨ made s t y

/-- What becomes of an entry held before a step. -/
def Leaves (inv : σ → Prop) (step : σ → σ → Prop) (holds : σ → ρ → Prop) (ages : ρ → ρ → Prop)
    (struck : σ → σ → ρ → Prop) : Prop :=
  ∀ {s t x}, inv s → step s t → holds s x → KeptBy holds ages t x ∨ struck s t x

/-- One step of a run from `s` to `t`. -/
structure StepOf (step : σ → σ → Prop) (s t u u' : σ) : Prop where
  before : Relation.ReflTransGen step s u
  taken : step u u'
  after : Relation.ReflTransGen step u' t

theorem StepOf.tail {t' u u' : σ} (h : StepOf step s t u u') (hstep : step t t') :
    StepOf step s t' u u' :=
  ⟨h.before, h.taken, h.after.tail hstep⟩

theorem inv_of_run (keep : ∀ {s t}, inv s → step s t → inv t)
    (hrun : Relation.ReflTransGen step s t) (hs : inv s) : inv t := by
  induction hrun with
  | refl => exact hs
  | tail _ hstep ih => exact keep ih hstep

/-- Where the entries at the end of a run come from. -/
theorem Enters.run (h : Enters inv step holds ages made) (refl : ∀ x, ages x x)
    (trans : ∀ {x y z}, ages x y → ages y z → ages x z)
    (keep : ∀ {s t}, inv s → step s t → inv t) (hs : inv s)
    (hrun : Relation.ReflTransGen step s t) (hy : holds t y) :
    HeldBy holds ages s y ∨ ∃ u u' x, StepOf step s t u u' ∧ made u u' x ∧ ages x y := by
  induction hrun generalizing y with
  | refl => exact .inl ⟨y, hy, refl y⟩
  | @tail u t hbefore hstep ih =>
    obtain ⟨x, hx, hxy⟩ | hmade := h (inv_of_run keep hbefore hs) hstep hy
    · obtain ⟨x', hx', hage⟩ | ⟨v, v', x', hof, hmade, hage⟩ := ih hx
      · exact .inl ⟨x', hx', trans hage hxy⟩
      · exact .inr ⟨v, v', x', hof.tail hstep, hmade, trans hage hxy⟩
    · exact .inr ⟨u, t, y, ⟨hbefore, hstep, .refl⟩, hmade, refl y⟩

/-- What becomes of the entries at the start of a run. -/
theorem Leaves.run (h : Leaves inv step holds ages struck) (refl : ∀ x, ages x x)
    (trans : ∀ {x y z}, ages x y → ages y z → ages x z)
    (keep : ∀ {s t}, inv s → step s t → inv t) (hs : inv s)
    (hrun : Relation.ReflTransGen step s t) (hx : holds s x) :
    KeptBy holds ages t x ∨ ∃ u u' y, StepOf step s t u u' ∧ holds u y ∧ ages x y ∧
      struck u u' y := by
  induction hrun with
  | refl => exact .inl ⟨x, hx, refl x⟩
  | @tail u t hbefore hstep ih =>
    obtain ⟨y, hy, hage⟩ | ⟨v, v', y, hof, hy, hage, hstruck⟩ := ih
    · obtain ⟨z, hz, hyz⟩ | hstruck := h (inv_of_run keep hbefore hs) hstep hy
      · exact .inl ⟨z, hz, trans hage hyz⟩
      · exact .inr ⟨u, t, y, ⟨hbefore, hstep, .refl⟩, hy, hage, hstruck⟩
    · exact .inr ⟨v, v', y, hof.tail hstep, hy, hage, hstruck⟩

/-- A step adds at the end, and leaves what was there in its place. -/
def Appends (step : σ → σ → Prop) (rows : σ → List ρ) (ages : ρ → ρ → Prop)
    (made : σ → σ → ρ → Prop) : Prop :=
  ∀ {s t}, step s t → ∃ new, List.Forall₂ ages (rows s ++ new) (rows t) ∧ ∀ x ∈ new, made s t x

/-- What a run adds. -/
theorem Appends.run {rows : σ → List ρ} (h : Appends step rows ages made) (refl : ∀ x, ages x x)
    (trans : ∀ {x y z}, ages x y → ages y z → ages x z) (hrun : Relation.ReflTransGen step s t) :
    ∃ new, List.Forall₂ ages (rows s ++ new) (rows t) ∧
      ∀ x ∈ new, ∃ u u', StepOf step s t u u' ∧ made u u' x := by
  induction hrun with
  | refl => exact ⟨[], by simpa using List.forall₂_same.mpr fun x _ => refl x, by simp⟩
  | @tail u t hbefore hstep ih =>
    obtain ⟨old, hold, hmade⟩ := ih
    obtain ⟨new, hnew, hmadeNow⟩ := h hstep
    refine ⟨old ++ new, ?_, fun x hx => ?_⟩
    · have hboth : List.Forall₂ ages ((rows s ++ old) ++ new) (rows u ++ new) :=
        List.rel_append hold (List.forall₂_same.mpr fun x _ => refl x)
      rw [← List.append_assoc]
      refine hboth.comp ?_ hnew
      exact fun _ _ _ => trans
    · obtain hx | hx := List.mem_append.mp hx
      · obtain ⟨v, v', hof, hv⟩ := hmade x hx
        exact ⟨v, v', hof.tail hstep, hv⟩
      · exact ⟨u, t, ⟨hbefore, hstep, .refl⟩, hmadeNow x hx⟩

/-! ### Lists of entries -/

/-- An entry as it was, or with something of it forgotten. -/
def Fades (forget : ρ → ρ) (x y : ρ) : Prop := y = x ∨ y = forget x

theorem Fades.refl (forget : ρ → ρ) (x : ρ) : Fades forget x x := .inl rfl

/-- What is forgotten stays forgotten. -/
theorem Fades.trans {forget : ρ → ρ} {x y z : ρ} (h : Fades forget x y) (h' : Fades forget y z)
    (hforget : ∀ x, forget (forget x) = forget x) : Fades forget x z := by
  obtain rfl | rfl := h
  · exact h'
  · obtain rfl | rfl := h'
    · exact .inr rfl
    · exact .inr (hforget x)

/-- Every entry of the second list is in the first, in an older form. -/
def NoneNew (ages : ρ → ρ → Prop) (a b : List ρ) : Prop := ∀ y ∈ b, ∃ x ∈ a, ages x y

/-- Every entry of the first list is in the second, in a younger form. -/
def NoneLost (ages : ρ → ρ → Prop) (a b : List ρ) : Prop := ∀ x ∈ a, ∃ y ∈ b, ages x y

section Lists

variable {a b c : List ρ} {forget : ρ → ρ}

theorem noneNew_of_subset (refl : ∀ x, ages x x) (h : b ⊆ a) : NoneNew ages a b :=
  fun y hy => ⟨y, h hy, refl y⟩

theorem noneLost_of_subset (refl : ∀ x, ages x x) (h : a ⊆ b) : NoneLost ages a b :=
  fun x hx => ⟨x, h hx, refl x⟩

theorem NoneNew.trans (htrans : ∀ {x y z}, ages x y → ages y z → ages x z)
    (h : NoneNew ages a b) (h' : NoneNew ages b c) : NoneNew ages a c := by
  intro z hz
  obtain ⟨y, hy, hyz⟩ := h' z hz
  obtain ⟨x, hx, hxy⟩ := h y hy
  exact ⟨x, hx, htrans hxy hyz⟩

theorem NoneLost.trans (htrans : ∀ {x y z}, ages x y → ages y z → ages x z)
    (h : NoneLost ages a b) (h' : NoneLost ages b c) : NoneLost ages a c := by
  intro x hx
  obtain ⟨y, hy, hxy⟩ := h x hx
  obtain ⟨z, hz, hyz⟩ := h' y hy
  exact ⟨z, hz, htrans hxy hyz⟩

/-- Some of the entries fade. -/
theorem fades_map (p : ρ → Bool) (a : List ρ) :
    NoneNew (Fades forget) a (a.map fun x => if p x then forget x else x) ∧
      NoneLost (Fades forget) a (a.map fun x => if p x then forget x else x) := by
  have hfades : ∀ x, Fades forget x (if p x then forget x else x) := by
    intro x
    split
    · exact .inr rfl
    · exact .refl forget x
  refine ⟨fun y hy => ?_, fun x hx => ⟨_, List.mem_map_of_mem hx, hfades x⟩⟩
  obtain ⟨x, hx, rfl⟩ := List.mem_map.mp hy
  exact ⟨x, hx, hfades x⟩

end Lists

end Ledger
