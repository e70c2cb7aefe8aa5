import Mathlib.Data.List.Induction

/-!
# What a machine answered

A machine takes an input, answers it and moves to a next state. Its transcript
pairs each input of a run with the answer it got. What the state stands for is
stated against the transcript so far: an invariant of that kind is kept by each
step, where the step may use how the inputs of one run are ordered, and then
holds wherever the run is cut.
-/

/-- What a machine answers and becomes, in a state, to an input. -/
abbrev Machine (σ ι ο : Type*) := σ → ι → ο × σ

namespace Machine

variable {σ ι ο : Type*} (m : Machine σ ι ο)

/-- The state a run ends in. -/
def after (s : σ) : List ι → σ
  | [] => s
  | i :: is => after (m s i).2 is

/-- The inputs of a run with their answers. -/
def transcript (s : σ) : List ι → List (ι × ο)
  | [] => []
  | i :: is => (i, (m s i).1) :: transcript (m s i).2 is

@[simp] theorem after_nil (s : σ) : m.after s [] = s := rfl

@[simp] theorem after_cons (s : σ) (i : ι) (is : List ι) :
    m.after s (i :: is) = m.after (m s i).2 is := rfl

@[simp] theorem transcript_nil (s : σ) : m.transcript s [] = [] := rfl

@[simp] theorem transcript_cons (s : σ) (i : ι) (is : List ι) :
    m.transcript s (i :: is) = (i, (m s i).1) :: m.transcript (m s i).2 is := rfl

theorem after_append (s : σ) (is js : List ι) :
    m.after s (is ++ js) = m.after (m.after s is) js := by
  induction is generalizing s with
  | nil => rfl
  | cons i is ih => exact ih _

theorem transcript_append (s : σ) (is js : List ι) :
    m.transcript s (is ++ js) = m.transcript s is ++ m.transcript (m.after s is) js := by
  induction is generalizing s with
  | nil => rfl
  | cons i is ih => simp only [List.cons_append, transcript_cons, after_cons, ih]

@[simp] theorem transcript_inputs (s : σ) (is : List ι) :
    (m.transcript s is).map (·.1) = is := by
  induction is generalizing s with
  | nil => rfl
  | cons i is ih => simp only [transcript_cons, List.map_cons, ih]

variable {m} {s : σ} {is : List ι}

/-- An exchange of a run was made in the state its predecessors led to. -/
theorem exists_of_transcript_eq {past rest : List (ι × ο)} {i : ι} {o : ο}
    (h : m.transcript s is = past ++ (i, o) :: rest) :
    ∃ before after, is = before ++ i :: after ∧ past = m.transcript s before ∧
      o = (m (m.after s before) i).1 := by
  induction is generalizing s past with
  | nil => simp at h
  | cons j is ih =>
    cases past with
    | nil =>
      obtain ⟨hhead, -⟩ := List.cons.inj h
      obtain ⟨rfl, rfl⟩ := Prod.mk.inj hhead
      exact ⟨[], is, rfl, rfl, rfl⟩
    | cons e past =>
      obtain ⟨rfl, htail⟩ := List.cons.inj h
      obtain ⟨before, after, rfl, rfl, rfl⟩ := ih htail
      exact ⟨j :: before, after, rfl, rfl, rfl⟩

/-- A run is cut where its transcript is. -/
theorem exists_of_transcript_eq_append {past rest : List (ι × ο)}
    (h : m.transcript s is = past ++ rest) :
    ∃ before after, is = before ++ after ∧ past = m.transcript s before := by
  induction past generalizing s is with
  | nil => exact ⟨[], is, rfl, rfl⟩
  | cons e past ih =>
    cases is with
    | nil => simp at h
    | cons i is =>
      obtain ⟨rfl, htail⟩ := List.cons.inj h
      obtain ⟨before, after, rfl, rfl⟩ := ih htail
      exact ⟨i :: before, after, rfl, rfl⟩

/-- A fact about states that every input keeps. -/
theorem after_induction {P : σ → Prop} (hstep : ∀ s i, P s → P (m s i).2) (hs : P s) :
    P (m.after s is) := by
  induction is generalizing s with
  | nil => exact hs
  | cons i is ih => exact ih (hstep s i hs)

/-- What a state stands for, given the transcript that led to it. A step may
use what holds of every input, and that its own comes after those of the past. -/
theorem invariant_of_inputs {r : ι → ι → Prop} {p : ι → Prop} {I : List (ι × ο) → σ → Prop}
    (hstep : ∀ past s i, I past s → p i → (∀ e ∈ past, r e.1 i) →
      I (past ++ [(i, (m s i).1)]) (m s i).2)
    (hstart : I [] s) (hinputs : ∀ i ∈ is, p i) (hordered : is.Pairwise r) :
    I (m.transcript s is) (m.after s is) := by
  induction is using List.reverseRecOn with
  | nil => exact hstart
  | append_singleton is i ih =>
    obtain ⟨hbefore, -, hlast⟩ := List.pairwise_append.mp hordered
    have hmem : i ∈ is ++ [i] := List.mem_append_right _ (List.mem_singleton_self i)
    rw [transcript_append, after_append]
    refine hstep _ _ i (ih (fun j hj => hinputs j (List.mem_append_left _ hj)) hbefore)
      (hinputs i hmem) ?_
    intro e he
    have hinput : e.1 ∈ is := by
      rw [← m.transcript_inputs s is]
      exact List.mem_map_of_mem he
    exact hlast e.1 hinput i (List.mem_singleton_self i)

theorem invariant_of_step {r : ι → ι → Prop} {I : List (ι × ο) → σ → Prop}
    (hstep : ∀ past s i, I past s → (∀ e ∈ past, r e.1 i) →
      I (past ++ [(i, (m s i).1)]) (m s i).2)
    (hstart : I [] s) (hordered : is.Pairwise r) :
    I (m.transcript s is) (m.after s is) :=
  invariant_of_inputs (p := fun _ => True) (fun past s i h _ => hstep past s i h) hstart
    (fun _ _ => trivial) hordered

/-- The invariant where a run is cut, and the order of what it is cut at. -/
theorem invariant_at {r : ι → ι → Prop} {I : List (ι × ο) → σ → Prop}
    (hstep : ∀ past s i, I past s → (∀ e ∈ past, r e.1 i) →
      I (past ++ [(i, (m s i).1)]) (m s i).2)
    (hstart : I [] s) (hordered : is.Pairwise r) {past rest : List (ι × ο)} {i : ι} {o : ο}
    (h : m.transcript s is = past ++ (i, o) :: rest) :
    ∃ t, I past t ∧ o = (m t i).1 ∧ ∀ e ∈ past, r e.1 i := by
  obtain ⟨before, after, rfl, rfl, rfl⟩ := exists_of_transcript_eq h
  obtain ⟨hbefore, -, hcross⟩ := List.pairwise_append.mp hordered
  refine ⟨_, invariant_of_step hstep hstart hbefore, rfl, ?_⟩
  intro e he
  have hinput : e.1 ∈ before := by
    rw [← m.transcript_inputs s before]
    exact List.mem_map_of_mem he
  exact hcross e.1 hinput i List.mem_cons_self

/-! ### Components -/

variable {τ : Type*} {k : Machine τ ι ο} {v : σ → τ} {own : ι → Bool} {P : σ → Prop}

/-- A part of the state that answers some inputs by itself, and that the others
leave alone, answers them as if there were no others. -/
theorem transcript_filter (hkeep : ∀ s i, P s → P (m s i).2)
    (hown : ∀ s i, P s → own i = true →
      (m s i).1 = (k (v s) i).1 ∧ v (m s i).2 = (k (v s) i).2)
    (hother : ∀ s i, P s → own i = false → v (m s i).2 = v s) (hs : P s) :
    (m.transcript s is).filter (fun e => own e.1) = k.transcript (v s) (is.filter own) := by
  induction is generalizing s with
  | nil => rfl
  | cons i is ih =>
    cases hi : own i with
    | true =>
      obtain ⟨hanswer, hnext⟩ := hown s i hs hi
      simp only [transcript_cons, List.filter_cons, hi, if_true, ih (hkeep s i hs), hanswer, hnext]
    | false =>
      simp only [transcript_cons, List.filter_cons, hi, Bool.false_eq_true, if_false,
        ih (hkeep s i hs), hother s i hs hi]

/-! ### Inputs that leave no trace -/

/-- The second list is the first with elements of a kind put in anywhere. -/
inductive Padded {α : Type*} (extra : α → Prop) : List α → List α → Prop
  | nil : Padded extra [] []
  | keep {a : α} {l l' : List α} : Padded extra l l' → Padded extra (a :: l) (a :: l')
  | put {a : α} {l l' : List α} : extra a → Padded extra l l' → Padded extra l (a :: l')

/-- Inputs that leave alone what answers depend on may be put into a run
anywhere: every other input keeps the answer it had. -/
theorem transcript_padded {extra : ι → Prop} {is is' : List ι} {t : σ}
    {R : σ → σ → Prop} (hpadded : Padded extra is is') (hkeep : ∀ s i, P s → P (m s i).2)
    (hsame : ∀ s t i, R s t → (m s i).1 = (m t i).1 ∧ R (m s i).2 (m t i).2)
    (hextra : ∀ s t i, R s t → P t → extra i → R s (m t i).2) (hs : R s t) (ht : P t) :
    Padded (fun e => extra e.1) (m.transcript s is) (m.transcript t is') := by
  induction hpadded generalizing s t with
  | nil => exact .nil
  | @keep i is is' _ ih =>
    obtain ⟨hanswer, hnext⟩ := hsame s t i hs
    simp only [transcript_cons, hanswer]
    exact .keep (ih hnext (hkeep t i ht))
  | @put i is is' hi _ ih =>
    exact .put hi (ih (hextra s t i hs ht hi) (hkeep t i ht))

end Machine
