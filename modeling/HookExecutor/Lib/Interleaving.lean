import Mathlib.Logic.Relation
import Mathlib.Logic.Function.Basic
import HookExecutor.Lib.Interruption

/-!
# Interleaved programs

Several programs share one state and take turns, one query at a time and in any
order. A run keeps its log: who issued which query, and the state it met. What a
program does next is known from what it was answered so far (`Ensures`), what
the state is now from the log (`Chained`), and a fact that held at one event and
does not hold any more was broken by an event in between (`exists_break`).
-/

universe u v

/-- One query of a run: who issued it, and the state it met. -/
structure Event (Q : Type → Type u) (σ : Type) (ι : Type v) where
  who : ι
  {β : Type}
  query : Q β
  before : σ

/-- What is left of each program, the state they share, and the queries issued
so far, newest first. -/
structure Config (Q : Type → Type u) (ε α σ : Type) (ι : Type v) where
  left : ι → Program Q ε α
  state : σ
  log : List (Event Q σ ι)

/-- Queries with their answers, newest first. -/
abbrev Heard (Q : Type → Type u) := List ((β : Type) × Q β × β)

section Log

variable {Q : Type → Type u} {σ : Type} {ι : Type v} {I : Interpretation Q σ} {s : σ}

def Event.answer (I : Interpretation Q σ) (e : Event Q σ ι) : e.β := (I _ e.query e.before).1

def Event.after (I : Interpretation Q σ) (e : Event Q σ ι) : σ := (I _ e.query e.before).2

/-- A query and what it was answered. -/
def Event.exchange (I : Interpretation Q σ) (e : Event Q σ ι) : (β : Type) × Q β × β :=
  ⟨_, e.query, e.answer I⟩

/-- An exchange tells what the query does to the state it met. -/
theorem Event.exec_of_exchange {e : Event Q σ ι} {β : Type} {q : Q β} {b : β}
    (h : e.exchange I = ⟨β, q, b⟩) : I β q e.before = (b, e.after I) := by
  obtain ⟨who, query, before⟩ := e
  cases h
  rfl

/-- The state the events of a log lead to. -/
def stateAfter (I : Interpretation Q σ) (s : σ) : List (Event Q σ ι) → σ
  | [] => s
  | e :: _ => e.after I

/-- Each event met the state the ones before it led to. -/
def Chained (I : Interpretation Q σ) (s : σ) : List (Event Q σ ι) → Prop
  | [] => True
  | e :: early => e.before = stateAfter I s early ∧ Chained I s early

theorem Chained.early {later early : List (Event Q σ ι)} (h : Chained I s (later ++ early)) :
    Chained I s early := by
  induction later with
  | nil => exact h
  | cons e later ih => exact ih h.2

theorem Chained.before {later early : List (Event Q σ ι)} {e : Event Q σ ι}
    (h : Chained I s (later ++ e :: early)) : e.before = stateAfter I s early :=
  h.early.1

/-- A fact that held once and does not hold later was broken in between. -/
theorem Chained.exists_break {φ : σ → Prop} {later early : List (Event Q σ ι)}
    (h : Chained I s (later ++ early)) (hearly : φ (stateAfter I s early))
    (hlater : ¬φ (stateAfter I s (later ++ early))) :
    ∃ e ∈ later, φ e.before ∧ ¬φ (e.after I) := by
  induction later with
  | nil => exact absurd hearly hlater
  | cons e later ih =>
    by_cases hmid : φ e.before
    · exact ⟨e, List.mem_cons_self, hmid, hlater⟩
    · obtain ⟨e', he', hbroken⟩ := ih h.2 (by rwa [h.1] at hmid)
      exact ⟨e', List.mem_cons_of_mem _ he', hbroken⟩

/-- What no event takes away, once it holds, lasts. -/
theorem Chained.kept {φ : σ → Prop} {later early : List (Event Q σ ι)}
    (h : Chained I s (later ++ early)) (hφ : ∀ e : Event Q σ ι, φ e.before → φ (e.after I))
    (hearly : φ (stateAfter I s early)) : φ (stateAfter I s (later ++ early)) := by
  by_contra hlost
  obtain ⟨e, -, hbefore, hafter⟩ := h.exists_break hearly hlost
  exact hafter (hφ e hbefore)

/-- Since an event of the log, a fact has lasted or was broken. -/
theorem Chained.since {later early : List (Event Q σ ι)} {a e : Event Q σ ι}
    (h : Chained I s (later ++ e :: early)) (ha : a ∈ early) :
    ∃ mid before, early = mid ++ a :: before ∧ ∀ φ : σ → Prop, φ (a.after I) →
      φ e.before ∨ ∃ b ∈ mid, φ b.before ∧ ¬φ (b.after I) := by
  obtain ⟨mid, before, rfl⟩ := List.append_of_mem ha
  refine ⟨mid, before, rfl, fun φ hφ => ?_⟩
  by_cases he : φ e.before
  · exact .inl he
  · rw [h.before] at he
    exact .inr (h.early.2.exists_break hφ he)

/-- What moves with the events of a kind, one each, has moved by their number. -/
theorem Chained.count {f : σ → Nat} {K : Event Q σ ι → Bool} {log : List (Event Q σ ι)}
    (h : Chained I s log)
    (hstep : ∀ e ∈ log, f (e.after I) = f e.before + if K e then 1 else 0) :
    f (stateAfter I s log) = f s + log.countP K := by
  induction log with
  | nil => rfl
  | cons e log ih =>
    have hbefore := ih h.2 fun e he => hstep e (List.mem_cons_of_mem _ he)
    rw [← h.1] at hbefore
    change f (e.after I) = _
    rw [hstep e List.mem_cons_self, hbefore, List.countP_cons, Nat.add_assoc]

/-- What a program has been answered in a log. -/
def heard [DecidableEq ι] (I : Interpretation Q σ) (i : ι) (log : List (Event Q σ ι)) : Heard Q :=
  (log.filter (·.who = i)).map (·.exchange I)

variable [DecidableEq ι] {i : ι} {log : List (Event Q σ ι)}

@[simp] theorem heard_nil : heard I i ([] : List (Event Q σ ι)) = [] := rfl

theorem heard_cons_self {e : Event Q σ ι} (h : e.who = i) :
    heard I i (e :: log) = e.exchange I :: heard I i log := by
  simp [heard, h]

theorem heard_cons_of_ne {e : Event Q σ ι} (h : e.who ≠ i) :
    heard I i (e :: log) = heard I i log := by
  simp [heard, h]

/-- What was heard was answered by an event of the log. -/
theorem mem_heard {a : (β : Type) × Q β × β} :
    a ∈ heard I i log ↔ ∃ e ∈ log, e.who = i ∧ e.exchange I = a := by
  simp [heard, and_assoc]

/-- What was heard last so far was answered where the log so far ends. -/
theorem exists_of_heard_eq {later early : Heard Q} {a : (β : Type) × Q β × β}
    (h : heard I i log = later ++ a :: early) :
    ∃ late e past, log = late ++ e :: past ∧ e.exchange I = a ∧ heard I i past = early := by
  obtain ⟨own, rest, hfilter, -, hrest⟩ := List.map_eq_append_iff.mp h
  obtain ⟨e, own', rfl, ha, hearly⟩ := List.map_eq_cons_iff.mp hrest
  obtain ⟨late, past, rfl, -, hpast⟩ := List.filter_eq_append_iff.mp hfilter
  obtain ⟨between, past', rfl, -, -, hpast'⟩ := List.filter_eq_cons_iff.mp hpast
  refine ⟨late ++ between, e, past', by simp, ha, ?_⟩
  rw [← hearly, ← hpast']
  rfl

/-- What was last learned from an exchange was learned at an event after which
nothing of the kind was. -/
theorem exists_of_heard_findSome? {γ : Type} {f : ((β : Type) × Q β × β) → Option γ} {r : γ}
    (h : (heard I i log).findSome? f = some r) :
    ∃ mid a before, log = mid ++ a :: before ∧ a.who = i ∧ f (a.exchange I) = some r ∧
      ∀ b ∈ mid, b.who = i → f (b.exchange I) = none := by
  induction log with
  | nil => cases h
  | cons e log ih =>
    by_cases hwho : e.who = i
    · rw [heard_cons_self hwho, List.findSome?_cons] at h
      cases htold : f (e.exchange I) with
      | some r' =>
        rw [htold] at h
        exact ⟨[], e, log, rfl, hwho, htold.trans h, by simp⟩
      | none =>
        rw [htold] at h
        obtain ⟨mid, a, before, rfl, ha, htold', hsilent⟩ := ih h
        exact ⟨e :: mid, a, before, rfl, ha, htold',
          List.forall_mem_cons.mpr ⟨fun _ => htold, hsilent⟩⟩
    · rw [heard_cons_of_ne hwho] at h
      obtain ⟨mid, a, before, rfl, ha, htold', hsilent⟩ := ih h
      exact ⟨e :: mid, a, before, rfl, ha, htold',
        List.forall_mem_cons.mpr ⟨fun he => absurd he hwho, hsilent⟩⟩

/-- What a program last learned still holds, if the program itself does not undo
it and it has asked again since anybody else did. -/
theorem Chained.holds_since_told {γ : Type} {f : ((β : Type) × Q β × β) → Option γ} {r : γ}
    {φ : σ → Prop} (hchained : Chained I s log) (hlast : (heard I i log).findSome? f = some r)
    (hread : ∀ a : Event Q σ ι, f (a.exchange I) = some r → φ (a.after I))
    (hown : ∀ b ∈ log, b.who = i → φ b.before → φ (b.after I))
    (hothers : ∀ mid b before, log = mid ++ b :: before → b.who ≠ i → φ b.before → ¬φ (b.after I) →
      ∃ a ∈ mid, a.who = i ∧ f (a.exchange I) ≠ none) : φ (stateAfter I s log) := by
  obtain ⟨mid, a, before, rfl, -, htold, hsilent⟩ := exists_of_heard_findSome? hlast
  by_contra hlost
  have hheld : φ (stateAfter I s (a :: before)) := hread a htold
  obtain ⟨b, hb, hholds, hbroken⟩ := hchained.exists_break hheld hlost
  by_cases hwho : b.who = i
  · exact hbroken (hown b (List.mem_append_left _ hb) hwho hholds)
  · obtain ⟨late, between, rfl⟩ := List.append_of_mem hb
    obtain ⟨a', ha', hwho', htold'⟩ := hothers late b (between ++ a :: before) (by simp) hwho hholds
      hbroken
    exact htold' (hsilent a' (List.mem_append_left _ ha') hwho')

end Log

/-! ### What a program asks, given what it was answered -/

namespace Program

variable {Q : Type → Type u} {ε α β : Type} {A : Heard Q → ∀ β, Q β → Prop} {h : Heard Q}

/-- Whatever it is answered, the program only issues queries that are right by
what it has heard, and returns only what is. -/
def Ensures (A : Heard Q → ∀ β, Q β → Prop) :
    Heard Q → Program Q ε α → (Heard Q → α → Prop) → Prop
  | h, .pure a, P => P h a
  | _, .fail _, _ => True
  | h, .query q k, P => A h _ q ∧ ∀ b, Ensures A (⟨_, q, b⟩ :: h) (k b) P

theorem Ensures.mono {p : Program Q ε α} {P P' : Heard Q → α → Prop}
    (hp : p.Ensures A h P) (himp : ∀ h' a, h ⊆ h' → P h' a → P' h' a) :
    Ensures A h p P' := by
  induction p generalizing h with
  | pure a => exact himp h a (List.Subset.refl h) hp
  | fail e => trivial
  | query q k ih =>
    exact ⟨hp.1, fun b => ih b (hp.2 b) fun h' a hsub =>
      himp h' a fun x hx => hsub (List.mem_cons_of_mem _ hx)⟩

/-- Whoever allows more allows what was allowed. -/
theorem Ensures.weaken {A' : Heard Q → ∀ β, Q β → Prop} {p : Program Q ε α}
    {P : Heard Q → α → Prop} (hp : Ensures A h p P)
    (himp : ∀ h β q, A h β q → A' h β q) : Ensures A' h p P := by
  induction p generalizing h with
  | pure a => exact hp
  | fail e => trivial
  | query q k ih => exact ⟨himp _ _ _ hp.1, fun b => ih b (hp.2 b)⟩

theorem Ensures.bind {p : Program Q ε α} {f : α → Program Q ε β} {M : Heard Q → α → Prop}
    {P : Heard Q → β → Prop} (hp : Ensures A h p M)
    (hf : ∀ h' a, h ⊆ h' → M h' a → Ensures A h' (f a) P) :
    Ensures A h (p.bind f) P := by
  induction p generalizing h with
  | pure a => exact hf h a (List.Subset.refl h) hp
  | fail e => trivial
  | query q k ih =>
    exact ⟨hp.1, fun b => ih b (hp.2 b) fun h' a hsub =>
      hf h' a fun x hx => hsub (List.mem_cons_of_mem _ hx)⟩

theorem Ensures.map {p : Program Q ε α} {f : α → β} {P : Heard Q → β → Prop}
    (hp : Ensures A h p fun h' a => P h' (f a)) : Ensures A h (f <$> p) P :=
  hp.bind fun _ _ _ ha => ha

theorem ensures_ofExcept {r : Except ε α} {P : Heard Q → α → Prop}
    (hr : ∀ a, r = .ok a → P h a) : Ensures A h (ofExcept r) P := by
  cases r with
  | ok a => exact hr a rfl
  | error e => trivial

theorem ensures_require {c : Prop} [Decidable c] {e : ε} {P : Heard Q → Unit → Prop}
    (hc : c → P h ()) : Ensures A h (require c e) P := by
  by_cases hyes : c
  · rw [require, if_pos hyes]
    exact hc hyes
  · rw [require, if_neg hyes]
    trivial

/-- Queries of a kind that is always right, none of which changes what is known,
leave it known. -/
theorem Emits.ensures_keeps {P : ∀ β, Q β → Prop} {K : Heard Q → Prop} {p : Program Q ε α}
    (hp : p.Emits P) (hok : ∀ h β q, P β q → A h β q)
    (hkeep : ∀ h β (q : Q β) b, P β q → K h → K (⟨β, q, b⟩ :: h)) (hK : K h) :
    Ensures A h p fun h' _ => K h' := by
  induction p generalizing h with
  | pure a => exact hK
  | fail e => trivial
  | query q k ih => exact ⟨hok h _ q hp.1, fun b => ih b (hp.2 b) (hkeep h _ q b hp.1 hK)⟩

/-- Queries that are right whatever was heard need no account of it. -/
theorem Emits.ensures {P : ∀ β, Q β → Prop} {p : Program Q ε α} (hp : p.Emits P)
    (hok : ∀ h β q, P β q → A h β q) : Ensures A h p fun _ _ => True :=
  hp.ensures_keeps hok (fun _ _ _ _ _ => id) trivial

/-- A program of which nothing is asked. -/
theorem ensures_of_forall {p : Program Q ε α} (hok : ∀ h β (q : Q β), A h β q) :
    Ensures A h p fun _ _ => True := by
  induction p generalizing h with
  | pure a => trivial
  | fail e => trivial
  | query q k ih => exact ⟨hok h _ q, fun b => ih b⟩

/-- The query the program issues next, unless it has come to its end. -/
def next : Program Q ε α → Option ((β : Type) × Q β)
  | .query q _ => some ⟨_, q⟩
  | _ => none

end Program

/-! ### Runs -/

section Runs

variable {Q : Type → Type u} {ε α σ : Type} {ι : Type v} [DecidableEq ι] {I : Interpretation Q σ}
  {g : ι → Program Q ε α} {s : σ} {c c' : Config Q ε α σ ι}

/-- One of the programs issues its next query. -/
inductive Turn (I : Interpretation Q σ) : Config Q ε α σ ι → Config Q ε α σ ι → Prop
  | query {c : Config Q ε α σ ι} {i : ι} {β : Type} {q : Q β} {k : β → Program Q ε α}
      (next : c.left i = .query q k) : Turn I c
        ⟨Function.update c.left i (k (I _ q c.state).1), (I _ q c.state).2,
          ⟨i, q, c.state⟩ :: c.log⟩

/-- What the programs `g` can come to from `s`, in whatever order they take
their turns. -/
def Interleaved (I : Interpretation Q σ) (g : ι → Program Q ε α) (s : σ) (c : Config Q ε α σ ι) :
    Prop :=
  Relation.ReflTransGen (Turn I) ⟨g, s, []⟩ c

theorem Interleaved.chained (h : Interleaved I g s c) :
    c.state = stateAfter I s c.log ∧ Chained I s c.log := by
  induction h with
  | refl => exact ⟨rfl, trivial⟩
  | tail _ hstep ih =>
    cases hstep with
    | query next => exact ⟨rfl, ih⟩

/-- An invariant of every query holds in every state a run meets. -/
theorem Interleaved.invariant {J : σ → Prop} (h : Interleaved I g s c) (hs : J s)
    (hJ : ∀ β (q : Q β) t, J t → J (I _ q t).2) : J c.state ∧ ∀ e ∈ c.log, J e.before := by
  induction h with
  | refl => exact ⟨hs, by simp⟩
  | tail _ hstep ih =>
    cases hstep with
    | query next => exact ⟨hJ _ _ _ ih.1, List.forall_mem_cons.mpr ⟨ih.1, ih.2⟩⟩

/-- What holds at the start and is kept by each event, given that it held at all
events before, holds throughout. -/
theorem Interleaved.induct {J : σ → Prop} (h : Interleaved I g s c) (hs : J s)
    (hstep : ∀ later e early, c.log = later ++ e :: early → J e.before →
      (∀ a ∈ early, J a.before) → J (e.after I)) : J c.state ∧ ∀ e ∈ c.log, J e.before := by
  obtain ⟨hstate, hchained⟩ := h.chained
  have hall : ∀ early later, c.log = later ++ early →
      J (stateAfter I s early) ∧ ∀ a ∈ early, J a.before := by
    intro early
    induction early with
    | nil => exact fun _ _ => ⟨hs, by simp⟩
    | cons e early ih =>
      intro later hlog
      obtain ⟨hbefore, hearly⟩ := ih (later ++ [e]) (by simp [hlog])
      have he : e.before = stateAfter I s early := (hlog ▸ hchained).before
      rw [← he] at hbefore
      exact ⟨hstep later e early hlog hbefore hearly, List.forall_mem_cons.mpr ⟨hbefore, hearly⟩⟩
  rw [hstate]
  exact hall c.log [] rfl

/-- In a run, every program is at a point that what it heard allows, has returned
only what is right by it, and every query it issued was right by what it had
heard by then. -/
theorem Interleaved.ensures {A : ι → Heard Q → ∀ β, Q β → Prop} {P : ι → Heard Q → α → Prop}
    (h : Interleaved I g s c) (hstart : ∀ i, (g i).Ensures (A i) [] (P i)) :
    (∀ i, (c.left i).Ensures (A i) (heard I i c.log) (P i)) ∧
      ∀ later e early, c.log = later ++ e :: early → A e.who (heard I e.who early) _ e.query := by
  induction h with
  | refl => exact ⟨hstart, by simp⟩
  | @tail c _ _ hstep ih =>
    cases hstep with
    | @query i β q k next =>
      obtain ⟨hleft, hlog⟩ := ih
      have hi := hleft i
      rw [next] at hi
      refine ⟨fun j => ?_, fun later e early heq => ?_⟩
      · dsimp only
        by_cases hj : j = i
        · subst hj
          rw [Function.update_self, heard_cons_self (e := ⟨j, q, c.state⟩) rfl]
          exact hi.2 _
        · rw [Function.update_of_ne hj, heard_cons_of_ne (e := ⟨i, q, c.state⟩) (Ne.symm hj)]
          exact hleft j
      · cases later with
        | nil =>
          obtain ⟨rfl, rfl⟩ := List.cons.inj heq
          exact hi.1
        | cons e' later => exact hlog later e early (List.cons.inj heq).2

/-! ### Schedules -/

theorem Interleaved.initial : Interleaved I g s ⟨g, s, []⟩ := .refl

/-- A program that has not come to its end may take a turn. -/
theorem Interleaved.turn (h : Interleaved I g s c) {i : ι} (hnext : (c.left i).next.isSome = true) :
    ∃ e : Event Q σ ι, e.who = i ∧ e.before = c.state ∧
      e.after I = ((c.left i).advance I 1 c.state).2 ∧
      Interleaved I g s ⟨Function.update c.left i ((c.left i).advance I 1 c.state).1,
        ((c.left i).advance I 1 c.state).2, e :: c.log⟩ := by
  cases hi : c.left i with
  | pure a => simp [hi, Program.next] at hnext
  | fail e => simp [hi, Program.next] at hnext
  | @query β q k =>
    rw [Program.advance_query, Program.advance_zero]
    exact ⟨⟨i, q, c.state⟩, rfl, rfl, rfl, Relation.ReflTransGen.tail h (Turn.query hi)⟩

/-- A run may open with two turns of one program. -/
theorem Interleaved.opening {i : ι} (hfirst : (g i).next.isSome = true)
    (hsecond : ((g i).advance I 1 s).1.next.isSome = true) :
    ∃ e₁ e₂ : Event Q σ ι, ∃ c, Interleaved I g s c ∧ c.log = [e₂, e₁] ∧ e₁.who = i ∧ e₂.who = i ∧
      e₁.before = s ∧ e₂.before = ((g i).advance I 1 s).2 ∧ c.state = e₂.after I := by
  obtain ⟨e₁, hwho₁, hbefore₁, -, hrun₁⟩ :=
    (Interleaved.initial (I := I) (g := g) (s := s)).turn hfirst
  obtain ⟨e₂, hwho₂, hbefore₂, hafter₂, hrun₂⟩ := hrun₁.turn (i := i) (by
    dsimp only
    rwa [Function.update_self])
  exact ⟨e₁, e₂, _, hrun₂, rfl, hwho₁, hwho₂, hbefore₁, hbefore₂, hafter₂.symm⟩

/-- One program may take as many turns in a row as it likes. -/
theorem Interleaved.advance (h : Interleaved I g s c) (i : ι) (n : Nat) :
    ∃ later, Interleaved I g s ⟨Function.update c.left i ((c.left i).advance I n c.state).1,
      ((c.left i).advance I n c.state).2, later ++ c.log⟩ := by
  induction n generalizing c with
  | zero =>
    refine ⟨[], ?_⟩
    rw [Program.advance_zero, Function.update_eq_self]
    exact h
  | succ n ih =>
    cases hi : c.left i with
    | pure a =>
      refine ⟨[], ?_⟩
      rw [Program.advance_pure, ← hi, Function.update_eq_self]
      exact h
    | fail e =>
      refine ⟨[], ?_⟩
      rw [Program.advance_fail, ← hi, Function.update_eq_self]
      exact h
    | query q k =>
      obtain ⟨later, hrest⟩ := ih (Relation.ReflTransGen.tail h (Turn.query hi))
      refine ⟨later ++ [⟨i, q, c.state⟩], ?_⟩
      simpa using hrest

/-- The configuration after a number of turns of one program, or after its last. -/
def Config.advance (I : Interpretation Q σ) (i : ι) :
    Nat → Config Q ε α σ ι → Config Q ε α σ ι
  | 0, c => c
  | n + 1, c =>
    match c.left i with
    | .query q k => Config.advance I i n
        ⟨Function.update c.left i (k (I _ q c.state).1), (I _ q c.state).2,
          ⟨i, q, c.state⟩ :: c.log⟩
    | _ => c

theorem Interleaved.scheduled (h : Interleaved I g s c) (i : ι) (n : Nat) :
    Interleaved I g s (c.advance I i n) := by
  induction n generalizing c with
  | zero => exact h
  | succ n ih =>
    unfold Config.advance
    split
    · rename_i hnext
      exact ih (Relation.ReflTransGen.tail h (Turn.query hnext))
    · exact h

/-- One program stops part of the way, another overtakes it, and the first goes
on where it was. -/
theorem Interleaved.overtaken {i j : ι} (hne : i ≠ j) (n m : Nat)
    (hnext : ((g i).advance I n s).1.next.isSome = true) :
    let before := ((g j).advance I m ((g i).advance I n s).2).2
    ∃ e : Event Q σ ι, ∃ c, Interleaved I g s c ∧ e ∈ c.log ∧ e.who = i ∧ e.before = before ∧
      e.after I = (((g i).advance I n s).1.advance I 1 before).2 ∧ c.state = e.after I := by
  obtain ⟨log₁, hfirst⟩ := (Interleaved.initial (I := I) (g := g) (s := s)).advance i n
  obtain ⟨log₂, hsecond⟩ := hfirst.advance j m
  simp only [Function.update_of_ne hne.symm] at hsecond
  obtain ⟨e, hwho, hbefore, hafter, hthird⟩ := hsecond.turn (i := i) (by
    simpa only [Function.update_of_ne hne, Function.update_self] using hnext)
  simp only [Function.update_of_ne hne, Function.update_self] at hafter hthird
  exact ⟨e, _, hthird, List.mem_cons_self, hwho, hbefore, hafter, hafter.symm⟩

end Runs
