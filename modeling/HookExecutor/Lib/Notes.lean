import Mathlib.Data.List.Nodup
import HookExecutor.Lib.Interleaving
import HookExecutor.Lib.Ledger

/-!
# Notes

Some exchanges of a program are worth a note. A program that takes at most one
note, and takes it only once it has heard enough, can be composed from parts that
take none; where such programs run together, the journal of their notes has at
most one entry for each. A state that holds a copy of the journal holds it in the
order of the run, each entry as it was noted or older.
-/

universe u v w

namespace Program

variable {Q : Type → Type u} {ε α : Type} {ν : Type w} {f : ((β : Type) × Q β × β) → Option ν}
  {S : Heard Q → ν → Prop} {h : Heard Q}

/-- However it is answered, the query is not worth a note. -/
def Unnoted (f : ((β : Type) × Q β × β) → Option ν) (β : Type) (q : Q β) : Prop :=
  ∀ b, f ⟨β, q, b⟩ = none

/-- A note is the first, and right by what was heard before. -/
def NotesOnce (f : ((β : Type) × Q β × β) → Option ν) (S : Heard Q → ν → Prop)
    (h : Heard Q) (β : Type) (q : Q β) : Prop :=
  ∀ b n, f ⟨β, q, b⟩ = some n → h.filterMap f = [] ∧ S h n

theorem Unnoted.notesOnce {β : Type} {q : Q β} (hq : Unnoted f β q) : NotesOnce f S h β q := by
  intro b n hn
  rw [hq b] at hn
  cases hn

/-- A part that takes no note leaves the notes as they are. -/
theorem Emits.unnoted {p : Program Q ε α} (hp : p.Emits (Unnoted f)) :
    p.Ensures (NotesOnce f S) h fun h' _ => h'.filterMap f = h.filterMap f := by
  refine hp.ensures_keeps (K := fun h' => h'.filterMap f = h.filterMap f)
    (fun _ _ _ hq => hq.notesOnce) (fun h' β q b hq hkept => ?_) rfl
  rw [List.filterMap_cons_none (hq b)]
  exact hkept

end Program

section Journal

variable {Q : Type → Type u} {ε α σ : Type} {ι : Type v} {ν : Type w} {I : Interpretation Q σ}
  {f : ((β : Type) × Q β × β) → Option ν} {log : List (Event Q σ ι)} {i : ι} {n : ν} {s : σ}

/-- The notes of a log, oldest first, each with who took it. -/
def journal (I : Interpretation Q σ) (f : ((β : Type) × Q β × β) → Option ν) :
    List (Event Q σ ι) → List (ι × ν)
  | [] => []
  | e :: early => journal I f early ++ ((f (e.exchange I)).map fun n => (e.who, n)).toList

theorem mem_journal : (i, n) ∈ journal I f log ↔ ∃ later e early,
    log = later ++ e :: early ∧ e.who = i ∧ f (e.exchange I) = some n := by
  induction log with
  | nil => simp [journal]
  | cons e early ih =>
    rw [journal, List.mem_append, ih, Option.mem_toList, Option.map_eq_some_iff]
    constructor
    · rintro (⟨later, a, early', rfl, hwho, hnote⟩ | ⟨n', hnote, heq⟩)
      · exact ⟨e :: later, a, early', rfl, hwho, hnote⟩
      · obtain ⟨hwho, rfl⟩ := Prod.mk.inj heq
        exact ⟨[], e, early, rfl, hwho, hnote⟩
    · rintro ⟨later, a, early', hlog, hwho, hnote⟩
      cases later with
      | nil =>
        obtain ⟨rfl, rfl⟩ := List.cons.inj hlog
        exact .inr ⟨n, hnote, by rw [hwho]⟩
      | cons a' later => exact .inl ⟨later, a, early', (List.cons.inj hlog).2, hwho, hnote⟩

/-- Each of the programs has noted what it heard that is worth it. -/
theorem mem_journal_iff_heard [DecidableEq ι] :
    (i, n) ∈ journal I f log ↔ n ∈ (heard I i log).filterMap f := by
  rw [mem_journal, List.mem_filterMap]
  constructor
  · rintro ⟨later, e, early, rfl, hwho, hnote⟩
    exact ⟨_, mem_heard.mpr ⟨e, by simp, hwho, rfl⟩, hnote⟩
  · rintro ⟨a, ha, hnote⟩
    obtain ⟨e, he, hwho, rfl⟩ := mem_heard.mp ha
    obtain ⟨later, early, hlog⟩ := List.append_of_mem he
    exact ⟨later, e, early, hlog, hwho, hnote⟩

/-- Who has noted nothing has no entry. -/
theorem notMem_journal [DecidableEq ι] (h : (heard I i log).filterMap f = []) :
    i ∉ (journal I f log).map (·.1) := by
  intro hi
  obtain ⟨⟨i', n⟩, hmem, rfl⟩ := List.mem_map.mp hi
  rw [mem_journal_iff_heard, h] at hmem
  cases hmem

/-- A state that takes a copy of every note has them in order, each as it was
noted or older. -/
theorem Chained.copies (rows : σ → List ν) (ages : ν → ν → Prop) (h : Chained I s log)
    (refl : ∀ n, ages n n) (trans : ∀ {a b c}, ages a b → ages b c → ages a c)
    (hstep : ∀ e ∈ log, List.Forall₂ ages (rows e.before ++ (f (e.exchange I)).toList)
      (rows (e.after I))) :
    List.Forall₂ ages (rows s ++ (journal I f log).map (·.2)) (rows (stateAfter I s log)) := by
  induction log with
  | nil => simpa [journal, stateAfter] using List.forall₂_same.mpr fun n _ => refl n
  | cons e early ih =>
    have hearly := ih h.2 fun a ha => hstep a (List.mem_cons_of_mem _ ha)
    rw [← h.1] at hearly
    have hnotes : (journal I f (e :: early)).map (·.2) =
        (journal I f early).map (·.2) ++ (f (e.exchange I)).toList := by
      rw [journal, List.map_append]
      cases f (e.exchange I) <;> rfl
    have hmid : List.Forall₂ ages
        ((rows s ++ (journal I f early).map (·.2)) ++ (f (e.exchange I)).toList)
        (rows e.before ++ (f (e.exchange I)).toList) :=
      List.rel_append hearly (List.forall₂_same.mpr fun n _ => refl n)
    rw [hnotes, ← List.append_assoc]
    refine hmid.comp ?_ (hstep e List.mem_cons_self)
    exact fun _ _ _ => trans

end Journal

section Runs

variable {Q : Type → Type u} {ε α σ : Type} {ι : Type v} {ν : Type w} [DecidableEq ι]
  {I : Interpretation Q σ} {g : ι → Program Q ε α} {s : σ} {c : Config Q ε α σ ι}
  {f : ((β : Type) × Q β × β) → Option ν} {S : ι → Heard Q → ν → Prop}
  {P : ι → Heard Q → α → Prop}

/-- Programs that take at most one note each have at most one entry each, and
every entry is right by what its author had heard. -/
theorem Interleaved.noted (hrun : Interleaved I g s c)
    (hstart : ∀ i, (g i).Ensures (Program.NotesOnce f (S i)) [] (P i)) :
    ((journal I f c.log).map (·.1)).Nodup ∧
      ∀ later e early n, c.log = later ++ e :: early → f (e.exchange I) = some n →
        S e.who (heard I e.who early) n := by
  have hissued := (hrun.ensures hstart).2
  refine ⟨?_, fun later e early n hlog hnote => (hissued later e early hlog _ n hnote).2⟩
  have hnodup : ∀ early later, c.log = later ++ early →
      ((journal I f early).map (·.1)).Nodup := by
    intro early
    induction early with
    | nil => exact fun _ _ => List.nodup_nil
    | cons e early ih =>
      intro later hlog
      have hearly := ih (later ++ [e]) (by simp [hlog])
      cases hnote : f (e.exchange I) with
      | none => simpa [journal, hnote] using hearly
      | some n =>
        have hfirst := notMem_journal (hissued later e early hlog _ n hnote).1
        rw [journal, hnote, List.map_append]
        refine List.nodup_append'.mpr ⟨hearly, List.nodup_singleton _, ?_⟩
        simpa using hfirst
  exact hnodup c.log [] rfl

/-- One of the programs may be run to its end. -/
theorem Interleaved.finished (hrun : Interleaved I g s c) (i : ι) :
    ∃ c', Interleaved I g s c' ∧ c'.left i = .ofExcept ((c.left i).run I c.state).1 ∧
      c'.state = ((c.left i).run I c.state).2 := by
  generalize hleft : c.left i = p
  induction p generalizing c with
  | pure a => exact ⟨c, hrun, hleft, rfl⟩
  | fail e => exact ⟨c, hrun, hleft, rfl⟩
  | query q k ih =>
    exact ih _ (Relation.ReflTransGen.tail hrun (Turn.query hleft)) (Function.update_self ..)

end Runs
