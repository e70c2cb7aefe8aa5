import HookExecutor.Lib.Text

/-!
# Replacing text

What `replaceChars` does to a sequence with a separator that the pattern does
not contain, to one without an occurrence, and when it changes nothing at all.
-/

namespace Text

section Replace

variable {pattern replacement cs ds : List Char} {sep : Char}

/-- An occurrence cannot reach past a separator. -/
theorem isPrefixOf_append_cons (hsep : sep ∉ pattern) :
    pattern.isPrefixOf (cs ++ sep :: ds) = pattern.isPrefixOf cs := by
  induction pattern generalizing cs with
  | nil => simp
  | cons p pattern ih =>
    have hp : p ≠ sep := fun h => hsep (by simp [h])
    have htail : sep ∉ pattern := fun h => hsep (List.mem_cons_of_mem _ h)
    cases cs with
    | nil =>
      change (p == sep && pattern.isPrefixOf ds) = false
      rw [beq_eq_false_iff_ne.mpr hp, Bool.false_and]
    | cons c cs => simp only [List.cons_append, List.isPrefixOf_cons_cons, ih htail]

theorem length_le_of_isPrefixOf (h : pattern.isPrefixOf cs = true) :
    pattern.length ≤ cs.length :=
  (List.isPrefixOf_iff_prefix.mp h).length_le

private theorem replaceChars_append_cons_skip (hne : pattern ≠ []) (hsep : sep ∉ pattern)
    {skip : Nat} (hskip : skip ≤ cs.length) :
    replaceChars pattern replacement skip (cs ++ sep :: ds) =
      replaceChars pattern replacement skip cs ++
        sep :: replaceChars pattern replacement 0 ds := by
  induction cs generalizing skip with
  | nil =>
    obtain rfl : skip = 0 := Nat.le_zero.mp hskip
    have hprefix : pattern.isPrefixOf (sep :: ds) = false := by
      rw [← List.nil_append (sep :: ds), isPrefixOf_append_cons hsep]
      cases pattern with
      | nil => exact absurd rfl hne
      | cons p pattern => rfl
    simp [replaceChars, hprefix]
  | cons c cs ih =>
    cases skip with
    | succ skip =>
      simp only [List.cons_append, replaceChars]
      exact ih (by simpa using hskip)
    | zero =>
      have hreach : pattern.isPrefixOf (c :: (cs ++ sep :: ds)) = pattern.isPrefixOf (c :: cs) := by
        rw [← List.cons_append]
        exact isPrefixOf_append_cons hsep
      simp only [List.cons_append, replaceChars, hreach]
      split
      · next hprefix =>
        have hlength := length_le_of_isPrefixOf hprefix
        rw [List.length_cons] at hlength
        rw [ih (by omega), List.append_assoc]
      · rw [ih (Nat.zero_le _), List.cons_append]

/-- Replacement works on what stands before a separator and on what stands
after it. -/
theorem replaceChars_append_cons (hne : pattern ≠ []) (hsep : sep ∉ pattern) :
    replaceChars pattern replacement 0 (cs ++ sep :: ds) =
      replaceChars pattern replacement 0 cs ++
        sep :: replaceChars pattern replacement 0 ds :=
  replaceChars_append_cons_skip hne hsep (Nat.zero_le _)

theorem replaceChars_skip_length {k : Nat} (h : cs.length ≤ k) :
    replaceChars pattern replacement k cs = [] := by
  induction cs generalizing k with
  | nil => cases k <;> rfl
  | cons c cs ih =>
    cases k with
    | zero => simp at h
    | succ k => exact ih (by simpa using h)

/-- The pattern itself becomes the replacement. -/
theorem replaceChars_pattern (hne : pattern ≠ []) :
    replaceChars pattern replacement 0 pattern = replacement := by
  cases pattern with
  | nil => exact absurd rfl hne
  | cons p pattern =>
    have hself : (p :: pattern).isPrefixOf (p :: pattern) = true :=
      List.isPrefixOf_iff_prefix.mpr (List.prefix_refl _)
    simp only [replaceChars, hself, if_true]
    rw [replaceChars_skip_length (by simp), List.append_nil]

/-- Without an occurrence nothing changes. -/
theorem replaceChars_of_absent (h : ¬pattern <:+: cs) :
    replaceChars pattern replacement 0 cs = cs := by
  induction cs with
  | nil => rfl
  | cons c cs ih =>
    have hprefix : pattern.isPrefixOf (c :: cs) ≠ true := fun hp =>
      h (List.isPrefixOf_iff_prefix.mp hp).isInfix
    have htail : ¬pattern <:+: cs := fun ht => h (ht.trans (List.suffix_cons c cs).isInfix)
    rw [replaceChars, if_neg hprefix, ih htail]

/-- A letter the pattern does not contain is never lost. -/
theorem count_le_count_replaceChars (hne : pattern ≠ []) (hsep : sep ∉ pattern) (skip : Nat)
    (hskip : sep ∉ cs.take skip) :
    cs.count sep ≤ (replaceChars pattern replacement skip cs).count sep := by
  induction cs generalizing skip with
  | nil => simp
  | cons c cs ih =>
    cases skip with
    | succ skip =>
      rw [List.take_succ_cons, List.mem_cons, not_or] at hskip
      rw [List.count_cons_of_ne (Ne.symm hskip.1)]
      exact ih skip hskip.2
    | zero =>
      rw [replaceChars]
      split
      · next hprefix =>
        obtain ⟨rest, hrest⟩ := List.isPrefixOf_iff_prefix.mp hprefix
        obtain ⟨p, tail, rfl⟩ := List.exists_cons_of_ne_nil hne
        rw [List.cons_append] at hrest
        obtain ⟨rfl, rfl⟩ := List.cons.inj hrest
        have hp : sep ≠ p := fun h => hsep (by simp [h])
        have htake : sep ∉ (tail ++ rest).take ((p :: tail).length - 1) := by
          rw [List.length_cons, Nat.add_sub_cancel, List.take_left]
          exact fun hmem => hsep (List.mem_cons_of_mem _ hmem)
        rw [List.count_cons_of_ne (Ne.symm hp)]
        refine Nat.le_trans (ih _ htake) ?_
        rw [List.count_append]
        exact Nat.le_add_left _ _
      · have htail := ih 0 (by simp)
        by_cases hc : c = sep
        · subst hc
          simp only [List.count_cons_self]
          omega
        · rw [List.count_cons_of_ne hc, List.count_cons_of_ne hc]
          exact htail

end Replace

/-- Two sequences with as many separators before the one they are taken apart
at have the same parts. -/
theorem append_cons_inj_of_count_eq {α : Type} [DecidableEq α] {x y u v : List α} {a : α}
    (hcount : x.count a = y.count a) (h : x ++ a :: u = y ++ a :: v) : x = y ∧ u = v := by
  induction x generalizing y with
  | nil =>
    cases y with
    | nil => exact ⟨rfl, (List.cons.inj h).2⟩
    | cons b y =>
      obtain ⟨rfl, -⟩ := List.cons.inj h
      simp at hcount
  | cons c x ih =>
    cases y with
    | nil =>
      obtain ⟨rfl, -⟩ := List.cons.inj h
      simp at hcount
    | cons b y =>
      obtain ⟨rfl, htail⟩ := List.cons.inj h
      obtain ⟨rfl, rfl⟩ := ih (by simpa [List.count_cons] using hcount) htail
      exact ⟨rfl, rfl⟩

end Text
