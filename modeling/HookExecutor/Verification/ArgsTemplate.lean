import HookExecutor.Executor.Plan
import HookExecutor.Api.Hooks

/-!
# Argument templates

Two scanners read the references of a template: one over the whole of it when
the hook is defined, one over each of its words when the hook runs. Both are
compared with a grammar, in which a text is a sequence of characters to keep and
of references. What a word expands to is the text of its reading, and no value
is ever read.
-/

namespace HookExecutor.Executor

open Text

/-! ### Readings -/

inductive Piece where
  | literal (c : Char)
  | reference (name : List Char)
  deriving DecidableEq

def IsIdentifier (name : List Char) : Prop :=
  (∃ c cs, name = c :: cs ∧ isIdentStart c = true) ∧ ∀ c ∈ name, isIdentChar c = true

/-- What follows a `$` makes it a reference, closed or not. -/
def OpensReference (cs : List Char) : Prop :=
  ∃ c, cs.head? = some c ∧ (c = '{' ∨ isIdentStart c = true)

/-- A text read as characters and references. There is no reading of a brace
that is never closed. -/
inductive Reads : List Char → List Piece → Prop
  | done : Reads [] []
  | char {c : Char} {cs : List Char} {pieces : List Piece} (plain : c ≠ '$')
      (rest : Reads cs pieces) :
      Reads (c :: cs) (.literal c :: pieces)
  | dollar {cs : List Char} {pieces : List Piece} (stray : ¬OpensReference cs)
      (rest : Reads cs pieces) : Reads ('$' :: cs) (.literal '$' :: pieces)
  | braced {name cs : List Char} {pieces : List Piece} (closes : '}' ∉ name)
      (rest : Reads cs pieces) :
      Reads ('$' :: '{' :: (name ++ '}' :: cs)) (.reference name :: pieces)
  | bare {name cs : List Char} {pieces : List Piece} (identifier : IsIdentifier name)
      (ends : ∀ c, cs.head? = some c → isIdentChar c = false) (rest : Reads cs pieces) :
      Reads ('$' :: (name ++ cs)) (.reference name :: pieces)

def Piece.name? : Piece → Option String
  | .literal _ => none
  | .reference name => some (String.ofList name)

/-- The names a reading references, in order. -/
def references (pieces : List Piece) : List String := pieces.filterMap Piece.name?

/-! ### The scanners -/

theorem brace_not_identStart : isIdentStart '{' = false := by decide

theorem isIdentChar_of_isIdentStart {c : Char} (h : isIdentStart c = true) :
    isIdentChar c = true := by
  simp only [isIdentStart, isIdentChar, isAsciiAlphanumeric, Bool.or_eq_true] at h ⊢
  obtain h | h := h
  · exact .inl (.inl h)
  · exact .inr h

theorem takeWhile_append {p : Char → Bool} (xs ys : List Char) (hxs : ∀ c ∈ xs, p c = true)
    (hys : ∀ c, ys.head? = some c → p c = false) : (xs ++ ys).takeWhile p = xs := by
  rw [List.takeWhile_append_of_pos hxs]
  cases ys with
  | nil => simp
  | cons y ys => simp [hys y rfl]

/-- What the scanners see after the `$` of a closed reference in braces. -/
theorem referenceAfterDollar_braced {name : List Char} (h : '}' ∉ name) (cs : List Char) :
    referenceAfterDollar ('{' :: (name ++ '}' :: cs)) = .braced name true := by
  have hname : (name ++ '}' :: cs).takeWhile (· != '}') = name := by
    refine takeWhile_append _ _ (fun c hc => ?_) (fun c hc => ?_)
    · exact bne_iff_ne.mpr fun heq => h (heq ▸ hc)
    · rw [← Option.some.inj hc]
      rfl
  simp only [referenceAfterDollar, hname, List.length_append, List.length_cons]
  congr
  simp

theorem referenceAfterDollar_unclosed {post : List Char} (h : '}' ∉ post) :
    referenceAfterDollar ('{' :: post) = .braced post false := by
  have hname : post.takeWhile (· != '}') = post := by
    have htake := takeWhile_append (p := (· != '}')) post []
      (fun c hc => bne_iff_ne.mpr fun heq => h (heq ▸ hc)) (fun c hc => by cases hc)
    rwa [List.append_nil] at htake
  simp only [referenceAfterDollar, hname]
  congr
  simp

theorem referenceAfterDollar_bare {name cs : List Char} (h : IsIdentifier name)
    (hends : ∀ c, cs.head? = some c → isIdentChar c = false) :
    referenceAfterDollar (name ++ cs) = .bare name := by
  have htake := takeWhile_append _ _ h.2 hends
  obtain ⟨c, rest, rfl, hstart⟩ := h.1
  have hbrace : c ≠ '{' := by
    rintro rfl
    rw [brace_not_identStart] at hstart
    cases hstart
  rw [List.cons_append] at htake ⊢
  simp only [referenceAfterDollar, hstart, htake, if_true]

theorem referenceAfterDollar_literal {cs : List Char} (h : ¬OpensReference cs) :
    referenceAfterDollar cs = .literal := by
  cases cs with
  | nil => rfl
  | cons c cs =>
    have hbrace : c ≠ '{' := fun hc => h ⟨c, rfl, .inl hc⟩
    have hstart : ¬isIdentStart c = true := fun hc => h ⟨c, rfl, .inr hc⟩
    simp only [referenceAfterDollar]
    rw [if_neg hstart]

/-- What a text with a reading begins with. -/
theorem Reads.cases_dollar {cs : List Char} {pieces : List Piece} (h : Reads ('$' :: cs) pieces) :
    (¬OpensReference cs ∧ ∃ rest, Reads cs rest ∧ pieces = .literal '$' :: rest) ∨
    (∃ name post rest, '}' ∉ name ∧ cs = '{' :: (name ++ '}' :: post) ∧ Reads post rest ∧
      pieces = .reference name :: rest) ∨
    ∃ name post rest, IsIdentifier name ∧
      (∀ c, post.head? = some c → isIdentChar c = false) ∧ cs = name ++ post ∧
      Reads post rest ∧ pieces = .reference name :: rest := by
  generalize htext : '$' :: cs = text at h
  cases h with
  | done => cases htext
  | char plain _ => exact absurd (List.cons.inj htext).1.symm plain
  | dollar stray rest =>
    obtain ⟨-, rfl⟩ := List.cons.inj htext
    exact .inl ⟨stray, _, rest, rfl⟩
  | braced closes rest =>
    obtain ⟨-, rfl⟩ := List.cons.inj htext
    exact .inr (.inl ⟨_, _, _, closes, rfl, rest, rfl⟩)
  | bare identifier ends rest =>
    obtain ⟨-, rfl⟩ := List.cons.inj htext
    exact .inr (.inr ⟨_, _, _, identifier, ends, rfl, rest, rfl⟩)

/-- A text has one reading at most. -/
theorem Reads.unique {cs : List Char} {pieces other : List Piece} (h : Reads cs pieces)
    (hother : Reads cs other) : other = pieces := by
  induction h generalizing other with
  | done => cases hother; rfl
  | @char c cs pieces plain _ ih =>
    cases hother with
    | char _ rest => rw [ih rest]
    | dollar => exact absurd rfl plain
    | braced => exact absurd rfl plain
    | bare => exact absurd rfl plain
  | @dollar cs pieces stray _ ih =>
    obtain ⟨-, rest, hrest, rfl⟩ | ⟨name, post, rest, hcloses, rfl, -⟩ |
        ⟨name, post, rest, hid, hends, rfl, -⟩ := hother.cases_dollar
    · rw [ih hrest]
    · exact absurd ⟨_, rfl, .inl rfl⟩ stray
    · have := referenceAfterDollar_bare hid hends
      rw [referenceAfterDollar_literal stray] at this
      cases this
  | @braced name cs pieces closes _ ih =>
    have hthis := referenceAfterDollar_braced closes cs
    obtain ⟨stray, -⟩ | ⟨name', post, rest, hcloses, hcs, hrest, rfl⟩ |
        ⟨name', post, rest, hid, hends, hcs, -⟩ := hother.cases_dollar
    · exact absurd ⟨_, rfl, .inl rfl⟩ stray
    · have hsame := hthis
      rw [hcs, referenceAfterDollar_braced hcloses] at hsame
      obtain rfl : name' = name := by injection hsame
      simp only [List.cons.injEq, true_and, List.append_cancel_left_eq] at hcs
      rw [← hcs] at hrest
      rw [ih hrest]
    · rw [hcs, referenceAfterDollar_bare hid hends] at hthis
      cases hthis
  | @bare name cs pieces identifier ends _ ih =>
    have hthis := referenceAfterDollar_bare identifier ends
    obtain ⟨stray, -⟩ | ⟨name', post, rest, hcloses, hcs, -⟩ |
        ⟨name', post, rest, hid, hends, hcs, hrest, rfl⟩ := hother.cases_dollar
    · rw [referenceAfterDollar_literal stray] at hthis
      cases hthis
    · rw [hcs, referenceAfterDollar_braced hcloses] at hthis
      cases hthis
    · have hsame := hthis
      rw [hcs, referenceAfterDollar_bare hid hends] at hsame
      obtain rfl : name' = name := by injection hsame
      rw [List.append_cancel_left_eq] at hcs
      rw [← hcs] at hrest
      rw [ih hrest]

theorem templateNames_skip (xs ys : List Char) :
    templateNames xs.length (xs ++ ys) = templateNames 0 ys := by
  induction xs with
  | nil => rfl
  | cons x xs ih => simpa only [List.length_cons, List.cons_append, templateNames] using ih

/-- The scan of a text that can be read finds the names of the reading, but for
the empty one. -/
theorem Reads.templateNames_eq {cs : List Char} {pieces : List Piece} (h : Reads cs pieces) :
    templateNames 0 cs = (references pieces).filter (· ≠ "") := by
  induction h with
  | done => rfl
  | char plain _ ih =>
    rw [templateNames, if_pos plain, ih]
    rfl
  | dollar stray _ ih =>
    rw [templateNames, if_neg (by simp), referenceAfterDollar_literal stray]
    exact ih
  | @braced name cs pieces closes _ ih =>
    have hskip : templateNames (name.length + 2) ('{' :: (name ++ '}' :: cs)) =
        templateNames 0 cs := by
      have := templateNames_skip ('{' :: (name ++ ['}'])) cs
      simpa using this
    rw [templateNames, if_neg (by simp), referenceAfterDollar_braced closes]
    dsimp only
    rw [hskip, ih]
    cases name with
    | nil => rfl
    | cons c name => simp [references, Piece.name?]
  | @bare name cs pieces identifier ends _ ih =>
    rw [templateNames, if_neg (by simp), referenceAfterDollar_bare identifier ends]
    dsimp only
    rw [templateNames_skip, ih]
    obtain ⟨c, rest, rfl, -⟩ := identifier.1
    simp [references, Piece.name?]

/-! ### Expansion -/

/-- One reference after the other resolved, and what the reading comes to. -/
def expandPieces (token : String) (values : List (String × String)) :
    List Piece → Except ScriptError (List Char)
  | [] => .ok []
  | .literal c :: pieces => (c :: ·) <$> expandPieces token values pieces
  | .reference name :: pieces => do
    let value ← substituteReference token values (String.ofList name)
    let rest ← expandPieces token values pieces
    .ok (value ++ rest)

theorem substituteChars_skip (token : String) (values : List (String × String))
    (xs ys : List Char) : substituteChars token values xs.length (xs ++ ys) =
      substituteChars token values 0 ys := by
  induction xs with
  | nil => rfl
  | cons x xs ih => simpa only [List.length_cons, List.cons_append, substituteChars] using ih

/-- A word that can be read is expanded by looking up the names of its reading,
in order, whatever the values are. -/
theorem Reads.substituteChars_eq {cs : List Char} {pieces : List Piece} (h : Reads cs pieces)
    (token : String) (values : List (String × String)) :
    substituteChars token values 0 cs = expandPieces token values pieces := by
  induction h with
  | done => rfl
  | char plain _ ih =>
    rw [substituteChars, if_pos plain, ih]
    rfl
  | dollar stray _ ih =>
    rw [substituteChars, if_neg (by simp), referenceAfterDollar_literal stray]
    dsimp only
    rw [ih]
    rfl
  | @braced name cs pieces closes _ ih =>
    have hskip : substituteChars token values (name.length + 2) ('{' :: (name ++ '}' :: cs)) =
        substituteChars token values 0 cs := by
      have := substituteChars_skip token values ('{' :: (name ++ ['}'])) cs
      simpa using this
    rw [substituteChars, if_neg (by simp), referenceAfterDollar_braced closes]
    dsimp only
    rw [hskip, ih]
    rfl
  | @bare name cs pieces identifier ends _ ih =>
    rw [substituteChars, if_neg (by simp), referenceAfterDollar_bare identifier ends]
    dsimp only
    rw [substituteChars_skip, ih]
    rfl

/-! ### Where a reading comes from -/

/-- A text is empty, or starts in one of five ways; all but the brace that is
never closed leave a rest to go on with. -/
theorem scan_cases (cs : List Char) :
    cs = [] ∨ (∃ c rest, cs = c :: rest ∧ c ≠ '$') ∨
      (∃ rest, cs = '$' :: rest ∧ ¬OpensReference rest) ∨
      (∃ name rest, cs = '$' :: '{' :: (name ++ '}' :: rest) ∧ '}' ∉ name) ∨
      (∃ post, cs = '$' :: '{' :: post ∧ '}' ∉ post) ∨
      ∃ name rest, cs = '$' :: (name ++ rest) ∧ IsIdentifier name ∧
        ∀ c, rest.head? = some c → isIdentChar c = false := by
  cases cs with
  | nil => exact .inl rfl
  | cons c rest =>
    by_cases hc : c = '$'
    · subst hc
      by_cases hopens : OpensReference rest
      · obtain ⟨d, hd, hd'⟩ := hopens
        cases rest with
        | nil => cases hd
        | cons d' rest =>
          obtain rfl := Option.some.inj hd
          by_cases hbrace : d' = '{'
          · subst hbrace
            by_cases hclosed : '}' ∈ rest
            · obtain ⟨name, after, rfl, hname⟩ := List.eq_append_cons_of_mem hclosed
              exact .inr (.inr (.inr (.inl ⟨name, after, rfl, hname⟩)))
            · exact .inr (.inr (.inr (.inr (.inl ⟨rest, rfl, hclosed⟩))))
          · have hstart : isIdentStart d' = true := hd'.resolve_left hbrace
            have hchar := isIdentChar_of_isIdentStart hstart
            refine .inr (.inr (.inr (.inr (.inr ⟨(d' :: rest).takeWhile isIdentChar,
              (d' :: rest).dropWhile isIdentChar, ?_, ⟨⟨d', rest.takeWhile isIdentChar, ?_, hstart⟩,
              ?_⟩, ?_⟩))))
            · rw [List.takeWhile_append_dropWhile]
            · rw [List.takeWhile_cons, if_pos hchar]
            · exact List.all_eq_true.mp List.all_takeWhile
            · intro c hhead
              have hfails := List.head?_dropWhile_not isIdentChar (d' :: rest)
              rw [hhead] at hfails
              simpa using hfails
      · exact .inr (.inr (.inl ⟨rest, rfl, hopens⟩))
    · exact .inr (.inl ⟨c, rest, rfl, hc⟩)

/-- Induction on a text as it is scanned. -/
@[elab_as_elim]
theorem scan_induction {motive : List Char → Prop} (done : motive [])
    (char : ∀ c rest, c ≠ '$' → motive rest → motive (c :: rest))
    (dollar : ∀ rest, ¬OpensReference rest → motive rest → motive ('$' :: rest))
    (braced : ∀ name rest, '}' ∉ name → motive rest →
      motive ('$' :: '{' :: (name ++ '}' :: rest)))
    (unclosed : ∀ post, '}' ∉ post → motive ('$' :: '{' :: post))
    (bare : ∀ name rest, IsIdentifier name →
      (∀ c, rest.head? = some c → isIdentChar c = false) → motive rest →
      motive ('$' :: (name ++ rest))) (cs : List Char) : motive cs := by
  induction hlength : cs.length using Nat.strong_induction_on generalizing cs with
  | _ n ih =>
    obtain rfl | ⟨c, rest, rfl, hc⟩ | ⟨rest, rfl, hstray⟩ | ⟨name, rest, rfl, hname⟩ |
      ⟨post, rfl, hpost⟩ | ⟨name, rest, rfl, hname, hends⟩ := scan_cases cs
    · exact done
    · exact char c rest hc (ih _ (by simp at hlength; omega) rest rfl)
    · exact dollar rest hstray (ih _ (by simp at hlength; omega) rest rfl)
    · exact braced name rest hname (ih _ (by simp at hlength; omega) rest rfl)
    · exact unclosed post hpost
    · exact bare name rest hname hends (ih _ (by simp at hlength; omega) rest rfl)

/-- A word that expands can be read. -/
theorem exists_reads_of_ok {token : String} {values : List (String × String)} {cs out : List Char}
    (h : substituteChars token values 0 cs = .ok out) : ∃ pieces, Reads cs pieces := by
  induction cs using scan_induction generalizing out with
  | done => exact ⟨[], .done⟩
  | char c rest hc ih =>
    rw [substituteChars, if_pos hc] at h
    obtain ⟨_, hrest, -⟩ := Except.map_eq_ok_iff.mp h
    obtain ⟨pieces, hpieces⟩ := ih hrest
    exact ⟨_, .char hc hpieces⟩
  | dollar rest hstray ih =>
    rw [substituteChars, if_neg (by simp), referenceAfterDollar_literal hstray] at h
    obtain ⟨_, hrest, -⟩ := Except.map_eq_ok_iff.mp h
    obtain ⟨pieces, hpieces⟩ := ih hrest
    exact ⟨_, .dollar hstray hpieces⟩
  | braced name rest hname ih =>
    have hskip := substituteChars_skip token values ('{' :: (name ++ ['}'])) rest
    simp only [List.length_cons, List.length_append, List.length_nil, List.cons_append,
      List.append_assoc, List.nil_append] at hskip
    rw [substituteChars, if_neg (by simp), referenceAfterDollar_braced hname] at h
    dsimp only at h
    rw [if_neg (by simp), Except.bind_eq_ok_iff] at h
    obtain ⟨_, -, h⟩ := h
    obtain ⟨tail, hrest, -⟩ := Except.bind_eq_ok_iff.mp h
    obtain ⟨pieces, hpieces⟩ := ih (hskip.symm.trans hrest)
    exact ⟨_, .braced hname hpieces⟩
  | unclosed post hpost =>
    rw [substituteChars, if_neg (by simp), referenceAfterDollar_unclosed hpost] at h
    cases h
  | bare name rest hname hends ih =>
    rw [substituteChars, if_neg (by simp), referenceAfterDollar_bare hname hends] at h
    dsimp only at h
    rw [Except.bind_eq_ok_iff] at h
    obtain ⟨_, -, h⟩ := h
    obtain ⟨tail, hrest, -⟩ := Except.bind_eq_ok_iff.mp h
    rw [substituteChars_skip] at hrest
    obtain ⟨pieces, hpieces⟩ := ih hrest
    exact ⟨_, .bare hname hends hpieces⟩

/-- Every `${` of a text is followed by a name, and then by a brace. -/
def ClosesReferences (cs : List Char) : Prop :=
  ∀ pre post, cs = pre ++ '$' :: '{' :: post → '}' ∈ post ∧ post.head? ≠ some '}'

theorem ClosesReferences.of_append (xs : List Char) {ys : List Char}
    (h : ClosesReferences (xs ++ ys)) :
    ClosesReferences ys := by
  rintro pre post rfl
  exact h (xs ++ pre) post (by rw [List.append_assoc])

/-- A text that closes its references can be read, and none of them is empty. -/
theorem exists_reads_of_closes {cs : List Char} (h : ClosesReferences cs) :
    ∃ pieces, Reads cs pieces ∧ "" ∉ references pieces := by
  induction cs using scan_induction with
  | done => exact ⟨[], .done, List.not_mem_nil⟩
  | char c rest hc ih =>
    obtain ⟨pieces, hpieces, hne⟩ := ih (.of_append [c] h)
    exact ⟨_, .char hc hpieces, hne⟩
  | dollar rest hstray ih =>
    obtain ⟨pieces, hpieces, hne⟩ := ih (.of_append ['$'] h)
    exact ⟨_, .dollar hstray hpieces, hne⟩
  | braced name rest hname ih =>
    obtain ⟨pieces, hpieces, hne⟩ := ih (by
      refine .of_append ('$' :: '{' :: (name ++ ['}'])) ?_
      simpa using h)
    refine ⟨_, .braced hname hpieces, ?_⟩
    have hnonempty := (h [] _ rfl).2
    simp only [references, List.filterMap_cons, Piece.name?, List.mem_cons, not_or]
    refine ⟨fun hempty => hnonempty ?_, hne⟩
    obtain rfl : name = [] := by simpa using (congrArg String.toList hempty).symm
    rfl
  | unclosed post hpost => exact absurd (h [] post rfl).1 hpost
  | bare name rest hname hends ih =>
    obtain ⟨pieces, hpieces, hne⟩ := ih (.of_append ('$' :: name) h)
    refine ⟨_, .bare hname hends hpieces, ?_⟩
    obtain ⟨c, tail, rfl, -⟩ := hname.1
    simp only [references, List.filterMap_cons, Piece.name?, List.mem_cons, not_or]
    exact ⟨fun hempty => by simpa using congrArg String.toList hempty, hne⟩

/-! ### Words -/

/-- The words of a text: its stretches without whitespace. -/
inductive Words : List Char → List (List Char) → Prop
  | nil : Words [] []
  | space {c : Char} {cs : List Char} {words : List (List Char)} (white : isWhitespace c = true)
      (rest : Words cs words) : Words (c :: cs) words
  | word {word cs : List Char} {words : List (List Char)} (nonempty : word ≠ [])
      (solid : ∀ c ∈ word, isWhitespace c = false)
      (ends : ∀ c, cs.head? = some c → isWhitespace c = true) (rest : Words cs words) :
      Words (word ++ cs) (word :: words)

theorem words_splitWhitespaceChars (cs : List Char) : Words cs (splitWhitespaceChars cs) := by
  induction cs with
  | nil => exact .nil
  | cons c cs ih =>
    unfold splitWhitespaceChars
    split
    · next hc => exact .space hc ih
    · next hc =>
      have hsolid : ∀ d ∈ [c], isWhitespace d = false := by
        intro d hd
        rw [List.mem_singleton.mp hd]
        simpa using hc
      cases cs with
      | nil => exact .word (List.cons_ne_nil c []) hsolid (fun d hd => by cases hd) .nil
      | cons d cs =>
        dsimp only
        split
        · next hd =>
          refine .word (List.cons_ne_nil c []) hsolid ?_ ih
          rintro e he
          rw [← Option.some.inj he]
          exact hd
        · next hd =>
          -- the word that starts here goes on
          generalize hcs : d :: cs = text at ih
          generalize splitWhitespaceChars text = words at ih
          cases ih with
          | nil => cases hcs
          | space white _ =>
            obtain ⟨rfl, -⟩ := List.cons.inj hcs
            exact absurd white hd
          | @word word rest words _ solid ends hrest =>
            rw [← List.cons_append]
            refine .word (List.cons_ne_nil c word) ?_ ends hrest
            intro e he
            obtain rfl | he := List.mem_cons.mp he
            · exact hsolid e (List.mem_singleton_self e)
            · exact solid e he

/-- Whitespace has no part in a reference. -/
theorem isWhitespace_plain {c : Char} (h : isWhitespace c = true) :
    c ≠ '$' ∧ c ≠ '{' ∧ c ≠ '}' ∧ isIdentChar c = false := by
  have hlow : ∀ k : Fin 128, isWhitespace (Char.ofNat k) = true →
      Char.ofNat k ≠ '$' ∧ Char.ofNat k ≠ '{' ∧ Char.ofNat k ≠ '}' ∧
        isIdentChar (Char.ofNat k) = false := by decide
  by_cases hascii : c.toNat < 128
  · have hc := hlow ⟨c.toNat, hascii⟩
    rw [show Char.ofNat (⟨c.toNat, hascii⟩ : Fin 128) = c from Char.ofNat_toNat c] at hc
    exact hc h
  · have hne : ∀ d : Char, d.toNat < 128 → c ≠ d := fun d hd heq => hascii (heq ▸ hd)
    have hle : ∀ d : Char, d.toNat < 128 → ¬c ≤ d := by
      intro d hd hcd
      have hval : c.toNat ≤ d.toNat := UInt32.le_iff_toNat_le.mp (Char.le_def.mp hcd)
      omega
    refine ⟨hne _ (by decide), hne _ (by decide), hne _ (by decide), ?_⟩
    simp [isIdentChar, isAsciiAlphanumeric, isAsciiAlphabetic, hle 'z' (by decide),
      hle 'Z' (by decide), hle '9' (by decide), hne '_' (by decide)]

theorem not_opensReference_of_whitespace {cs : List Char}
    (h : ∀ c, cs.head? = some c → isWhitespace c = true) : ¬OpensReference cs := by
  rintro ⟨c, hc, hopens⟩
  obtain ⟨-, hbrace, -, hchar⟩ := isWhitespace_plain (h c hc)
  obtain rfl | hstart := hopens
  · exact hbrace rfl
  · rw [isIdentChar_of_isIdentStart hstart] at hchar
    cases hchar

/-- A rest that starts with whitespace does not change how a word is read. -/
theorem Reads.append {word rest : List Char} {pieces more : List Piece} (h : Reads word pieces)
    (hends : ∀ c, rest.head? = some c → isWhitespace c = true) (hrest : Reads rest more) :
    Reads (word ++ rest) (pieces ++ more) := by
  induction h with
  | done => exact hrest
  | char plain _ ih => exact .char plain ih
  | @dollar cs pieces stray _ ih =>
    refine .dollar ?_ ih
    cases cs with
    | nil => exact not_opensReference_of_whitespace hends
    | cons c cs => exact stray
  | braced closes _ ih =>
    have hbraced := Reads.braced closes ih
    simpa using hbraced
  | @bare name cs pieces identifier ends _ ih =>
    rw [List.cons_append, List.append_assoc]
    refine .bare identifier ?_ ih
    cases cs with
    | nil => exact fun c hc => (isWhitespace_plain (hends c hc)).2.2.2
    | cons c cs => exact ends

/-- Readings of the words make up a reading of the text. -/
theorem Words.reads {cs : List Char} {words : List (List Char)} (h : Words cs words)
    {parses : List (List Piece)} (hparses : List.Forall₂ Reads words parses) :
    ∃ pieces, Reads cs pieces ∧ references pieces = parses.flatMap references := by
  induction h generalizing parses with
  | nil =>
    cases hparses
    exact ⟨[], .done, rfl⟩
  | @space c cs words white _ ih =>
    obtain ⟨pieces, hpieces, hnames⟩ := ih hparses
    exact ⟨_, .char (isWhitespace_plain white).1 hpieces, hnames⟩
  | word _ _ ends _ ih =>
    cases hparses with
    | @cons _ pieces _ parses hword hrest =>
      obtain ⟨more, hmore, hnames⟩ := ih hrest
      refine ⟨_, hword.append ends hmore, ?_⟩
      rw [List.flatMap_cons, ← hnames]
      exact List.filterMap_append

/-- Where a solid stretch stands at the front of a word and what follows it, it
lies within the word. -/
theorem exists_of_append_eq_append {xs ys word rest : List Char}
    (hsolid : ∀ c ∈ xs, isWhitespace c = false)
    (hends : ∀ c, rest.head? = some c → isWhitespace c = true) (h : xs ++ ys = word ++ rest) :
    ∃ tail, word = xs ++ tail ∧ ys = tail ++ rest := by
  obtain ⟨tail, hword, hys⟩ | ⟨more, hxs, hrest⟩ := List.append_eq_append_iff.mp h
  · exact ⟨tail, hword, hys⟩
  · cases more with
    | nil => exact ⟨[], by simpa using hxs.symm, by simpa using hrest.symm⟩
    | cons c more =>
      have hwhite := hends c (by rw [hrest]; rfl)
      rw [hsolid c (by rw [hxs]; simp)] at hwhite
      cases hwhite

theorem head?_append_of_some {xs ys : List Char} {c : Char} (h : xs.head? = some c) :
    (xs ++ ys).head? = some c := by
  rw [List.head?_append, h]
  rfl

/-- A reading whose names have no whitespace is taken apart at the end of a
word. -/
theorem Reads.split {cs word rest : List Char} {pieces : List Piece} (h : Reads cs pieces)
    (hnames : ∀ name ∈ references pieces, ∀ c ∈ name.toList, isWhitespace c = false)
    (hcs : cs = word ++ rest) (hsolid : ∀ c ∈ word, isWhitespace c = false)
    (hends : ∀ c, rest.head? = some c → isWhitespace c = true) :
    ∃ front back, pieces = front ++ back ∧ Reads word front ∧ Reads rest back := by
  induction h generalizing word with
  | done =>
    obtain ⟨rfl, rfl⟩ := List.append_eq_nil_iff.mp hcs.symm
    exact ⟨[], [], rfl, .done, .done⟩
  | @char c cs pieces plain hrest ih =>
    cases word with
    | nil =>
      obtain rfl := hcs
      exact ⟨[], _, rfl, .done, .char plain hrest⟩
    | cons d word =>
      obtain ⟨rfl, htail⟩ := List.cons.inj hcs
      obtain ⟨front, back, rfl, hfront, hback⟩ := ih hnames htail
        (fun e he => hsolid e (List.mem_cons_of_mem _ he))
      exact ⟨_ :: front, back, rfl, .char plain hfront, hback⟩
  | @dollar cs pieces stray hrest ih =>
    cases word with
    | nil =>
      obtain rfl := hcs
      exact ⟨[], _, rfl, .done, .dollar stray hrest⟩
    | cons d word =>
      obtain ⟨rfl, htail⟩ := List.cons.inj hcs
      obtain ⟨front, back, rfl, hfront, hback⟩ := ih hnames htail
        (fun e he => hsolid e (List.mem_cons_of_mem _ he))
      refine ⟨_ :: front, back, rfl, .dollar ?_ hfront, hback⟩
      rintro ⟨c, hc, hopens⟩
      refine stray ⟨c, ?_, hopens⟩
      rw [htail]
      exact head?_append_of_some hc
  | @braced name cs pieces closes hrest ih =>
    have hname : ∀ c ∈ name, isWhitespace c = false := by
      intro c hc
      exact hnames (String.ofList name) List.mem_cons_self c (by rwa [String.toList_ofList])
    cases word with
    | nil =>
      obtain rfl := hcs
      exact ⟨[], _, rfl, .done, .braced closes hrest⟩
    | cons d word =>
      obtain ⟨rfl, htail⟩ := List.cons.inj hcs
      have hin : ∀ c ∈ '{' :: (name ++ ['}']), isWhitespace c = false := by
        intro c hc
        simp only [List.mem_cons, List.mem_append, List.not_mem_nil, or_false] at hc
        obtain rfl | hc | rfl := hc
        · decide
        · exact hname c hc
        · decide
      have hfront : ('{' :: (name ++ ['}'])) ++ cs = word ++ rest := by simpa using htail
      obtain ⟨tail, rfl, hrest⟩ := exists_of_append_eq_append hin hends hfront
      obtain ⟨front, back, rfl, hfront, hback⟩ := ih
        (fun n hn => hnames n (List.mem_cons_of_mem _ hn)) hrest
        (fun e he => hsolid e (List.mem_cons_of_mem _ (List.mem_append_right _ he)))
      have hread := Reads.braced closes hfront
      exact ⟨_ :: front, back, rfl, by simpa using hread, hback⟩
  | @bare name cs pieces identifier ends hrest ih =>
    have hname : ∀ c ∈ name, isWhitespace c = false := by
      intro c hc
      exact hnames (String.ofList name) List.mem_cons_self c (by rwa [String.toList_ofList])
    cases word with
    | nil =>
      obtain rfl := hcs
      exact ⟨[], _, rfl, .done, .bare identifier ends hrest⟩
    | cons d word =>
      obtain ⟨rfl, htail⟩ := List.cons.inj hcs
      obtain ⟨tail, rfl, rfl⟩ := exists_of_append_eq_append hname hends htail
      obtain ⟨front, back, rfl, hfront, hback⟩ := ih
        (fun n hn => hnames n (List.mem_cons_of_mem _ hn)) rfl
        (fun e he => hsolid e (List.mem_cons_of_mem _ (List.mem_append_right _ he)))
      refine ⟨_ :: front, back, rfl, .bare identifier (fun c hc => ends c ?_) hfront, hback⟩
      exact head?_append_of_some hc

/-- A text that can be read, with names that have no whitespace, is read word
by word. -/
theorem Words.parses {cs : List Char} {words : List (List Char)} (h : Words cs words)
    {pieces : List Piece} (hpieces : Reads cs pieces)
    (hnames : ∀ name ∈ references pieces, ∀ c ∈ name.toList, isWhitespace c = false) :
    ∃ parses, List.Forall₂ Reads words parses ∧ parses.flatMap references = references pieces := by
  induction h generalizing pieces with
  | nil =>
    cases hpieces
    exact ⟨[], .nil, rfl⟩
  | @space c cs words white _ ih =>
    cases hpieces with
    | char _ hrest =>
      obtain ⟨parses, hparses, hflat⟩ := ih hrest hnames
      exact ⟨parses, hparses, hflat⟩
    | dollar => exact absurd rfl (isWhitespace_plain white).1
    | braced => exact absurd rfl (isWhitespace_plain white).1
    | bare => exact absurd rfl (isWhitespace_plain white).1
  | word _ solid ends _ ih =>
    obtain ⟨front, back, rfl, hfront, hback⟩ := hpieces.split hnames rfl solid ends
    obtain ⟨parses, hparses, hflat⟩ := ih hback fun name hname =>
      hnames name (by rw [references, List.filterMap_append]; exact List.mem_append_right _ hname)
    refine ⟨front :: parses, .cons hfront hparses, ?_⟩
    rw [List.flatMap_cons, hflat]
    exact List.filterMap_append.symm

end HookExecutor.Executor
