import HookExecutor.Verification.Expansion

/-!
# Forbidden sequences in the arguments

A value with a forbidden sequence is never substituted. The check looks at one
value at a time, so what is left is a `$(` cut in two: a dollar at the end of a
piece of the template, a bracket at the beginning of the next.
-/

/-! ### Where a symbol of a concatenation comes from -/

section Cover

variable {α β : Type} {g : α → List β} {xs before after before' after' : List α} {a a' : α}

/-- A symbol of a concatenation lies in one of its pieces. -/
theorem exists_piece_of_flatMap_eq {c : β} {pre post : List β}
    (h : xs.flatMap g = pre ++ c :: post) :
    ∃ before a after x y, xs = before ++ a :: after ∧ g a = x ++ c :: y ∧
      pre = before.flatMap g ++ x ∧ post = y ++ after.flatMap g := by
  induction xs generalizing pre with
  | nil => simp at h
  | cons a xs ih =>
    rw [List.flatMap_cons] at h
    obtain ⟨pre', rfl, hrest⟩ | ⟨y, hpiece, hpost⟩ := List.append_eq_append_iff.mp h
    · obtain ⟨before, b, after, x, y, rfl, hb, rfl, rfl⟩ := ih hrest
      exact ⟨a :: before, b, after, x, y, rfl, hb, by simp, rfl⟩
    · cases y with
      | nil =>
        obtain ⟨before, b, after, x, y, rfl, hb, hpre, rfl⟩ := ih (show _ = [] ++ _ from hpost.symm)
        refine ⟨a :: before, b, after, x, y, rfl, hb, ?_, rfl⟩
        rw [List.append_nil] at hpiece
        rw [List.flatMap_cons, hpiece, List.append_assoc, ← hpre, List.append_nil]
      | cons d y =>
        obtain ⟨rfl, rfl⟩ := List.cons.inj hpost
        exact ⟨[], a, xs, pre, y, rfl, hpiece, by simp, rfl⟩

/-- Two pieces that cover one position are the same piece. -/
theorem piece_unique (h : before ++ a :: after = before' ++ a' :: after')
    (hcovers : (before'.flatMap g).length < (before.flatMap g).length + (g a).length)
    (hcovers' : (before.flatMap g).length < (before'.flatMap g).length + (g a').length) :
    before = before' ∧ a = a' ∧ after = after' := by
  obtain ⟨mid, rfl, hrest⟩ | ⟨mid, rfl, hrest⟩ := List.append_eq_append_iff.mp h
  · cases mid with
    | nil =>
      obtain ⟨rfl, rfl⟩ := List.cons.inj hrest
      exact ⟨(List.append_nil _).symm, rfl, rfl⟩
    | cons b mid =>
      obtain ⟨rfl, -⟩ := List.cons.inj hrest
      simp only [List.flatMap_append, List.flatMap_cons, List.length_append] at hcovers
      omega
  · cases mid with
    | nil =>
      obtain ⟨rfl, rfl⟩ := List.cons.inj hrest
      exact ⟨List.append_nil _, rfl, rfl⟩
    | cons b mid =>
      obtain ⟨rfl, -⟩ := List.cons.inj hrest
      simp only [List.flatMap_append, List.flatMap_cons, List.length_append] at hcovers'
      omega

end Cover

namespace HookExecutor.Executor

open Text

/-- Every forbidden sequence of an expansion is a stretch of the template. -/
def OnlyLiteral (assign : String → String) (pieces : List Piece) (arg : List Char) : Prop :=
  ∀ f ∈ argsTemplateForbidden, ∀ pre post, arg = pre ++ f.toList ++ post →
    ∃ before after, pieces = before ++ f.toList.map Piece.literal ++ after ∧
      expansion assign before = pre ∧ expansion assign after = post

/-- A dollar that ends a piece meets a bracket that begins a later one, with
nothing between them, and the two are not neighbours in the template. -/
def CompletesDollar (assign : String → String) (pieces : List Piece) : Prop :=
  ∃ before a mid b after x y, pieces = before ++ a :: (mid ++ b :: after) ∧
    a.text assign = x ++ ['$'] ∧ expansion assign mid = [] ∧ b.text assign = '(' :: y ∧
    ¬(mid = [] ∧ a = .literal '$' ∧ b = .literal '(')

section Pieces

variable {assign : String → String} {pieces : List Piece}

theorem occursIn_of_append {f value : String} {pre post : List Char}
    (h : value.toList = pre ++ f.toList ++ post) : occursIn f value = true := by
  rw [occursIn, List.any_eq_true]
  refine ⟨f.toList ++ post, ?_, List.isPrefixOf_iff_prefix.mpr (List.prefix_append _ _)⟩
  rw [List.mem_tails, h, List.append_assoc]
  exact List.suffix_append _ _

/-- The values of a reading are clean. -/
def CleanUnder (assign : String → String) (pieces : List Piece) : Prop :=
  ∀ name ∈ references pieces, Clean (assign name)

/-- No piece holds a forbidden sequence but a literal, which is one character. -/
theorem literal_of_text {a : Piece} (hclean : CleanUnder assign pieces) (ha : a ∈ pieces)
    {f : String} (hf : f ∈ argsTemplateForbidden) {x y : List Char}
    (htext : a.text assign = x ++ f.toList ++ y) : ∃ c, a = .literal c := by
  cases a with
  | literal c => exact ⟨c, rfl⟩
  | reference name =>
    have hname : String.ofList name ∈ references pieces :=
      List.mem_filterMap.mpr ⟨_, ha, rfl⟩
    have hbad := hclean _ hname f hf
    rw [occursIn_of_append htext] at hbad
    cases hbad

/-- The forbidden sequences of one character. -/
theorem forbidden_cases {f : String} (hf : f ∈ argsTemplateForbidden) :
    f = "$(" ∨ ∃ c, f.toList = [c] := by
  simp only [argsTemplateForbidden, List.mem_cons, List.not_mem_nil, or_false] at hf
  obtain rfl | rfl | rfl | rfl | rfl := hf
  · exact .inr ⟨'|', by decide⟩
  · exact .inr ⟨';', by decide⟩
  · exact .inr ⟨'&', by decide⟩
  · exact .inr ⟨'\n', by decide⟩
  · exact .inl rfl

theorem dollar_forbidden : "$(" ∈ argsTemplateForbidden := by decide

theorem dollar_toList : "$(".toList = ['$', '('] := by decide

/-- Under clean values, a forbidden sequence that is no stretch of the template
is a `$(` whose two characters come from different pieces. -/
theorem onlyLiteral_iff (hclean : CleanUnder assign pieces) :
    OnlyLiteral assign pieces (expansion assign pieces) ↔ ¬CompletesDollar assign pieces := by
  constructor
  · rintro honly ⟨before, a, mid, b, after, x, y, rfl, ha, hmid, hb, hapart⟩
    obtain ⟨before', after', hpieces, hbefore, -⟩ :=
      honly "$(" dollar_forbidden (expansion assign before ++ x) (y ++ expansion assign after) (by
        rw [dollar_toList]
        simp only [expansion] at hmid ⊢
        simp [ha, hmid, hb])
    rw [dollar_toList] at hpieces
    simp only [List.map_cons, List.map_nil, List.append_assoc, List.cons_append,
      List.nil_append] at hpieces
    have hlength := congrArg List.length hbefore
    simp only [expansion, List.length_append] at hlength
    have hlong : (a.text assign).length = x.length + 1 := by rw [ha, List.length_append]; rfl
    have hshort : ((Piece.literal '$').text assign).length = 1 := rfl
    obtain ⟨-, rfl, hrest⟩ := piece_unique (g := Piece.text assign) hpieces (by omega) (by omega)
    cases mid with
    | nil =>
      obtain ⟨rfl, -⟩ := List.cons.inj hrest
      exact hapart ⟨rfl, rfl, rfl⟩
    | cons m mid =>
      obtain ⟨rfl, -⟩ := List.cons.inj hrest
      simp [expansion, Piece.text] at hmid
  · intro hapart f hf pre post hsplit
    obtain rfl | ⟨c, hc⟩ := forbidden_cases hf
    · -- the dollar and the bracket may lie in different pieces
      rw [dollar_toList, List.append_assoc] at hsplit
      obtain ⟨before, a, after, x, y, rfl, ha, rfl, hrest⟩ := exists_piece_of_flatMap_eq hsplit
      cases y with
      | cons d y =>
        obtain ⟨rfl, -⟩ := List.cons.inj hrest
        obtain ⟨c, rfl⟩ := literal_of_text (a := a) (x := x) (y := y) hclean (by simp) hf (by
          rw [ha, dollar_toList]
          simp)
        have hlength := congrArg List.length ha
        simp only [Piece.text, List.length_append, List.length_cons, List.length_nil] at hlength
        omega
      | nil =>
        obtain ⟨mid, b, rest, z, y, rfl, hb, hz, rfl⟩ :=
          exists_piece_of_flatMap_eq (show _ = [] ++ '(' :: post from hrest.symm)
        obtain ⟨hmid, rfl⟩ := List.append_eq_nil_iff.mp hz.symm
        by_cases hneighbours : mid = [] ∧ a = .literal '$' ∧ b = .literal '('
        · obtain ⟨rfl, rfl, rfl⟩ := hneighbours
          obtain ⟨rfl, -⟩ := List.append_eq_singleton_iff.mp ha.symm |>.resolve_right (by simp)
          obtain rfl : y = [] := (List.cons.inj hb).2.symm
          exact ⟨before, rest, by simp [dollar_toList], by simp [expansion], by simp [expansion]⟩
        · exact absurd ⟨before, a, mid, b, rest, x, y, rfl, ha, hmid, hb, hneighbours⟩ hapart
    · rw [hc, List.append_assoc] at hsplit
      obtain ⟨before, a, after, x, y, rfl, ha, rfl, rfl⟩ := exists_piece_of_flatMap_eq hsplit
      obtain ⟨d, rfl⟩ := literal_of_text (a := a) (x := x) (y := y) hclean (by simp) hf (by
        rw [ha, hc]
        simp)
      obtain ⟨rfl, hd⟩ := List.append_eq_singleton_iff.mp ha.symm |>.resolve_right (by simp)
      obtain ⟨rfl, rfl⟩ := List.cons.inj hd
      exact ⟨before, after, by simp [hc], by simp [expansion], by simp [expansion]⟩

end Pieces

/-! ### The arguments of a template -/

/-- No argument has a forbidden sequence but those its word of the template has. -/
def LiteralOnly (template : String) (values : List (String × String)) (args : List String) :
    Prop :=
  ∃ parses, WordsRead template parses ∧
    List.Forall₂ (fun pieces arg => OnlyLiteral (valueOf values) pieces arg.toList) parses args

/-- In some word of the template the values complete a `$(`. -/
def CompletesForbidden (template : String) (values : List (String × String)) : Prop :=
  ∃ parses, WordsRead template parses ∧
    ∃ pieces ∈ parses, CompletesDollar (valueOf values) pieces

section Arguments

variable {template : String} {resolved : ResolvedParameters} {args : List String}
  {parses : List (List Piece)}

theorem WordsRead.unique {other : List (List Piece)} (h : WordsRead template parses)
    (hother : WordsRead template other) : other = parses := by
  unfold WordsRead at h hother
  generalize splitWhitespaceChars template.toList = words at h hother
  induction h generalizing other with
  | nil => exact List.forall₂_nil_left_iff.mp hother
  | cons hword _ ih =>
    cases hother with
    | cons hword' hrest => rw [hword.unique hword', ih hrest]

theorem forall₂_onlyLiteral {assign : String → String}
    (hclean : ∀ pieces ∈ parses, CleanUnder assign pieces) :
    List.Forall₂ (fun pieces arg => OnlyLiteral assign pieces arg.toList) parses
        (parses.map fun pieces => String.ofList (expansion assign pieces)) ↔
      ∀ pieces ∈ parses, ¬CompletesDollar assign pieces := by
  rw [List.forall₂_map_right_iff, List.forall₂_same]
  refine forall₂_congr fun pieces hpieces => ?_
  rw [String.toList_ofList]
  exact onlyLiteral_iff (hclean pieces hpieces)

/-- When a template expands, its arguments hold no forbidden sequence of the
caller's doing if and only if the values complete none with what they meet. -/
theorem literalOnly_iff (h : resolveArgsTemplate template resolved = .ok args) :
    LiteralOnly template resolved.values args ↔
      ¬CompletesForbidden template resolved.values := by
  obtain ⟨parses, hparses, hnames, rfl⟩ := resolveArgsTemplate_eq_ok_iff.mp h
  have hclean : ∀ pieces ∈ parses, CleanUnder (valueOf resolved.values) pieces := by
    intro pieces hpieces name hname
    obtain ⟨value, hvalue, hclean⟩ := hnames name (List.mem_flatMap.mpr ⟨pieces, hpieces, hname⟩)
    rwa [valueOf, hvalue]
  constructor
  · rintro ⟨other, hother, honly⟩ ⟨others, hothers, pieces, hpieces, hcompletes⟩
    obtain rfl := hparses.unique hother
    obtain rfl := hparses.unique hothers
    exact (forall₂_onlyLiteral hclean).mp honly pieces hpieces hcompletes
  · intro hapart
    exact ⟨parses, hparses, (forall₂_onlyLiteral hclean).mpr fun pieces hpieces hcompletes =>
      hapart ⟨parses, hparses, pieces, hpieces, hcompletes⟩⟩

theorem literalOnly_iff_user :
    LiteralOnly "-u $user" [("user", "bob(")] ["-u", "bob("] ↔
      ¬CompletesForbidden "-u $user" [("user", "bob(")] :=
  @literalOnly_iff _ ⟨[("user", "bob(")], []⟩ _ (by decide)

/-- A dollar for a value, before a bracket of the template. -/
theorem completed_dollar :
    ¬∀ {template : String} {resolved : ResolvedParameters} {args : List String},
      resolveArgsTemplate template resolved = .ok args →
        LiteralOnly template resolved.values args := by
  intro h
  have hrest : Reads ['(', 'i', 'd', ')']
    [.literal '(', .literal 'i', .literal 'd', .literal ')'] :=
    .char (by decide) (.char (by decide) (.char (by decide) (.char (by decide) .done)))
  have hends : ∀ c, ['(', 'i', 'd', ')'].head? = some c → isIdentChar c = false := by
    intro c hc
    obtain rfl := Option.some.inj hc
    decide
  have hname : IsIdentifier ['x'] :=
    ⟨⟨'x', [], rfl, by decide⟩, List.forall_mem_singleton.mpr (by decide)⟩
  have hword := Reads.bare hname hends hrest
  have hwords : WordsRead "$x(id)"
      [.reference ['x'] :: [.literal '(', .literal 'i', .literal 'd', .literal ')']] := by
    have hsplit : splitWhitespaceChars "$x(id)".toList = [['$', 'x', '(', 'i', 'd', ')']] := by
      decide
    rw [WordsRead, hsplit]
    exact .cons hword .nil
  obtain ⟨parses, hparses, honly⟩ := @h "$x(id)" ⟨[("x", "$")], []⟩ ["$(id)"] (by decide)
  obtain rfl := hwords.unique hparses
  obtain ⟨honly, -⟩ := List.forall₂_cons.mp honly
  refine (onlyLiteral_iff (fun name hname => ?_)).mp honly ⟨[], _, [], _, _, [], [], rfl,
    (by decide), rfl, rfl, fun hneighbours => by cases hneighbours.2.1⟩
  obtain rfl := List.mem_singleton.mp hname
  unfold Clean
  decide

end Arguments

end HookExecutor.Executor
