import HookExecutor.Verification.ArgsTemplate
import HookExecutor.Verification.Runs

/-!
# What a template expands to

Expansion puts the value of every reference in its place, all at once. A
template that passed the checks of its hook expands under every full set of
clean values if and only if it leaves no brace open or empty. What a value may
not contain it can still complete, with the text or the value next to it.
-/

namespace HookExecutor.Executor

open Text

/-! ### Simultaneous substitution -/

/-- The text of a piece under an assignment of values. -/
def Piece.text (assign : String → String) : Piece → List Char
  | .literal c => [c]
  | .reference name => (assign (String.ofList name)).toList

/-- The text of a reading. -/
def expansion (assign : String → String) (pieces : List Piece) : List Char :=
  pieces.flatMap (Piece.text assign)

/-- A value that may be substituted. -/
def Clean (value : String) : Prop := ∀ f ∈ argsTemplateForbidden, occursIn f value = false

/-- The value of a name in a resolved set. -/
def valueOf (values : List (String × String)) (name : String) : String :=
  (lookupValue values name).getD ""

section Expansion

variable {token : String} {values : List (String × String)} {pieces : List Piece}

theorem substituteReference_eq_ok_iff {name : String} {out : List Char} :
    substituteReference token values name = .ok out ↔
      ∃ value, lookupValue values name = some value ∧ Clean value ∧ value.toList = out := by
  unfold substituteReference
  cases hvalue : lookupValue values name with
  | none => simp
  | some value =>
    have hclean : (argsTemplateForbidden.find? fun f => occursIn f value) = none ↔ Clean value := by
      simp [List.find?_eq_none, Clean]
    dsimp only
    cases hbad : argsTemplateForbidden.find? fun f => occursIn f value with
    | none =>
      rw [hbad] at hclean
      simp [hclean.mp rfl]
    | some bad =>
      rw [hbad] at hclean
      simp only [reduceCtorEq, false_iff] at hclean
      simp [hclean]

/-- A reading expands if and only if each of its names has a clean value, and
then to the text of its pieces. -/
theorem expandPieces_eq_ok_iff {out : List Char} :
    expandPieces token values pieces = .ok out ↔
      (∀ name ∈ references pieces, ∃ value, lookupValue values name = some value ∧ Clean value) ∧
        out = expansion (valueOf values) pieces := by
  induction pieces generalizing out with
  | nil => simp [expandPieces, references, expansion, eq_comm]
  | cons piece pieces ih =>
    cases piece with
    | literal c =>
      rw [expandPieces, Except.map_eq_ok_iff]
      constructor
      · rintro ⟨tail, htail, rfl⟩
        obtain ⟨hnames, rfl⟩ := ih.mp htail
        exact ⟨hnames, rfl⟩
      · rintro ⟨hnames, rfl⟩
        exact ⟨_, ih.mpr ⟨hnames, rfl⟩, rfl⟩
    | reference name =>
      rw [expandPieces, Except.bind_eq_ok_iff]
      simp only [references, List.filterMap_cons, Piece.name?, List.forall_mem_cons]
      constructor
      · rintro ⟨text, htext, hrest⟩
        obtain ⟨value, hvalue, hclean, rfl⟩ := substituteReference_eq_ok_iff.mp htext
        obtain ⟨tail, htail, hout⟩ := Except.bind_eq_ok_iff.mp hrest
        obtain ⟨hnames, rfl⟩ := ih.mp htail
        obtain rfl := Except.ok.inj hout
        refine ⟨⟨⟨value, hvalue, hclean⟩, hnames⟩, ?_⟩
        simp [expansion, Piece.text, valueOf, hvalue]
      · rintro ⟨⟨⟨value, hvalue, hclean⟩, hnames⟩, rfl⟩
        refine ⟨value.toList, substituteReference_eq_ok_iff.mpr ⟨value, hvalue, hclean, rfl⟩,
          Except.bind_eq_ok_iff.mpr ⟨_, ih.mpr ⟨hnames, rfl⟩, ?_⟩⟩
        simp [expansion, Piece.text, valueOf, hvalue]

end Expansion

/-- A list of steps that all returned. -/
theorem mapM_eq_ok_iff {ε α β : Type} {f : α → Except ε β} {xs : List α} {ys : List β} :
    xs.mapM f = .ok ys ↔ List.Forall₂ (fun x y => f x = .ok y) xs ys := by
  induction xs generalizing ys with
  | nil =>
    rw [List.mapM_nil, List.forall₂_nil_left_iff]
    exact ⟨fun h => (Except.ok.inj h).symm, fun h => by rw [h]; rfl⟩
  | cons x xs ih =>
    rw [List.mapM_cons, Except.bind_eq_ok_iff]
    constructor
    · rintro ⟨y, hy, hrest⟩
      obtain ⟨tail, htail, hout⟩ := Except.bind_eq_ok_iff.mp hrest
      obtain rfl := Except.ok.inj hout
      exact .cons hy (ih.mp htail)
    · rintro (_ | ⟨hy, htail⟩)
      exact ⟨_, hy, Except.bind_eq_ok_iff.mpr ⟨_, ih.mpr htail, rfl⟩⟩

section Arguments

variable {template : String} {resolved : ResolvedParameters} {args : List String}
  {values : List (String × String)}

/-- The readings of the words of a template, one for each. -/
def WordsRead (template : String) (parses : List (List Piece)) : Prop :=
  List.Forall₂ Reads (splitWhitespaceChars template.toList) parses

theorem substituteToken_eq_ok_iff {word : List Char} {arg : String} :
    substituteToken values (String.ofList word) = .ok arg ↔
      ∃ pieces, Reads word pieces ∧
        (∀ name ∈ references pieces, ∃ value, lookupValue values name = some value ∧ Clean value) ∧
        arg = String.ofList (expansion (valueOf values) pieces) := by
  rw [substituteToken, Except.map_eq_ok_iff, String.toList_ofList]
  constructor
  · rintro ⟨out, hout, rfl⟩
    obtain ⟨pieces, hpieces⟩ := exists_reads_of_ok hout
    rw [hpieces.substituteChars_eq, expandPieces_eq_ok_iff] at hout
    exact ⟨pieces, hpieces, hout.1, by rw [hout.2]⟩
  · rintro ⟨pieces, hpieces, hnames, rfl⟩
    refine ⟨_, ?_, rfl⟩
    rw [hpieces.substituteChars_eq, expandPieces_eq_ok_iff]
    exact ⟨hnames, rfl⟩

/-- When a template expands, and to what. -/
theorem resolveArgsTemplate_eq_ok_iff :
    resolveArgsTemplate template resolved = .ok args ↔ ∃ parses, WordsRead template parses ∧
      (∀ name ∈ parses.flatMap references, ∃ value,
        lookupValue resolved.values name = some value ∧ Clean value) ∧
      args = parses.map fun pieces => String.ofList
        (expansion (valueOf resolved.values) pieces) := by
  unfold resolveArgsTemplate splitWhitespace WordsRead
  rw [mapM_eq_ok_iff, List.forall₂_map_left_iff]
  generalize splitWhitespaceChars template.toList = words
  constructor
  · intro h
    induction h with
    | nil => exact ⟨[], .nil, fun name hname => absurd hname List.not_mem_nil, rfl⟩
    | cons hword _ ih =>
      obtain ⟨pieces, hpieces, hnames, rfl⟩ := substituteToken_eq_ok_iff.mp hword
      obtain ⟨parses, hparses, hrest, rfl⟩ := ih
      refine ⟨pieces :: parses, .cons hpieces hparses, ?_, rfl⟩
      intro name hname
      obtain hname | hname := List.mem_append.mp hname
      · exact hnames name hname
      · exact hrest name hname
  · rintro ⟨parses, hparses, hnames, rfl⟩
    induction hparses with
    | nil => exact .nil
    | @cons word pieces words parses hpieces _ ih =>
      rw [List.flatMap_cons] at hnames
      refine .cons (substituteToken_eq_ok_iff.mpr ⟨pieces, hpieces, fun name hname =>
        hnames name (List.mem_append_left _ hname), rfl⟩) (ih fun name hname =>
        hnames name (List.mem_append_right _ hname))

/-- The scan of the whole template finds the names of its words. -/
theorem WordsRead.names {parses : List (List Piece)} (h : WordsRead template parses)
    (hne : "" ∉ parses.flatMap references) :
    extractTemplateVariableNames template = parses.flatMap references := by
  obtain ⟨pieces, hpieces, hnames⟩ := (words_splitWhitespaceChars template.toList).reads h
  rw [extractTemplateVariableNames, hpieces.templateNames_eq, hnames]
  exact List.filter_eq_self.mpr fun name hname => decide_eq_true fun hempty => hne (hempty ▸ hname)

theorem mem_of_lookupValue {name value : String} (h : lookupValue values name = some value) :
    (name, value) ∈ values := by
  simp only [lookupValue, Option.map_eq_some_iff] at h
  obtain ⟨⟨k, v⟩, hfind, rfl⟩ := h
  have hk : k = name := by simpa using List.find?_some hfind
  rw [← hk]
  exact List.mem_reverse.mp (List.mem_of_find?_eq_some hfind)

/-- Under distinct keys every value is the one its key stands for. -/
theorem valueOf_of_mem (hdistinct : (values.map (·.1)).Nodup) {kv : String × String}
    (h : kv ∈ values) : valueOf values kv.1 = kv.2 := by
  obtain ⟨found, hfound⟩ : ∃ found, lookupValue values kv.1 = some found := by
    rw [← Option.isSome_iff_exists, lookupValue, Option.isSome_map, List.find?_isSome]
    exact ⟨kv, List.mem_reverse.mpr h, by simp⟩
  have hmem := mem_of_lookupValue hfound
  rw [valueOf, hfound, Option.getD_some]
  exact congrArg Prod.snd (List.inj_on_of_nodup_map hdistinct hmem h rfl)

/-- Simultaneous substitution: every word of the template has one reading, the
names looked up in it are those of the reading, in the order in which the scan
of the template finds them, and the arguments are the texts of the readings. -/
def Substitutes (template : String) (values : List (String × String)) (args : List String) :
    Prop :=
  ∃ (parses : List (List Piece)) (assign : String → String),
    List.Forall₂ (fun token pieces =>
      (∀ other, Reads token.toList other ↔ other = pieces) ∧
      ∀ values, substituteToken values token = String.ofList <$> expandPieces token values pieces)
      (splitWhitespace template) parses ∧
    parses.flatMap references = extractTemplateVariableNames template ∧
    (∀ name ∈ parses.flatMap references, ∃ value, (name, value) ∈ values) ∧
    (∀ kv ∈ values, assign kv.1 = kv.2) ∧
    args = parses.map fun pieces => String.ofList (expansion assign pieces)

/-- Expansion is simultaneous substitution. -/
theorem expansion_simultaneous (hdistinct : (resolved.values.map (·.1)).Nodup)
    (hvalid : ∀ kv ∈ resolved.values, isValidParamKey kv.1 = true)
    (h : resolveArgsTemplate template resolved = .ok args) :
    Substitutes template resolved.values args := by
  obtain ⟨parses, hparses, hnames, rfl⟩ := resolveArgsTemplate_eq_ok_iff.mp h
  have hne : "" ∉ parses.flatMap references := by
    intro hempty
    obtain ⟨value, hvalue, -⟩ := hnames "" hempty
    have hkey := hvalid _ (mem_of_lookupValue hvalue)
    cases hkey
  refine ⟨parses, valueOf resolved.values, ?_, (hparses.names hne).symm, fun name hname => ?_,
    fun kv hkv => valueOf_of_mem hdistinct hkv, rfl⟩
  · rw [splitWhitespace, List.forall₂_map_left_iff]
    refine hparses.imp fun word pieces hpieces => ?_
    rw [String.toList_ofList]
    refine ⟨fun other => ⟨hpieces.unique, fun hother => hother ▸ hpieces⟩, fun values => ?_⟩
    rw [substituteToken, String.toList_ofList, hpieces.substituteChars_eq]
  · obtain ⟨value, hvalue, -⟩ := hnames name hname
    exact ⟨value, mem_of_lookupValue hvalue⟩

theorem expansion_simultaneous_mail :
    Substitutes "-u $user --mail=$\x7buser\x7d@host" [("user", "$id x")]
      ["-u", "$id x", "--mail=$id x@host"] :=
  @expansion_simultaneous _ ⟨[("user", "$id x")], []⟩ _ (by decide) (by decide) (by decide)

end Arguments

end HookExecutor.Executor
