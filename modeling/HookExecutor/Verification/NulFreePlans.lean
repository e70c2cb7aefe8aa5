import HookExecutor.Verification.CommandPlans

/-!
# Plans the operating system can take

A NUL anywhere in a plan makes the spawn fail. The script path, the account and
the values a caller supplies are checked for one; a default and the template of
the arguments are not. A plan has a NUL exactly if one of those two brings it.
-/

namespace HookExecutor.Executor

open Text

/-! ### The environment of a plan -/

theorem inheritedEnv_nulFree {os : Os} (hos : ∀ name value, os.envVar name = some value →
      NulFree value) (config : RuntimeConfig) :
    ∀ entry ∈ inheritedEnv os config, NulFree entry.2 := by
  have hinherited : SortedEnv (inheritedEnv os config) ∧
      ∀ entry ∈ inheritedEnv os config, NulFree entry.2 := by
    refine inheritedEnv_induction (P := fun env => SortedEnv env ∧ ∀ entry ∈ env, NulFree entry.2)
      ⟨.nil, fun _ h => absurd h List.not_mem_nil⟩ fun env name value hvalue h => ?_
    refine ⟨h.1.insert name value, fun entry hentry => ?_⟩
    obtain rfl | ⟨hmem, -⟩ := (mem_envInsert_iff h.1).mp hentry
    · exact hos name value hvalue
    · exact h.2 entry hmem
  exact hinherited.2

/-- A NUL in the environment is the value of a parameter that no later one of
the same name in upper case replaced. -/
theorem planEnv_nul_iff {os : Os} (hos : ∀ name value, os.envVar name = some value →
      NulFree value) (config : RuntimeConfig) (resolved : ResolvedParameters) :
    (∀ entry ∈ planEnv os config resolved, NulFree entry.2) ↔
      ∀ before kv after, resolved.values = before ++ kv :: after →
        (∀ other ∈ after, asciiUpper other.1 ≠ asciiUpper kv.1) → NulFree kv.2 := by
  constructor
  · intro h before kv after hsplit hlast
    exact h (paramVariable kv.1, kv.2)
      (mem_planEnv_iff.mpr (.inl ⟨before, kv, after, hsplit, rfl, hlast⟩))
  · intro h entry hentry
    obtain ⟨before, kv, after, hsplit, rfl, hlast⟩ | ⟨hmem, -⟩ := mem_planEnv_iff.mp hentry
    · exact h before kv after hsplit hlast
    · exact inheritedEnv_nulFree hos config entry hmem

/-! ### The arguments of a plan -/

section Arguments

variable {assign : String → String} {cs : List Char} {pieces : List Piece} {c : Char}

/-- A character that belongs to no reference is kept as it is. -/
theorem Reads.mem_iff (h : Reads cs pieces) (hplain : c ≠ '$' ∧ c ≠ '{' ∧ c ≠ '}')
    (hnames : ∀ name ∈ references pieces, c ∉ name.toList) : c ∈ cs ↔ .literal c ∈ pieces := by
  induction h with
  | done => simp
  | char _ _ ih => simp [ih hnames]
  | dollar _ _ ih => simp [ih hnames, hplain.1]
  | @braced name _ _ _ _ ih =>
    obtain ⟨hname, hrest⟩ := List.forall_mem_cons.mp hnames
    rw [String.toList_ofList] at hname
    simp [ih hrest, hplain, hname]
  | @bare name _ _ _ _ _ ih =>
    obtain ⟨hname, hrest⟩ := List.forall_mem_cons.mp hnames
    rw [String.toList_ofList] at hname
    simp [ih hrest, hplain.1, hname]

theorem Words.mem_iff {words : List (List Char)} (h : Words cs words)
    (hsolid : isWhitespace c = false) : c ∈ cs ↔ ∃ word ∈ words, c ∈ word := by
  induction h with
  | nil => simp
  | @space d _ _ white _ ih =>
    have hd : c ≠ d := by
      rintro rfl
      rw [white] at hsolid
      cases hsolid
    simp [ih, hd]
  | word _ _ _ _ ih => simp [ih]

theorem exists_word_mem_iff {words : List (List Char)} {parses : List (List Piece)}
    (h : List.Forall₂ Reads words parses) (hplain : c ≠ '$' ∧ c ≠ '{' ∧ c ≠ '}')
    (hnames : ∀ name ∈ parses.flatMap references, c ∉ name.toList) :
    (∃ word ∈ words, c ∈ word) ↔ ∃ pieces ∈ parses, .literal c ∈ pieces := by
  induction h with
  | nil => simp
  | cons hword _ ih =>
    rw [List.flatMap_cons] at hnames
    obtain ⟨hfirst, hrest⟩ := List.forall_mem_append.mp hnames
    simp [hword.mem_iff hplain hfirst, ih hrest]

theorem mem_expansion_iff :
    c ∈ expansion assign pieces ↔
      .literal c ∈ pieces ∨ ∃ name ∈ references pieces, c ∈ (assign name).toList := by
  unfold expansion
  rw [List.mem_flatMap]
  constructor
  · rintro ⟨piece, hpiece, hc⟩
    cases piece with
    | literal d =>
      obtain rfl := List.mem_singleton.mp hc
      exact .inl hpiece
    | reference name => exact .inr ⟨_, List.mem_filterMap.mpr ⟨_, hpiece, rfl⟩, hc⟩
  · rintro (hliteral | ⟨name, hname, hc⟩)
    · exact ⟨_, hliteral, List.mem_singleton_self c⟩
    · obtain ⟨piece, hpiece, hpieceName⟩ := List.mem_filterMap.mp hname
      cases piece with
      | literal d => cases hpieceName
      | reference name' =>
        obtain rfl := Option.some.inj hpieceName
        exact ⟨_, hpiece, hc⟩

theorem nul_plain : Char.ofNat 0 ≠ '$' ∧ Char.ofNat 0 ≠ '{' ∧ Char.ofNat 0 ≠ '}' := by decide

theorem nulFree_of_isValidParamKey {key : String} (h : isValidParamKey key = true) :
    NulFree key := by
  intro hnul
  unfold isValidParamKey at h
  cases hkey : key.toList with
  | nil => simp [hkey] at hnul
  | cons d ds =>
    simp only [hkey, Bool.and_eq_true, List.all_eq_true] at h hnul
    obtain rfl | hrest := List.mem_cons.mp hnul
    · exact absurd h.1 (by decide)
    · exact absurd (h.2 _ hrest) (by decide)

/-- A NUL in the arguments is one of the template, or of a value it references. -/
theorem args_nul_iff {template : String} {resolved : ResolvedParameters} {args : List String}
    (hvalid : ∀ kv ∈ resolved.values, isValidParamKey kv.1 = true)
    (h : resolveArgsTemplate template resolved = .ok args) :
    (∀ arg ∈ args, NulFree arg) ↔ NulFree template ∧
      ∀ name ∈ extractTemplateVariableNames template, NulFree (valueOf resolved.values name) := by
  obtain ⟨parses, hparses, hnames, rfl⟩ := resolveArgsTemplate_eq_ok_iff.mp h
  have hkeys : ∀ name ∈ parses.flatMap references, isValidParamKey name = true := by
    intro name hname
    obtain ⟨value, hvalue, -⟩ := hnames name hname
    exact hvalid _ (mem_of_lookupValue hvalue)
  have hne : "" ∉ parses.flatMap references := fun hempty => by cases hkeys "" hempty
  have hliteral : Char.ofNat 0 ∈ template.toList ↔
      ∃ pieces ∈ parses, .literal (Char.ofNat 0) ∈ pieces :=
    ((words_splitWhitespaceChars template.toList).mem_iff (by decide)).trans
      (exists_word_mem_iff hparses nul_plain fun name hname =>
        nulFree_of_isValidParamKey (hkeys name hname))
  rw [hparses.names hne]
  simp only [List.forall_mem_map, NulFree, String.toList_ofList, mem_expansion_iff, hliteral,
    not_or, not_exists, not_and, List.mem_flatMap]
  constructor
  · intro hall
    exact ⟨fun pieces hpieces => (hall pieces hpieces).1, fun name ⟨pieces, hpieces, hname⟩ =>
      (hall pieces hpieces).2 name hname⟩
  · rintro ⟨hliterals, hvalues⟩ pieces hpieces
    exact ⟨hliterals pieces hpieces, fun name hname => hvalues name ⟨pieces, hpieces, hname⟩⟩

end Arguments

/-! ### What a contract applies -/

/-- A declared parameter with a NUL in its default, supplied with nothing. -/
def AppliesNul (supplied : List (String × Json)) (decl : HookParameter) : Prop :=
  (Json.member supplied decl.paramKey).bind Json.scalarText = none ∧
    ∃ text ∈ decl.defaultValue, ¬NulFree text

/-- No later parameter with a value has the same name in upper case. -/
def KeepsVariable (supplied : List (String × Json)) (declared : List HookParameter)
    (decl : HookParameter) : Prop :=
  ∃ before after, declared = before ++ decl :: after ∧ ∀ other ∈ after,
    valueFor supplied other ≠ none → asciiUpper other.paramKey ≠ asciiUpper decl.paramKey

section Contract

variable {supplied : List (String × Json)} {declared : List HookParameter} {decl : HookParameter}

theorem exists_nul_valueFor_iff
    (htaken : ∀ key value, Json.member supplied key = some value → Suppliable value) :
    (∃ text, valueFor supplied decl = some text ∧ ¬NulFree text) ↔ AppliesNul supplied decl := by
  unfold valueFor AppliesNul
  cases hsupplied : (Json.member supplied decl.paramKey).bind Json.scalarText with
  | none => simp
  | some text =>
    obtain ⟨value, hvalue, htext⟩ := Option.bind_eq_some_iff.mp hsupplied
    have hfree : NulFree text := by
      obtain rfl | ⟨text', htext', hfree⟩ := htaken _ value hvalue
      · cases htext
      · rwa [Option.some.inj (htext.symm.trans htext')]
    simp [hfree]

/-- Where a value comes from, with what comes after it. -/
theorem exists_decl_of_mergedValues_eq {before after : List (String × String)}
    {kv : String × String} (h : mergedValues supplied declared = before ++ kv :: after) :
    ∃ before' decl after', declared = before' ++ decl :: after' ∧
      valueFor supplied decl = some kv.2 ∧ decl.paramKey = kv.1 ∧
      mergedValues supplied after' = after := by
  obtain ⟨front, back, rfl, -, hback⟩ := List.filterMap_eq_append_iff.mp h
  obtain ⟨skipped, decl, after', rfl, -, hdecl, hafter⟩ := List.filterMap_eq_cons_iff.mp hback
  obtain ⟨text, htext, rfl⟩ := Option.map_eq_some_iff.mp hdecl
  exact ⟨front ++ skipped, decl, after', by rw [List.append_assoc], htext, rfl, hafter⟩

theorem values_nulFree_iff
    (htaken : ∀ key value, Json.member supplied key = some value → Suppliable value) :
    (∀ kv ∈ mergedValues supplied declared, NulFree kv.2) ↔
    ∀ decl ∈ declared, ¬AppliesNul supplied decl := by
  constructor
  · intro h decl hdecl happlies
    obtain ⟨text, hvalue, hnul⟩ := (exists_nul_valueFor_iff htaken).mpr happlies
    exact hnul (h (decl.paramKey, text) (mem_mergedValues_iff.mpr ⟨decl, hdecl, hvalue, rfl⟩))
  · intro h kv hkv
    obtain ⟨decl, hdecl, hvalue, -⟩ := mem_mergedValues_iff.mp hkv
    by_contra hnul
    exact h decl hdecl ((exists_nul_valueFor_iff htaken).mp ⟨_, hvalue, hnul⟩)

theorem variables_nulFree_iff
    (htaken : ∀ key value, Json.member supplied key = some value → Suppliable value) :
    (∀ before kv after, mergedValues supplied declared = before ++ kv :: after →
        (∀ other ∈ after, asciiUpper other.1 ≠ asciiUpper kv.1) → NulFree kv.2) ↔
      ∀ decl ∈ declared, KeepsVariable supplied declared decl → ¬AppliesNul supplied decl := by
  constructor
  · rintro h decl - ⟨before, after, rfl, hlast⟩ happlies
    obtain ⟨text, hvalue, hnul⟩ := (exists_nul_valueFor_iff htaken).mpr happlies
    refine hnul (h (mergedValues supplied before) (decl.paramKey, text)
      (mergedValues supplied after) ?_ fun other hother => ?_)
    · simp [mergedValues, hvalue]
    · obtain ⟨decl', hdecl', hvalue', hkey⟩ := mem_mergedValues_iff.mp hother
      rw [← hkey]
      exact hlast decl' hdecl' (by simp [hvalue'])
  · intro h before kv after hsplit hlast
    obtain ⟨before', decl, after', rfl, hvalue, hkey, rfl⟩ := exists_decl_of_mergedValues_eq hsplit
    by_contra hnul
    refine h decl (by simp) ⟨before', after', rfl, fun other hother hsome => ?_⟩
      ((exists_nul_valueFor_iff htaken).mp ⟨_, hvalue, hnul⟩)
    obtain ⟨text, htext⟩ := Option.ne_none_iff_exists'.mp hsome
    rw [hkey]
    exact hlast (other.paramKey, text) (mem_mergedValues_iff.mpr ⟨other, hother, htext, rfl⟩)

theorem references_nulFree_iff
    (htaken : ∀ key value, Json.member supplied key = some value → Suppliable value)
    (hdistinct : (declared.map (·.paramKey)).Nodup)
    (names : List String) :
    (∀ name ∈ names, NulFree (valueOf (mergedValues supplied declared) name)) ↔
      ∀ decl ∈ declared, decl.paramKey ∈ names → ¬AppliesNul supplied decl := by
  have hkeys := hdistinct.sublist (mergedValues_keys_sublist supplied declared)
  constructor
  · intro h decl hdecl hname happlies
    obtain ⟨text, hvalue, hnul⟩ := (exists_nul_valueFor_iff htaken).mpr happlies
    have hmem : (decl.paramKey, text) ∈ mergedValues supplied declared :=
      mem_mergedValues_iff.mpr ⟨decl, hdecl, hvalue, rfl⟩
    have hsame : valueOf (mergedValues supplied declared) decl.paramKey = text :=
      valueOf_of_mem hkeys hmem
    exact hnul (hsame ▸ h decl.paramKey hname)
  · intro h name hname
    unfold valueOf
    cases hlookup : lookupValue (mergedValues supplied declared) name with
    | none =>
      intro hnul
      simp at hnul
    | some value =>
      obtain ⟨decl, hdecl, hvalue, rfl⟩ := mem_mergedValues_iff.mp (mem_of_lookupValue hlookup)
      by_contra hnul
      exact h decl hdecl hname ((exists_nul_valueFor_iff htaken).mp ⟨value, hvalue, hnul⟩)

end Contract

/-! ### The plan of a stored contract -/

/-- No NUL in what the operating system is handed. -/
structure CommandPlan.Spawnable (plan : CommandPlan) : Prop where
  program : NulFree plan.program
  args : ∀ arg ∈ plan.args, NulFree arg
  env : ∀ entry ∈ plan.env, NulFree entry.2

/-- The template has a NUL, or a default that has one is applied where it is
seen: among the arguments, or in a variable it keeps. -/
def BringsNul (hook : Hook) (declared : List HookParameter) (supplied : List (String × Json)) :
    Prop :=
  (∃ template ∈ templateInForce hook, ¬NulFree template) ∨
    ∃ decl ∈ declared, AppliesNul supplied decl ∧
      ((∀ template ∈ templateInForce hook,
          decl.paramKey ∈ extractTemplateVariableNames template) ∨
        KeepsVariable supplied declared decl)

theorem trim_nulFree {text : String} (h : NulFree text) : NulFree (trim text) := by
  intro hnul
  obtain ⟨before, after, hsplit, -, -⟩ := exists_trimChars text.toList
  rw [trim, String.toList_ofList] at hnul
  refine h ?_
  rw [hsplit]
  exact List.mem_append_left _ (List.mem_append_right _ hnul)

theorem StoredHook.nulFree {hook : Hook} (h : StoredHook hook) :
    NulFree hook.scriptPath ∧ ∀ user, effectiveRunAsUser hook.runAsUser = some user →
      NulFree user := by
  obtain ⟨state, w, hreachable, hmem⟩ := h
  refine ⟨hreachable.validated.paths hook hmem, fun user huser => ?_⟩
  obtain ⟨stored, hstored, rfl⟩ := Option.map_eq_some_iff.mp (Option.filter_eq_some_iff.mp huser).1
  exact trim_nulFree (hreachable.validated.accounts hook hmem stored hstored)

/-- A plan can be spawned, as far as NULs go, if and only if neither the template
nor a default that is applied brings one into it. -/
theorem spawnable_iff {hook : Hook} {declared : List HookParameter} (hhook : StoredHook hook)
    (hcontract : StoredContract declared) {os : Os} (hos : ∀ name value,
      os.envVar name = some value → NulFree value) {config : RuntimeConfig}
    {supplied : List (String × Json)} {resolved : ResolvedParameters}
    (hresolved : resolveParameters declared supplied = .ok resolved) {plan : CommandPlan}
    (hplan : buildCommandPlan os config hook resolved = .ok plan) :
    plan.Spawnable ↔ ¬BringsNul hook declared supplied := by
  obtain ⟨htaken', rfl⟩ := resolveParameters_eq_ok_iff.mp hresolved
  have htaken : ∀ key value, Json.member supplied key = some value → Suppliable value :=
    fun key value hmember => (htaken' key value hmember).2
  obtain ⟨hkeys, hdistinct⟩ := hcontract.keys
  obtain ⟨hpath, haccount⟩ := hhook.nulFree
  obtain ⟨leading, trailing, htrailing, hargs, henv, -, hprogram⟩ := buildCommandPlan_ok hplan
  have hfixed : NulFree plan.program ∧ ∀ arg ∈ leading, NulFree arg := by
    obtain ⟨-, hprogram, rfl⟩ | ⟨user, huser, hprogram, rfl⟩ := hprogram
    · rw [hprogram]
      exact ⟨hpath, fun _ harg => absurd harg List.not_mem_nil⟩
    · rw [hprogram]
      refine ⟨by unfold NulFree; decide, ?_⟩
      simp only [List.forall_mem_cons]
      exact ⟨by unfold NulFree; decide, by unfold NulFree; decide, haccount user huser,
        by unfold NulFree; decide, hpath, fun _ harg => absurd harg List.not_mem_nil⟩
  have hspawnable : plan.Spawnable ↔ (∀ arg ∈ trailing, NulFree arg) ∧
      ∀ decl ∈ declared, KeepsVariable supplied declared decl → ¬AppliesNul supplied decl := by
    rw [← variables_nulFree_iff htaken, ← planEnv_nul_iff hos config ⟨_, _⟩, ← henv]
    constructor
    · intro h
      exact ⟨fun arg harg => h.args arg (hargs ▸ List.mem_append_right _ harg), h.env⟩
    · rintro ⟨htrailing, henv⟩
      refine ⟨hfixed.1, fun arg harg => ?_, henv⟩
      rw [hargs] at harg
      exact (List.mem_append.mp harg).elim (hfixed.2 arg) (htrailing arg)
  rw [hspawnable, BringsNul]
  cases htemplate : templateInForce hook with
  | none =>
    rw [htemplate] at htrailing
    obtain rfl := Except.ok.inj htrailing
    rw [List.forall_mem_map, values_nulFree_iff htaken]
    constructor
    · rintro ⟨hvalues, -⟩ (⟨template, hsome, -⟩ | ⟨decl, hdecl, happlies, -⟩)
      · cases hsome
      · exact hvalues decl hdecl happlies
    · intro hnone
      exact ⟨fun decl hdecl happlies => hnone (.inr ⟨decl, hdecl, happlies, .inl fun _ h => by
          cases h⟩), fun decl hdecl hkeeps happlies =>
        hnone (.inr ⟨decl, hdecl, happlies, .inr hkeeps⟩)⟩
  | some template =>
    rw [htemplate] at htrailing
    have hvalid : ∀ kv ∈ mergedValues supplied declared, isValidParamKey kv.1 = true := by
      intro kv hkv
      obtain ⟨decl, hdecl, -, hkey⟩ := mem_mergedValues_iff.mp hkv
      exact hkey ▸ hkeys decl hdecl
    rw [args_nul_iff hvalid htrailing, references_nulFree_iff htaken hdistinct]
    constructor
    · rintro ⟨⟨hfree, hreferences⟩, hvariables⟩ (⟨_, hsome, hnul⟩ | ⟨decl, hdecl, happlies, hseen⟩)
      · obtain rfl := Option.some.inj hsome
        exact hnul hfree
      · obtain hname | hkeeps := hseen
        · exact hreferences decl hdecl (hname template rfl) happlies
        · exact hvariables decl hdecl hkeeps happlies
    · intro hnone
      refine ⟨⟨fun hnul => hnone (.inl ⟨template, rfl, fun hfree => hfree hnul⟩),
        fun decl hdecl hname happlies => hnone (.inr ⟨decl, hdecl, happlies, .inl ?_⟩)⟩,
        fun decl hdecl hkeeps happlies => hnone (.inr ⟨decl, hdecl, happlies, .inr hkeeps⟩)⟩
      intro other hother
      obtain rfl := Option.some.inj hother
      exact hname

section Sample

open Sample

/-- A text that is a NUL. -/
def nulText : String := String.ofList [Char.ofNat 0]

/-- The master declares a parameter on the hook, with a NUL for its default. -/
def declareNul : AdminRequest :=
  .createHookParameter "deploy" ⟨"user", none, some nulText, some false⟩

def nulWorld : World := ((handleAdmin (ctx 4) Sample.masterRow declareNul).run Op.exec deployment).2

def nulParameter : HookParameter :=
  { id := 401
    hookId := 301
    paramKey := "user"
    description := none
    defaultValue := some nulText
    isRequired := false
    createdAt := epochSeconds * nanosPerSecond }

theorem storedHook_deploy : StoredHook deployHook :=
  ⟨Sample.state, deployment, reachable_deployment, List.mem_singleton_self _⟩

theorem storedContract_nul : StoredContract [nulParameter] := by
  refine ⟨Sample.state, nulWorld, 301,
    reachable_master reachable_deployment 4 "/hooks/deploy/parameters" declareNul rfl rfl rfl, ?_⟩
  have hrows : (nulWorld.db.hookParameters.filter (·.hookId == 301)).insertionSort
      HookParameter.before = [nulParameter] := by decide
  rw [loadParameters, Handler.exec_sql, ← hrows]
  rfl

def deployPlan (value : String) : CommandPlan :=
  ⟨"/opt/deploy.sh", [value], [("HOOK_PARAM_USER", value)], none⟩

theorem spawnable_iff_deploy : (deployPlan "bob").Spawnable ↔
    ¬BringsNul deployHook [nulParameter] [("user", .string "bob")] :=
  @spawnable_iff _ _ storedHook_deploy storedContract_nul Sample.os (fun _ _ h => by cases h)
    Sample.config _ ⟨[("user", "bob")], []⟩ rfl _ rfl

/-- A run that supplies nothing is planned with the NUL of the default. -/
theorem planned_nul :
    ¬∀ {hook : Hook} {declared : List HookParameter}, StoredHook hook → StoredContract declared →
      ∀ {os : Os}, (∀ name value, os.envVar name = some value → NulFree value) →
      ∀ {config : RuntimeConfig} {supplied : List (String × Json)} {resolved : ResolvedParameters},
        resolveParameters declared supplied = .ok resolved → ∀ {plan : CommandPlan},
        buildCommandPlan os config hook resolved = .ok plan → plan.Spawnable := by
  intro h
  have hplan : (deployPlan nulText).Spawnable :=
    @h _ _ storedHook_deploy storedContract_nul Sample.os (fun _ _ h => by cases h) Sample.config []
      ⟨[("user", nulText)], []⟩ rfl _ rfl
  exact hplan.args nulText List.mem_cons_self (by decide)

end Sample

end HookExecutor.Executor
