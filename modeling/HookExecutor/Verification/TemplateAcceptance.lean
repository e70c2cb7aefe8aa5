import HookExecutor.Verification.Expansion
import HookExecutor.Verification.Sample
import HookExecutor.Verification.StoredContracts

/-!
# Templates that were accepted

The scan at definition time passes over a reference without a name and over a
brace that is never closed; the scan at run time stops at both. On every other
template the two agree, and a template that was accepted expands.
-/

namespace HookExecutor

open Text

namespace Executor

/-! ### The two scanners -/

theorem exists_of_append_dollar {xs ys pre post : List Char}
    (h : xs ++ ys = pre ++ '$' :: post) (hxs : '$' ∉ xs) :
    ∃ pre', ys = pre' ++ '$' :: post := by
  obtain ⟨pre', -, hys⟩ | ⟨rest, hsplit, hpost⟩ := List.append_eq_append_iff.mp h
  · exact ⟨pre', hys⟩
  · cases rest with
    | nil => exact ⟨[], hpost.symm⟩
    | cons c rest =>
      obtain ⟨rfl, -⟩ := List.cons.inj hpost
      exact absurd (hsplit ▸ List.mem_append_right _ List.mem_cons_self) hxs

/-- A reading by identifiers leaves no brace open or empty. -/
theorem Reads.closes {cs : List Char} {pieces : List Piece} (h : Reads cs pieces)
    (hnames : ∀ name ∈ references pieces, isValidParamKey name = true) : ClosesReferences cs := by
  have hvalid : ∀ name : List Char, isValidParamKey (String.ofList name) = true →
      name ≠ [] ∧ '$' ∉ name := by
    intro name hname
    rw [isValidParamKey, String.toList_ofList] at hname
    cases name with
    | nil => cases hname
    | cons c rest =>
      simp only [Bool.and_eq_true, List.all_eq_true] at hname
      refine ⟨List.cons_ne_nil _ _, fun hmem => ?_⟩
      obtain rfl | hrest := List.mem_cons.mp hmem
      · exact absurd hname.1 (by decide)
      · exact absurd (hname.2 _ hrest) (by decide)
  induction h with
  | done =>
    intro pre post hsplit
    simp at hsplit
  | @char c cs _ plain _ ih =>
    intro pre post hsplit
    obtain ⟨pre', hcs⟩ := exists_of_append_dollar (show [c] ++ cs = _ from hsplit)
      (by simpa using plain.symm)
    exact ih hnames pre' post hcs
  | dollar stray _ ih =>
    intro pre post hsplit
    cases pre with
    | nil =>
      obtain ⟨-, rfl⟩ := List.cons.inj hsplit
      exact absurd ⟨_, rfl, .inl rfl⟩ stray
    | cons c pre => exact ih hnames pre post (List.cons.inj hsplit).2
  | @braced name cs _ closes _ ih =>
    obtain ⟨hname, hrest⟩ := List.forall_mem_cons.mp hnames
    obtain ⟨hne, hplain⟩ := hvalid name hname
    intro pre post hsplit
    cases pre with
    | nil =>
      simp only [List.nil_append, List.cons.injEq, true_and] at hsplit
      subst hsplit
      refine ⟨by simp, ?_⟩
      cases name with
      | nil => exact absurd rfl hne
      | cons c name =>
        rintro hhead
        exact closes (Option.some.inj hhead ▸ List.mem_cons_self)
    | cons c pre =>
      have htail := (List.cons.inj hsplit).2
      rw [show '{' :: (name ++ '}' :: cs) = ('{' :: (name ++ ['}'])) ++ cs by simp] at htail
      obtain ⟨pre', hcs⟩ := exists_of_append_dollar htail (by simpa using hplain)
      exact ih hrest pre' post hcs
  | @bare name cs _ identifier _ _ ih =>
    obtain ⟨hname, hrest⟩ := List.forall_mem_cons.mp hnames
    intro pre post hsplit
    cases pre with
    | nil =>
      obtain ⟨c, rest, rfl, hstart⟩ := identifier.1
      obtain ⟨rfl, -⟩ := List.cons.inj (List.cons.inj hsplit).2
      exact absurd hstart (by decide)
    | cons c pre =>
      obtain ⟨pre', hcs⟩ := exists_of_append_dollar (List.cons.inj hsplit).2 (hvalid name hname).2
      exact ih hrest pre' post hcs

/-- Identifiers have no whitespace. -/
theorem isWhitespace_of_isValidParamKey {key : String} (h : isValidParamKey key = true) :
    ∀ c ∈ key.toList, isWhitespace c = false := by
  intro c hc
  cases hwhite : isWhitespace c with
  | false => rfl
  | true =>
    have hplain : isIdentChar c = true := by
      unfold isValidParamKey at h
      cases hkey : key.toList with
      | nil => simp [hkey] at hc
      | cons d ds =>
        simp only [hkey, Bool.and_eq_true, List.all_eq_true] at h hc
        obtain rfl | hrest := List.mem_cons.mp hc
        · exact isIdentChar_of_isIdentStart h.1
        · exact h.2 c hrest
    simp [(isWhitespace_plain hwhite).2] at hplain

section Agreement

variable {template : String} {keys : List String} {resolved : ResolvedParameters}

/-- A template whose scanned names are declared, under a value for every
declared parameter. -/
theorem resolves_iff_closes (hvalid : ∀ key ∈ keys, isValidParamKey key = true)
    (hdeclared : ∀ name ∈ extractTemplateVariableNames template, name ∈ keys)
    (hkeys : ∀ kv ∈ resolved.values, kv.1 ∈ keys)
    (hvalues : ∀ key ∈ keys, ∃ value, lookupValue resolved.values key = some value ∧ Clean value) :
    (∃ args, resolveArgsTemplate template resolved = .ok args) ↔
      ClosesReferences template.toList := by
  constructor
  · rintro ⟨args, h⟩
    obtain ⟨parses, hparses, hnames, -⟩ := resolveArgsTemplate_eq_ok_iff.mp h
    obtain ⟨pieces, hpieces, hflat⟩ := (words_splitWhitespaceChars template.toList).reads hparses
    refine hpieces.closes fun name hname => ?_
    obtain ⟨value, hvalue, -⟩ := hnames name (hflat ▸ hname)
    exact hvalid name (hkeys _ (mem_of_lookupValue hvalue))
  · intro hcloses
    obtain ⟨pieces, hpieces, hne⟩ := exists_reads_of_closes hcloses
    have hscan : extractTemplateVariableNames template = references pieces := by
      rw [extractTemplateVariableNames, hpieces.templateNames_eq]
      exact List.filter_eq_self.mpr fun name hname =>
        decide_eq_true fun hempty => hne (hempty ▸ hname)
    rw [hscan] at hdeclared
    obtain ⟨parses, hparses, hflat⟩ := (words_splitWhitespaceChars template.toList).parses hpieces
      fun name hname => isWhitespace_of_isValidParamKey (hvalid name (hdeclared name hname))
    refine ⟨_, resolveArgsTemplate_eq_ok_iff.mpr ⟨parses, hparses, fun name hname => ?_, rfl⟩⟩
    exact hvalues name (hdeclared name (hflat ▸ hname))

end Agreement

end Executor

open Executor

/-! ### Acceptance -/

theorem validateArgsTemplate_ok {template : String} {keys : List String} {named : Option String}
    (hnamed : nonEmpty named = some template)
    (h : validateArgsTemplateMatchesParameters named keys = .ok ()) :
    ∀ name ∈ extractTemplateVariableNames template, name ∈ keys := by
  unfold validateArgsTemplateMatchesParameters at h
  simp only [hnamed] at h
  split at h
  · next hnone => simpa using hnone
  · cases h

/-- A template and the keys of the parameters it was accepted together with:
those of the same creation, or those an edit found stored. -/
inductive AcceptedTogether : String → List String → Prop
  | created {ctx : Context} {key : ApiKey} {payload : CreateHookPayload} {checked : CheckedHook}
      {template : String} (accepted : validateCreateHook ctx key payload = .ok checked)
      (named : nonEmpty payload.argsTemplate = some template) :
      AcceptedTogether template (checked.declared.map (·.paramKey))
  | updated {state : AppState} {w : World} {ctx : Context} {model : Hook}
      {payload : UpdateHookPayload} {declared : List HookParameter} {template : String}
      (reachable : Reachable state w)
      (loaded : (loadParameters model.id).run Op.exec w = (.ok declared, w))
      (accepted : validateHookContract ctx model payload declared = .ok ())
      (named : nonEmpty (effectiveText payload.argsTemplate model.argsTemplate) = some template) :
      AcceptedTogether template (declared.map (·.paramKey))

theorem loadParameters_subset {hookId : Uuid} {w : World} {declared : List HookParameter}
    (h : (loadParameters hookId).run Op.exec w = (.ok declared, w)) :
    declared ⊆ w.db.hookParameters := by
  rw [loadParameters, Handler.exec_sql] at h
  obtain rfl := Except.ok.inj (Prod.mk.inj h).1
  intro param hparam
  exact List.mem_of_mem_filter ((List.mem_insertionSort _).mp hparam)

theorem AcceptedTogether.declares {template : String} {keys : List String}
    (h : AcceptedTogether template keys) :
    (∀ key ∈ keys, isValidParamKey key = true) ∧
      ∀ name ∈ extractTemplateVariableNames template, name ∈ keys := by
  cases h with
  | created accepted named =>
    obtain ⟨-, -, hkeys, htemplate⟩ := validateCreateHook_contract accepted
    refine ⟨fun key hkey => ?_, validateArgsTemplate_ok named htemplate⟩
    obtain ⟨param, hparam, rfl⟩ := List.mem_map.mp hkey
    exact hkeys param hparam
  | updated reachable loaded accepted named =>
    obtain ⟨_, -, hrest⟩ := Except.bind_eq_ok_iff.mp accepted
    obtain ⟨_, htemplate, -⟩ := Except.bind_eq_ok_iff.mp hrest
    refine ⟨fun key hkey => ?_, validateArgsTemplate_ok named htemplate⟩
    obtain ⟨param, hparam, rfl⟩ := List.mem_map.mp hkey
    exact reachable.validated.keys param (loadParameters_subset loaded hparam)

/-- Under a clean value for each declared parameter, an accepted template
expands if and only if it leaves no brace open or empty. -/
theorem accepted_resolves_iff {template : String} {keys : List String}
    {resolved : ResolvedParameters} (haccepted : AcceptedTogether template keys)
    (hkeys : ∀ kv ∈ resolved.values, kv.1 ∈ keys)
    (hvalues : ∀ key ∈ keys, ∃ value, lookupValue resolved.values key = some value ∧ Clean value) :
    (∃ args, resolveArgsTemplate template resolved = .ok args) ↔
      ClosesReferences template.toList :=
  resolves_iff_closes haccepted.declares.1 haccepted.declares.2 hkeys hvalues

section Sample

open Sample

def templatePayload (template : String) (keys : List String) : CreateHookPayload :=
  { name := "sender"
    scriptPath := "/opt/deploy.sh"
    parameters := some (keys.map fun key => ⟨key, none, none, none⟩)
    argsTemplate := some template }

theorem acceptedTogether_of_creation {template : String} {keys : List String}
    (hne : nonEmpty (some template) = some template)
    (h : (validateCreateHook (ctx 4) Sample.masterRow (templatePayload template keys)).toOption.map
      (fun checked => checked.declared.map (·.paramKey)) = some keys) :
    AcceptedTogether template keys := by
  obtain ⟨checked, hchecked, hkeys⟩ := Option.map_eq_some_iff.mp h
  have haccepted : validateCreateHook (ctx 4) Sample.masterRow (templatePayload template keys) =
      .ok checked := by
    cases hresult : validateCreateHook (ctx 4) Sample.masterRow (templatePayload template keys) with
    | error e =>
      rw [hresult] at hchecked
      cases hchecked
    | ok c =>
      rw [hresult] at hchecked
      rw [Option.some.inj hchecked]
  have hcreated := AcceptedTogether.created haccepted hne
  rw [hkeys] at hcreated
  exact hcreated

theorem accepted_resolves_iff_user :
    (∃ args, resolveArgsTemplate "-u $user" ⟨[("user", "bob")], []⟩ = .ok args) ↔
      ClosesReferences "-u $user".toList := by
  refine @accepted_resolves_iff "-u $user" ["user"] ⟨[("user", "bob")], []⟩
    (acceptedTogether_of_creation (by decide) (by decide)) (by decide) ?_
  intro key hkey
  obtain rfl := List.mem_singleton.mp hkey
  exact ⟨"bob", by decide, by unfold Clean; decide⟩

/-- A reference without a name is accepted, and nothing can be substituted for
it. -/
theorem accepted_unresolvable :
    ¬∀ {template : String} {keys : List String} {resolved : ResolvedParameters},
      AcceptedTogether template keys → (∀ kv ∈ resolved.values, kv.1 ∈ keys) →
      (∀ key ∈ keys, ∃ value, lookupValue resolved.values key = some value ∧ Clean value) →
      ∃ args, resolveArgsTemplate template resolved = .ok args := by
  intro h
  obtain ⟨args, hargs⟩ := @h "$\x7b\x7d" [] ⟨[], []⟩
    (acceptedTogether_of_creation (by decide) (by decide)) (by simp) (by simp)
  have hfails : (resolveArgsTemplate "$\x7b\x7d" ⟨[], []⟩).toOption = none := by decide
  rw [hargs] at hfails
  cases hfails

end Sample

end HookExecutor
