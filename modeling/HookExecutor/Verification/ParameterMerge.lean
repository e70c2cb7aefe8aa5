import HookExecutor.Lib.JsonText
import HookExecutor.Lib.Utf8
import HookExecutor.Api.Executions
import HookExecutor.Verification.Sample
import HookExecutor.Verification.StoredContracts

/-!
# What a run is given

The parameters a caller supplies are merged with the contract of the hook: each
declared key takes the text supplied for it, or else its default, and what is
left is missing if it is required. The merge is recorded as a JSON object, and
that object is what a reader of the record is shown.
-/

namespace HookExecutor

open Text JsonText

/-! ### Merging -/

/-- The text of a scalar. -/
def Json.scalarText : Json → Option String
  | .string s => some s
  | .number n => some n
  | .bool b => some (if b then "true" else "false")
  | .null | .array _ | .object _ => none

/-- A value a parameter may be supplied with. -/
def Suppliable (value : Json) : Prop :=
  value = .null ∨ ∃ text, value.scalarText = some text ∧ NulFree text

/-- The text supplied for a declared parameter, or else its default. -/
def valueFor (supplied : List (String × Json)) (decl : HookParameter) : Option String :=
  ((Json.member supplied decl.paramKey).bind Json.scalarText).or decl.defaultValue

def mergedValues (supplied : List (String × Json)) (declared : List HookParameter) :
    List (String × String) :=
  declared.filterMap fun decl => (valueFor supplied decl).map fun text => (decl.paramKey, text)

def mergedMissing (supplied : List (String × Json)) (declared : List HookParameter) :
    List String :=
  (declared.filter fun decl => decl.isRequired && (valueFor supplied decl).isNone).map (·.paramKey)

namespace Executor

section Merge

variable {supplied : List (String × Json)} {declared : List HookParameter}
  {resolved : ResolvedParameters}

/-- The text of a value that passed the check for a NUL. -/
theorem coerceParamValue_eq_ok_iff {key : String} {value : Json} {out : Option String} :
    coerceParamValue key value = .ok out ↔ Suppliable value ∧ out = value.scalarText := by
  have hchecked : ∀ text : String,
      ((if text.toList.contains (Char.ofNat 0) then
          .error (.invalidInput s!"Parameter '{key}' must not contain NUL bytes")
        else .ok (some text) : Except AppError (Option String)) = .ok out) ↔
      NulFree text ∧ out = some text := by
    intro text
    by_cases hnul : Char.ofNat 0 ∈ text.toList
    · rw [if_pos (List.contains_iff_mem.mpr hnul)]
      exact ⟨fun h => (by cases h), fun h => absurd hnul h.1⟩
    · rw [if_neg (fun h => hnul (List.contains_iff_mem.mp h))]
      exact ⟨fun h => ⟨hnul, (Except.ok.inj h).symm⟩, fun h => by rw [h.2]⟩
  have hscalar : ∀ text : String, value ≠ .null → value.scalarText = some text →
      ((NulFree text ∧ out = some text) ↔ Suppliable value ∧ out = value.scalarText) := by
    intro text hnull htext
    rw [htext]
    refine and_congr_left fun _ => ⟨fun h => .inr ⟨text, htext, h⟩, ?_⟩
    rintro (h | ⟨text', htext', h⟩)
    · exact absurd h hnull
    · rwa [Option.some.inj (htext.symm.trans htext')]
  have hcompound : value ≠ .null → value.scalarText = none →
      ¬(Suppliable value ∧ out = value.scalarText) := by
    rintro hnull htext ⟨h | ⟨text, h, -⟩, -⟩
    · exact hnull h
    · rw [htext] at h
      cases h
  cases value with
  | null =>
    exact ⟨fun h => ⟨.inl rfl, (Except.ok.inj h).symm⟩, fun h => by rw [h.2]; rfl⟩
  | string s => exact (hchecked s).trans (hscalar s (by simp) rfl)
  | number n => exact (hchecked n).trans (hscalar n (by simp) rfl)
  | bool b => exact (hchecked _).trans (hscalar _ (by simp) rfl)
  | array items => exact ⟨fun h => (by cases h), fun h => absurd h (hcompound (by simp) rfl)⟩
  | object members => exact ⟨fun h => (by cases h), fun h => absurd h (hcompound (by simp) rfl)⟩

/-- Where a declaration goes once its value, or the lack of one, is known. -/
def placeParameter (acc : ResolvedParameters) (decl : HookParameter) :
    Option String → Except AppError ResolvedParameters
  | some value => .ok { acc with values := acc.values ++ [(decl.paramKey, value)] }
  | none =>
    if decl.isRequired then
      .ok { acc with missingRequired := acc.missingRequired ++ [decl.paramKey] }
    else .ok acc

theorem resolveParameter_eq (acc : ResolvedParameters) (decl : HookParameter) :
    resolveParameter supplied acc decl = (match Json.member supplied decl.paramKey with
      | some raw => coerceParamValue decl.paramKey raw
      | none => .ok none) >>= fun text => placeParameter acc decl (text.or decl.defaultValue) :=
  rfl

/-- One declaration: its supplied value is checked, and it goes where it belongs. -/
theorem resolveParameter_eq_ok_iff {acc after : ResolvedParameters} {decl : HookParameter} :
    resolveParameter supplied acc decl = .ok after ↔
      (∀ value, Json.member supplied decl.paramKey = some value → Suppliable value) ∧
      after = ⟨acc.values ++ mergedValues supplied [decl],
        acc.missingRequired ++ mergedMissing supplied [decl]⟩ := by
  have hplaced : placeParameter acc decl (valueFor supplied decl) = .ok after ↔
      after = ⟨acc.values ++ mergedValues supplied [decl],
        acc.missingRequired ++ mergedMissing supplied [decl]⟩ := by
    unfold placeParameter
    cases hvalue : valueFor supplied decl with
    | some value => simp [mergedValues, mergedMissing, hvalue, eq_comm]
    | none =>
      cases hrequired : decl.isRequired with
      | true => simp [mergedValues, mergedMissing, hvalue, hrequired, eq_comm]
      | false =>
        simp only [mergedValues, mergedMissing, hvalue, hrequired, Bool.false_eq_true, if_false,
          Except.ok.injEq, List.filterMap_cons, List.filterMap_nil, Option.map_none,
          List.filter_cons, List.filter_nil, Bool.false_and, List.map_nil, List.append_nil]
        exact eq_comm
  rw [resolveParameter_eq, Except.bind_eq_ok_iff]
  cases hmember : Json.member supplied decl.paramKey with
  | none =>
    have hnone : (none : Option String).or decl.defaultValue = valueFor supplied decl := by
      rw [valueFor, hmember]
      rfl
    rw [← hnone] at hplaced
    constructor
    · rintro ⟨text, htext, hafter⟩
      obtain rfl := Except.ok.inj htext
      exact ⟨fun _ h => (by cases h), hplaced.mp hafter⟩
    · rintro ⟨-, hafter⟩
      exact ⟨none, rfl, hplaced.mpr hafter⟩
  | some raw =>
    have hsome : raw.scalarText.or decl.defaultValue = valueFor supplied decl := by
      rw [valueFor, hmember]
      rfl
    rw [← hsome] at hplaced
    simp only [coerceParamValue_eq_ok_iff, Option.some.injEq, forall_eq']
    constructor
    · rintro ⟨text, ⟨hsuppliable, rfl⟩, hafter⟩
      exact ⟨hsuppliable, hplaced.mp hafter⟩
    · rintro ⟨hsuppliable, hafter⟩
      exact ⟨_, ⟨hsuppliable, rfl⟩, hplaced.mpr hafter⟩

theorem mergedValues_cons (decl : HookParameter) :
    mergedValues supplied (decl :: declared) =
      mergedValues supplied [decl] ++ mergedValues supplied declared :=
  List.filterMap_append (l := [decl])

theorem mergedMissing_cons (decl : HookParameter) :
    mergedMissing supplied (decl :: declared) =
      mergedMissing supplied [decl] ++ mergedMissing supplied declared := by
  rw [mergedMissing, mergedMissing, mergedMissing, ← List.map_append, ← List.filter_append]
  rfl

/-- The whole contract, in order, on top of what has been resolved. -/
theorem foldlM_resolveParameter_eq_ok_iff {acc : ResolvedParameters} :
    declared.foldlM (resolveParameter supplied) acc = .ok resolved ↔
      (∀ decl ∈ declared, ∀ value, Json.member supplied decl.paramKey = some value →
        Suppliable value) ∧
      resolved = ⟨acc.values ++ mergedValues supplied declared,
        acc.missingRequired ++ mergedMissing supplied declared⟩ := by
  induction declared generalizing acc with
  | nil => simp [mergedValues, mergedMissing, pure, Except.pure, eq_comm]
  | cons decl declared ih =>
    rw [List.foldlM_cons, Except.bind_eq_ok_iff, mergedValues_cons, mergedMissing_cons,
      List.forall_mem_cons]
    constructor
    · rintro ⟨after, hafter, hrest⟩
      obtain ⟨hdecl, rfl⟩ := resolveParameter_eq_ok_iff.mp hafter
      obtain ⟨hdeclared, rfl⟩ := ih.mp hrest
      exact ⟨⟨hdecl, hdeclared⟩, by rw [List.append_assoc, List.append_assoc]⟩
    · rintro ⟨⟨hdecl, hdeclared⟩, rfl⟩
      refine ⟨_, resolveParameter_eq_ok_iff.mpr ⟨hdecl, rfl⟩, ih.mpr ⟨hdeclared, ?_⟩⟩
      rw [List.append_assoc, List.append_assoc]

theorem mem_keys_iff_member {key : String} :
    key ∈ supplied.map (·.1) ↔ ∃ value, Json.member supplied key = some value := by
  unfold Json.member
  rw [← Option.isSome_iff_exists, Option.isSome_map, List.find?_isSome]
  simp [List.mem_map]

/-- When the caller's values are taken, and what becomes of them. -/
theorem resolveParameters_eq_ok_iff :
    resolveParameters declared supplied = .ok resolved ↔
      (∀ key value, Json.member supplied key = some value →
        key ∈ declared.map (·.paramKey) ∧ Suppliable value) ∧
      resolved = ⟨mergedValues supplied declared, mergedMissing supplied declared⟩ := by
  have hunknown : ((supplied.map (·.1)).filter fun k =>
      !declared.any fun d => d.paramKey == k).isEmpty = true ↔
      ∀ key value, Json.member supplied key = some value → key ∈ declared.map (·.paramKey) := by
    rw [List.isEmpty_iff, List.filter_eq_nil_iff]
    have hany : ∀ k : String, ¬(!declared.any fun d => d.paramKey == k) = true ↔
        k ∈ declared.map (·.paramKey) := by
      intro k
      simp [List.mem_map]
    simp only [hany, mem_keys_iff_member]
    exact ⟨fun h key value hmember => h key ⟨value, hmember⟩,
      fun h key ⟨value, hmember⟩ => h key value hmember⟩
  unfold resolveParameters
  dsimp only
  constructor
  · intro h
    by_cases hempty : ((supplied.map (·.1)).filter fun k =>
        !declared.any fun d => d.paramKey == k).isEmpty = true
    · rw [if_pos hempty, foldlM_resolveParameter_eq_ok_iff] at h
      refine ⟨fun key value hmember => ?_, h.2⟩
      have hkey := hunknown.mp hempty key value hmember
      obtain ⟨decl, hdecl, rfl⟩ := List.mem_map.mp hkey
      exact ⟨hkey, h.1 decl hdecl value hmember⟩
    · rw [if_neg hempty] at h
      cases h
  · rintro ⟨hall, rfl⟩
    rw [if_pos (hunknown.mpr fun key value hmember => (hall key value hmember).1),
      foldlM_resolveParameter_eq_ok_iff]
    exact ⟨fun decl _ value hmember => (hall _ value hmember).2, rfl⟩

end Merge

end Executor

open Executor

/-! ### Nothing that counts is dropped -/

/-- The parameters an object carries: the members of the object under
`parameters`, if it has one there, and otherwise its own. -/
inductive CarriesParameter (object : List (String × Json)) : String → Json → Prop
  | wrapped {inner : List (String × Json)} {key : String} {value : Json}
      (wrapper : Json.member object "parameters" = some (.object inner))
      (member : Json.member inner key = some value) : CarriesParameter object key value
  | bare {key : String} {value : Json}
      (unwrapped : ∀ inner, Json.member object "parameters" ≠ some (.object inner))
      (member : Json.member object key = some value) : CarriesParameter object key value

section Extraction

variable {platform : Platform} {body : Bytes} {object supplied : List (String × Json)}
  {declared : List HookParameter} {resolved : ResolvedParameters}

theorem extractParameterMap_member (hbody : body ≠ [])
    (hposted : platform.parseJson body = .ok (.object object))
    (h : extractParameterMap platform body = .ok supplied) {key : String} {value : Json} :
    CarriesParameter object key value ↔ Json.member supplied key = some value := by
  have hnonempty : ¬body.isEmpty = true := fun hempty => hbody (List.isEmpty_iff.mp hempty)
  rw [extractParameterMap, if_neg hnonempty, hposted] at h
  dsimp only at h
  have hbare : (∀ inner, Json.member object "parameters" ≠ some (.object inner)) →
      object = supplied → (CarriesParameter object key value ↔
        Json.member supplied key = some value) := by
    rintro hunwrapped rfl
    refine ⟨fun hcarries => ?_, .bare hunwrapped⟩
    cases hcarries with
    | wrapped wrapper _ => exact absurd wrapper (hunwrapped _)
    | bare _ member => exact member
  cases hwrapper : Json.member object "parameters" with
  | none =>
    rw [hwrapper] at h
    exact hbare (by simp [hwrapper]) (Except.ok.inj h)
  | some wrapper =>
    rw [hwrapper] at h
    cases wrapper with
    | null => exact hbare (by simp [hwrapper]) (Except.ok.inj h)
    | object inner =>
      obtain rfl := Except.ok.inj h
      refine ⟨fun hcarries => ?_, .wrapped hwrapper⟩
      cases hcarries with
      | wrapped wrapper member =>
        obtain rfl := Json.object.inj (Option.some.inj (hwrapper.symm.trans wrapper))
        exact member
      | bare unwrapped _ => exact absurd hwrapper (unwrapped inner)
    | bool _ => cases h
    | number _ => cases h
    | string _ => cases h
    | array _ => cases h

/-- Every parameter with a value reaches the run as its text. -/
theorem carried_resolved (hbody : body ≠ [])
    (hposted : platform.parseJson body = .ok (.object object))
    (hsupplied : extractParameterMap platform body = .ok supplied)
    (hresolved : resolveParameters declared supplied = .ok resolved) {key : String} {value : Json}
    (hcarries : CarriesParameter object key value) (hnull : value ≠ .null) :
    ∃ text, value.scalarText = some text ∧ (key, text) ∈ resolved.values := by
  have hmember := (extractParameterMap_member hbody hposted hsupplied).mp hcarries
  obtain ⟨hall, rfl⟩ := resolveParameters_eq_ok_iff.mp hresolved
  obtain ⟨hkey, hsuppliable⟩ := hall key value hmember
  obtain ⟨decl, hdecl, rfl⟩ := List.mem_map.mp hkey
  obtain ⟨text, htext, -⟩ := hsuppliable.resolve_left hnull
  refine ⟨text, htext, List.mem_filterMap.mpr ⟨decl, hdecl, ?_⟩⟩
  rw [valueFor, hmember, Option.bind_some, htext, Option.some_or, Option.map_some]

end Extraction

/-! ### The record of a run -/

/-- An object of strings. -/
def stringMembers (members : List (String × String)) : List (String × Json) :=
  members.map fun kv => (kv.1, .string kv.2)

/-- What the platform promises of JSON, as far as objects of strings go: such an
object is written as a compact text of its members in some order, and every
compact text of such an object is read as its members. -/
structure Platform.TreatsJson (platform : Platform) : Prop where
  writes : ∀ members : List (String × String), (members.map (·.1)).Nodup → ∃ order,
    order.Perm members ∧
      platform.renderJson (.object (stringMembers members)) = String.ofList (writeObject order)
  reads : ∀ text members, SpellsObject text members → (members.map (·.1)).Nodup → ∃ order,
    order.Perm members ∧
      platform.parseJson (asBytes (String.ofList text)) = .ok (.object (stringMembers order))

/-- The result of a merge, as the contract has it. -/
structure Merged (declared : List HookParameter) (supplied : List (String × Json))
    (resolved : ResolvedParameters) : Prop where
  values : resolved.values = mergedValues supplied declared
  missing : resolved.missingRequired = mergedMissing supplied declared
  omitted : ∀ decl ∈ declared, valueFor supplied decl = none → decl.isRequired = false →
    decl.paramKey ∉ resolved.values.map (·.1) ∧ decl.paramKey ∉ resolved.missingRequired

/-- The text of the merge is read as its pairs, by whoever is shown the record
of the run. -/
def RecordedExactly (platform : Platform) (resolved : ResolvedParameters) : Prop :=
  ∃ shown, shown.Perm (stringMembers resolved.values) ∧
    platform.parseJson (asBytes (platform.renderJson resolved.toJson)) = .ok (.object shown) ∧
    ∀ (record : Execution) (hookName : String) (keyName : Option String),
      record.parametersJson = platform.renderJson resolved.toJson →
      (executionView platform record hookName keyName).parameters = .object shown

section Record

variable {platform : Platform} {declared : List HookParameter} {supplied : List (String × Json)}
  {resolved : ResolvedParameters}

theorem mergedValues_keys_sublist (supplied : List (String × Json))
    (declared : List HookParameter) :
    ((mergedValues supplied declared).map (·.1)).Sublist (declared.map (·.paramKey)) := by
  induction declared with
  | nil => exact .slnil
  | cons decl declared ih =>
    rw [mergedValues_cons, List.map_append, List.map_cons]
    cases hvalue : valueFor supplied decl with
    | none => simpa [mergedValues, hvalue] using ih.cons decl.paramKey
    | some text => simpa [mergedValues, hvalue] using ih.cons_cons decl.paramKey

/-- Under distinct keys a parameter with neither a value nor a need for one
leaves no trace. -/
theorem merged_of_ok (hdistinct : (declared.map (·.paramKey)).Nodup)
    (h : resolveParameters declared supplied = .ok resolved) :
    Merged declared supplied resolved := by
  obtain ⟨-, rfl⟩ := resolveParameters_eq_ok_iff.mp h
  refine ⟨rfl, rfl, fun decl hdecl hvalue hoptional => ⟨?_, ?_⟩⟩
  · intro hmem
    obtain ⟨kv, hkv, hkey⟩ := List.mem_map.mp hmem
    obtain ⟨other, hother, hpair⟩ := List.mem_filterMap.mp hkv
    obtain ⟨text, htext, rfl⟩ := Option.map_eq_some_iff.mp hpair
    obtain rfl := List.inj_on_of_nodup_map hdistinct hother hdecl hkey
    rw [hvalue] at htext
    cases htext
  · intro hmem
    obtain ⟨other, hother, hkey⟩ := List.mem_map.mp hmem
    obtain ⟨hmem, hneeded⟩ := List.mem_filter.mp hother
    obtain rfl := List.inj_on_of_nodup_map hdistinct hmem hdecl hkey
    simp [hoptional] at hneeded

theorem recordedExactly_of_nodup (hjson : platform.TreatsJson)
    (hdistinct : (resolved.values.map (·.1)).Nodup) : RecordedExactly platform resolved := by
  obtain ⟨order, hperm, hwrites⟩ := hjson.writes resolved.values hdistinct
  obtain ⟨shown, hshown, hreads⟩ := hjson.reads _ order (writeObject_spells order)
    ((hperm.map _).nodup_iff.mpr hdistinct)
  have hparse : platform.parseJson (asBytes (platform.renderJson resolved.toJson)) =
      .ok (.object (stringMembers shown)) := by
    rw [← hreads, ← hwrites]
    rfl
  refine ⟨_, (hshown.trans hperm).map _, hparse, fun record hookName keyName hrecord => ?_⟩
  simp only [executionView, hrecord, hparse]
  rfl

/-- Merging is exact, and recorded as it is. -/
theorem merge_exact (hjson : platform.TreatsJson)
    (hdistinct : (declared.map (·.paramKey)).Nodup) (supplied : List (String × Json)) :
    ((∃ resolved, resolveParameters declared supplied = .ok resolved) ↔
      ∀ key value, Json.member supplied key = some value →
        key ∈ declared.map (·.paramKey) ∧ Suppliable value) ∧
    ∀ resolved, resolveParameters declared supplied = .ok resolved →
      Merged declared supplied resolved ∧ RecordedExactly platform resolved := by
  refine ⟨⟨?_, fun hall => ⟨_, resolveParameters_eq_ok_iff.mpr ⟨hall, rfl⟩⟩⟩, fun resolved h => ?_⟩
  · rintro ⟨resolved, h⟩
    exact (resolveParameters_eq_ok_iff.mp h).1
  · have hmerged := merged_of_ok hdistinct h
    refine ⟨hmerged, recordedExactly_of_nodup hjson ?_⟩
    rw [hmerged.values]
    exact hdistinct.sublist (mergedValues_keys_sublist supplied declared)

end Record

section Sample

open Sample

/-- A declared parameter that may be left out. -/
def optionalParameter (key : String) : HookParameter :=
  { id := 1
    hookId := 201
    paramKey := key
    description := none
    defaultValue := none
    isRequired := false
    createdAt := epochSeconds * nanosPerSecond }

/-- One member beside the wrapper, one inside it. -/
def besideBody : Bytes :=
  asBytes "\x7b\"parameters\":\x7b\"user\":\"bob\"\x7d,\"mode\":\"fast\"\x7d"

def besideObject : List (String × Json) :=
  [("parameters", .object [("user", .string "bob")]), ("mode", .string "fast")]

def besidePlatform : Platform :=
  { platform with
    parseJson := fun body => if body = besideBody then .ok (.object besideObject)
      else .error "expected value" }

theorem carried_resolved_user : ∃ text, (Json.string "bob").scalarText = some text ∧
    ("user", text) ∈ [("user", "bob")] :=
  @carried_resolved besidePlatform besideBody besideObject [("user", .string "bob")]
    [optionalParameter "user", optionalParameter "mode"] ⟨[("user", "bob")], []⟩
    (by decide) rfl rfl rfl "user" (.string "bob") (.wrapped rfl rfl) (by simp)

/-- Beside a `parameters` object, a member of the body is not looked at. -/
theorem beside_dropped :
    ¬∀ {platform : Platform} {body : Bytes} {object supplied : List (String × Json)}
        {declared : List HookParameter} {resolved : ResolvedParameters}, body ≠ [] →
      platform.parseJson body = .ok (.object object) →
      extractParameterMap platform body = .ok supplied →
      resolveParameters declared supplied = .ok resolved → ∀ {key : String} {value : Json},
        CarriesParameter object key value ∨
          key ≠ "parameters" ∧ Json.member object key = some value →
        value ≠ .null → ∃ text, value.scalarText = some text ∧ (key, text) ∈ resolved.values := by
  intro h
  obtain ⟨text, -, hmem⟩ := @h besidePlatform besideBody besideObject [("user", .string "bob")]
    [optionalParameter "user", optionalParameter "mode"] ⟨[("user", "bob")], []⟩
    (by decide) rfl rfl rfl "mode" (.string "fast") (.inr ⟨by decide, rfl⟩) (by simp)
  simp at hmem

/-- A platform that reads and writes objects of strings, and nothing else. -/
def stringPlatform : Platform :=
  { platform with
    parseJson := fun bytes => match readObject (fromUtf8Lossy bytes).toList with
      | some members => .ok (.object (stringMembers members))
      | none => .error "expected value"
    renderJson := fun value => match value with
      | .object members =>
        String.ofList (writeObject (members.map fun kv => (kv.1, kv.2.scalarText.getD "")))
      | _ => "null" }

theorem stringPlatform_treatsJson : stringPlatform.TreatsJson := by
  refine ⟨fun members _ => ⟨members, .refl _, ?_⟩,
    fun text members spells _ => ⟨members, .refl _, ?_⟩⟩
  · have hmembers : ((stringMembers members).map fun kv => (kv.1, kv.2.scalarText.getD "")) =
        members := by
      rw [stringMembers, List.map_map]
      exact List.map_id' members
    change String.ofList (writeObject ((stringMembers members).map _)) = _
    rw [hmembers]
  · change (match readObject (fromUtf8Lossy (asBytes (String.ofList text))).toList with
      | some members => Except.ok (Json.object (stringMembers members))
      | none => .error "expected value") = _
    rw [fromUtf8Lossy_asBytes, String.toList_ofList, spells.read]

theorem merge_exact_user :
    ((∃ resolved, resolveParameters [optionalParameter "user"] [("user", .string "a\"b")] =
        .ok resolved) ↔
      ∀ key value, Json.member [("user", .string "a\"b")] key = some value →
        key ∈ ["user"] ∧ Suppliable value) ∧
    ∀ resolved, resolveParameters [optionalParameter "user"] [("user", .string "a\"b")] =
        .ok resolved →
      Merged [optionalParameter "user"] [("user", .string "a\"b")] resolved ∧
        RecordedExactly stringPlatform resolved :=
  @merge_exact stringPlatform [optionalParameter "user"] stringPlatform_treatsJson (by decide) _

end Sample

end HookExecutor
