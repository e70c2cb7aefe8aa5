import HookExecutor.Verification.HookEffects
import HookExecutor.Verification.ParameterMerge
import HookExecutor.Verification.TemplateAcceptance

/-!
# What a plan is made of

The environment of a plan is a sorted map that is built by insertions: what the
daemon passes on first, then one variable for each parameter that has a value.
The arguments are a fixed beginning, and after it the words of the template or
the values themselves.
-/

namespace HookExecutor.Executor

open Text

/-! ### Sorted environments -/

section Environment

variable {env : List (String × String)} {name value : String} {entry : String × String}

/-- Bindings in the order of their names, one a name. -/
def SortedEnv (env : List (String × String)) : Prop :=
  env.Pairwise fun a b => a.1.toList < b.1.toList

theorem name_ne_of_lt {a b : String} (h : a.toList < b.toList) : a ≠ b := by
  rintro rfl
  exact lt_irrefl _ h

/-- A binding in place of the one its name had. -/
theorem mem_envInsert_iff (h : SortedEnv env) :
    entry ∈ envInsert name value env ↔ entry = (name, value) ∨ entry ∈ env ∧ entry.1 ≠ name := by
  induction env with
  | nil => simp [envInsert]
  | cons first rest ih =>
    obtain ⟨hfirst, hrest⟩ := List.pairwise_cons.mp h
    rw [envInsert]
    by_cases hsame : first.1 = name
    · rw [if_pos hsame, List.mem_cons, List.mem_cons]
      refine or_congr_right ⟨fun hmem => ⟨.inr hmem, ?_⟩, ?_⟩
      · exact (hsame ▸ name_ne_of_lt (hfirst entry hmem)).symm
      · rintro ⟨rfl | hmem, hother⟩
        · exact absurd hsame hother
        · exact hmem
    · rw [if_neg hsame]
      by_cases hbefore : textLe name first.1
      · have hlt : name.toList < first.1.toList :=
          lt_of_le_of_ne hbefore fun heq => hsame (String.toList_inj.mp heq).symm
        rw [if_pos hbefore, List.mem_cons]
        refine or_congr_right ⟨fun hmem => ⟨hmem, ?_⟩, And.left⟩
        obtain rfl | hmem := List.mem_cons.mp hmem
        · exact hsame
        · exact (name_ne_of_lt (hlt.trans (hfirst entry hmem))).symm
      · rw [if_neg hbefore, List.mem_cons, ih hrest, List.mem_cons]
        constructor
        · rintro (rfl | rfl | ⟨hmem, hother⟩)
          · exact .inr ⟨.inl rfl, hsame⟩
          · exact .inl rfl
          · exact .inr ⟨.inr hmem, hother⟩
        · rintro (rfl | ⟨rfl | hmem, hother⟩)
          · exact .inr (.inl rfl)
          · exact .inl rfl
          · exact .inr (.inr ⟨hmem, hother⟩)

theorem SortedEnv.insert (h : SortedEnv env) (name value : String) :
    SortedEnv (envInsert name value env) := by
  induction env with
  | nil => exact List.pairwise_singleton _ _
  | cons first rest ih =>
    obtain ⟨hfirst, hrest⟩ := List.pairwise_cons.mp h
    rw [envInsert]
    by_cases hsame : first.1 = name
    · rw [if_pos hsame]
      exact List.pairwise_cons.mpr ⟨fun b hb => hsame ▸ hfirst b hb, hrest⟩
    · rw [if_neg hsame]
      by_cases hbefore : textLe name first.1
      · have hlt : name.toList < first.1.toList :=
          lt_of_le_of_ne hbefore fun heq => hsame (String.toList_inj.mp heq).symm
        rw [if_pos hbefore]
        refine List.pairwise_cons.mpr ⟨fun b hb => ?_, h⟩
        obtain rfl | hb := List.mem_cons.mp hb
        · exact hlt
        · exact hlt.trans (hfirst b hb)
      · rw [if_neg hbefore]
        refine List.pairwise_cons.mpr ⟨fun b hb => ?_, ih hrest⟩
        obtain rfl | ⟨hb, -⟩ := (mem_envInsert_iff hrest).mp hb
        · exact not_le.mp hbefore
        · exact hfirst b hb

/-- After a row of bindings each name has the last value it was given. -/
theorem mem_foldl_envInsert_iff {f : String × String → String} {values : List (String × String)}
    (h : SortedEnv env) :
    entry ∈ values.foldl (fun env kv => envInsert (f kv) kv.2 env) env ↔
      (∃ before kv after, values = before ++ kv :: after ∧ entry = (f kv, kv.2) ∧
        ∀ other ∈ after, f other ≠ f kv) ∨
      entry ∈ env ∧ ∀ kv ∈ values, f kv ≠ entry.1 := by
  induction values generalizing env with
  | nil => simp
  | cons kv rest ih =>
    rw [List.foldl_cons, ih (h.insert _ _), mem_envInsert_iff h]
    constructor
    · rintro (⟨before, kv', after, rfl, rfl, hlast⟩ | ⟨rfl | ⟨hmem, hother⟩, hrest⟩)
      · exact .inl ⟨kv :: before, kv', after, rfl, rfl, hlast⟩
      · exact .inl ⟨[], kv, rest, rfl, rfl, hrest⟩
      · exact .inr ⟨hmem, List.forall_mem_cons.mpr ⟨hother.symm, hrest⟩⟩
    · rintro (⟨before, kv', after, hsplit, rfl, hlast⟩ | ⟨hmem, hother⟩)
      · cases before with
        | nil =>
          obtain ⟨rfl, rfl⟩ := List.cons.inj hsplit
          exact .inr ⟨.inl rfl, hlast⟩
        | cons first before =>
          obtain ⟨rfl, rfl⟩ := List.cons.inj hsplit
          exact .inl ⟨before, kv', after, rfl, rfl, hlast⟩
      · obtain ⟨hkv, hrest⟩ := List.forall_mem_cons.mp hother
        exact .inr ⟨.inr ⟨hmem, hkv.symm⟩, hrest⟩

/-- The value of a variable. -/
def envValue (env : List (String × String)) (name : String) : Option String :=
  (env.find? fun entry => entry.1 == name).map (·.2)

theorem envValue_eq_some_iff (h : SortedEnv env) :
    envValue env name = some value ↔ (name, value) ∈ env := by
  unfold envValue
  constructor
  · intro hvalue
    obtain ⟨entry, hentry, rfl⟩ := Option.map_eq_some_iff.mp hvalue
    obtain rfl : entry.1 = name := by simpa using List.find?_some hentry
    exact List.mem_of_find?_eq_some hentry
  · intro hmem
    induction env with
    | nil => cases hmem
    | cons first rest ih =>
      obtain ⟨hfirst, hrest⟩ := List.pairwise_cons.mp h
      obtain rfl | hlater := List.mem_cons.mp hmem
      · simp
      · have hother : first.1 ≠ name := name_ne_of_lt (hfirst _ hlater)
        rw [List.find?_cons_of_neg (by simpa using hother)]
        exact ih hrest hlater

end Environment

/-! ### The environment of a plan -/

/-- The variable a parameter is passed in. -/
def paramVariable (key : String) : String := paramEnvPrefix ++ asciiUpper key

theorem paramVariable_inj {a b : String} :
    paramVariable a = paramVariable b ↔ asciiUpper a = asciiUpper b := by
  unfold paramVariable
  rw [← String.toList_inj, String.toList_append, String.toList_append, List.append_cancel_left_eq,
    String.toList_inj]

/-- What is inherited from the daemon. -/
def inheritedEnv (os : Os) (config : RuntimeConfig) : List (String × String) :=
  config.allowedEnvVars.foldl (fun env name =>
    match os.envVar name with
    | some value => envInsert name value env
    | none => env) []

section PlanEnv

variable {os : Os} {config : RuntimeConfig} {entry : String × String}

/-- The variables are inherited one after the other. -/
theorem inheritedEnv_induction {P : List (String × String) → Prop} (hnil : P [])
    (hinsert : ∀ env name value, os.envVar name = some value → P env →
      P (envInsert name value env)) : P (inheritedEnv os config) := by
  unfold inheritedEnv
  generalize ([] : List (String × String)) = env at hnil
  induction config.allowedEnvVars generalizing env with
  | nil => exact hnil
  | cons name names ih =>
    rw [List.foldl_cons]
    cases hvalue : os.envVar name with
    | none => exact ih env hnil
    | some value => exact ih _ (hinsert env name value hvalue hnil)

theorem sortedEnv_inherited : SortedEnv (inheritedEnv os config) :=
  inheritedEnv_induction .nil fun _ name value _ h => h.insert name value

theorem sortedEnv_planEnv (os : Os) (config : RuntimeConfig) (resolved : ResolvedParameters) :
    SortedEnv (planEnv os config resolved) := by
  have hfold : ∀ (values env : List (String × String)), SortedEnv env →
      SortedEnv (values.foldl (fun env kv => envInsert (paramVariable kv.1) kv.2 env) env) := by
    intro values
    induction values with
    | nil => exact fun _ h => h
    | cons kv values ih => exact fun env h => ih _ (h.insert _ _)
  exact hfold resolved.values _ sortedEnv_inherited

/-- A variable of a plan is that of the last parameter in it, or it is inherited
and no parameter has it. -/
theorem mem_planEnv_iff {resolved : ResolvedParameters} :
    entry ∈ planEnv os config resolved ↔
      (∃ before kv after, resolved.values = before ++ kv :: after ∧
        entry = (paramVariable kv.1, kv.2) ∧
        ∀ other ∈ after, asciiUpper other.1 ≠ asciiUpper kv.1) ∨
      entry ∈ inheritedEnv os config ∧ ∀ kv ∈ resolved.values, paramVariable kv.1 ≠ entry.1 := by
  simp only [← paramVariable_inj.not]
  exact mem_foldl_envInsert_iff sortedEnv_inherited

end PlanEnv

/-! ### Stored hooks and contracts -/

/-- A hook as the endpoints can have left it. -/
def StoredHook (hook : Hook) : Prop := ∃ state w, Reachable state w ∧ hook ∈ w.db.hooks

/-- A contract as the endpoints can have left it, as it is loaded. -/
def StoredContract (declared : List HookParameter) : Prop :=
  ∃ state w hookId, Reachable state w ∧ (loadParameters hookId).run Op.exec w = (.ok declared, w)

theorem StoredContract.keys {declared : List HookParameter} (h : StoredContract declared) :
    (∀ decl ∈ declared, isValidParamKey decl.paramKey = true) ∧
      (declared.map (·.paramKey)).Nodup := by
  obtain ⟨state, w, hookId, hreachable, hloaded⟩ := h
  refine ⟨fun decl hdecl =>
    hreachable.validated.keys decl (loadParameters_subset hloaded hdecl), ?_⟩
  rw [loadParameters, Handler.exec_sql] at hloaded
  obtain rfl := Except.ok.inj (Prod.mk.inj hloaded).1
  have hsame : (w.db.hookParameters.filter (·.hookId == hookId)).map
      (fun p => (p.hookId, p.paramKey)) =
      ((w.db.hookParameters.filter (·.hookId == hookId)).map (·.paramKey)).map (hookId, ·) := by
    rw [List.map_map]
    refine List.map_congr_left fun p hp => ?_
    rw [← beq_iff_eq.mp (List.mem_filter.mp hp).2]
    rfl
  have honce := hreachable.declaresOnce.sublist
    ((List.filter_sublist (p := fun p => p.hookId == hookId)).map _)
  rw [hsame] at honce
  exact ((List.perm_insertionSort _ _).map _).nodup_iff.mpr (List.Nodup.of_map _ honce)

section Values

variable {supplied : List (String × Json)} {declared : List HookParameter}

theorem mem_mergedValues_iff {kv : String × String} :
    kv ∈ mergedValues supplied declared ↔
      ∃ decl ∈ declared, valueFor supplied decl = some kv.2 ∧ decl.paramKey = kv.1 := by
  obtain ⟨key, text⟩ := kv
  simp only [mergedValues, List.mem_filterMap, Option.map_eq_some_iff, Prod.mk.injEq]
  constructor
  · rintro ⟨decl, hdecl, _, hvalue, rfl, rfl⟩
    exact ⟨decl, hdecl, hvalue, rfl⟩
  · rintro ⟨decl, hdecl, hvalue, rfl⟩
    exact ⟨decl, hdecl, text, hvalue, rfl, rfl⟩

end Values

/-! ### The plan -/

/-- The template that decides the arguments, if there is one. -/
def templateInForce (hook : Hook) : Option String := nonEmpty (hook.argsTemplate.map trim)

/-- What a plan is made of. -/
theorem buildCommandPlan_ok {os : Os} {config : RuntimeConfig} {hook : Hook}
    {resolved : ResolvedParameters} {plan : CommandPlan}
    (h : buildCommandPlan os config hook resolved = .ok plan) :
    ∃ leading trailing,
      (match templateInForce hook with
        | some template => resolveArgsTemplate template resolved
        | none => .ok (resolved.values.map Prod.snd)) = .ok trailing ∧
      plan.args = leading ++ trailing ∧ plan.env = planEnv os config resolved ∧
      plan.runAsUser = effectiveRunAsUser hook.runAsUser ∧
      (effectiveRunAsUser hook.runAsUser = none ∧ plan.program = hook.scriptPath ∧ leading = [] ∨
        ∃ user, effectiveRunAsUser hook.runAsUser = some user ∧ plan.program = sudoBinary ∧
          leading = ["-n", "-u", user, "--", hook.scriptPath]) := by
  obtain ⟨trailing, htrailing, hplan⟩ := Except.bind_eq_ok_iff.mp h
  obtain rfl := Except.ok.inj hplan
  cases huser : effectiveRunAsUser hook.runAsUser with
  | none => exact ⟨[], trailing, htrailing, rfl, rfl, rfl, .inl ⟨rfl, rfl, rfl⟩⟩
  | some user => exact ⟨_, trailing, htrailing, rfl, rfl, rfl, .inr ⟨user, rfl, rfl, rfl⟩⟩

end HookExecutor.Executor
