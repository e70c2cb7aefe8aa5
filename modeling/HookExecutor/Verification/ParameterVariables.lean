import HookExecutor.Verification.CommandPlans

/-!
# Parameters in the environment

Every resolved parameter is passed to the script in a variable that is named
after it in upper case. The keys of a contract are told apart with regard to
case, the variables without, so two keys that differ in nothing else share one
variable, and the later of them has it.
-/

namespace HookExecutor.Executor

open Text

/-- Every resolved value is the value of its parameter's variable, and no two
parameters have one variable. -/
structure CommandPlan.Carries (plan : CommandPlan) (resolved : ResolvedParameters) : Prop where
  values : ∀ kv ∈ resolved.values, envValue plan.env (paramVariable kv.1) = some kv.2
  distinct : (resolved.values.map fun kv => paramVariable kv.1).Nodup

/-- No two different keys that come to have a value are the same in upper case. -/
def ToldApart (declared : List HookParameter) (supplied : List (String × Json)) : Prop :=
  ∀ decl ∈ declared, ∀ other ∈ declared, valueFor supplied decl ≠ none →
    valueFor supplied other ≠ none → asciiUpper decl.paramKey = asciiUpper other.paramKey →
    decl.paramKey = other.paramKey

section

variable {declared : List HookParameter} {supplied : List (String × Json)} {os : Os}
  {config : RuntimeConfig}

theorem toldApart_iff :
    ToldApart declared supplied ↔
      ∀ kv ∈ mergedValues supplied declared, ∀ other ∈ mergedValues supplied declared,
        paramVariable kv.1 = paramVariable other.1 → kv.1 = other.1 := by
  constructor
  · intro h kv hkv other hother hsame
    obtain ⟨decl, hdecl, hvalue, hkey⟩ := mem_mergedValues_iff.mp hkv
    obtain ⟨decl', hdecl', hvalue', hkey'⟩ := mem_mergedValues_iff.mp hother
    rw [← hkey, ← hkey'] at hsame ⊢
    exact h decl hdecl decl' hdecl' (by simp [hvalue]) (by simp [hvalue'])
      (paramVariable_inj.mp hsame)
  · intro h decl hdecl decl' hdecl' hsome hsome' hsame
    obtain ⟨text, hvalue⟩ := Option.ne_none_iff_exists'.mp hsome
    obtain ⟨text', hvalue'⟩ := Option.ne_none_iff_exists'.mp hsome'
    exact h (decl.paramKey, text) (mem_mergedValues_iff.mpr ⟨decl, hdecl, hvalue, rfl⟩)
      (decl'.paramKey, text') (mem_mergedValues_iff.mpr ⟨decl', hdecl', hvalue', rfl⟩)
      (paramVariable_inj.mpr hsame)

/-- Where the variables are told apart like the keys, every value keeps its own. -/
theorem envValue_of_nodup {resolved : ResolvedParameters}
    (hdistinct : (resolved.values.map fun kv => paramVariable kv.1).Nodup) :
    ∀ kv ∈ resolved.values,
      envValue (planEnv os config resolved) (paramVariable kv.1) = some kv.2 := by
  intro kv hkv
  obtain ⟨before, after, hsplit⟩ := List.append_of_mem hkv
  rw [envValue_eq_some_iff (sortedEnv_planEnv os config resolved)]
  refine mem_planEnv_iff.mpr (.inl ⟨before, kv, after, hsplit, rfl, fun other hother hsame => ?_⟩)
  rw [hsplit, List.map_append, List.map_cons] at hdistinct
  obtain ⟨hlater, -⟩ := List.nodup_cons.mp (List.nodup_append.mp hdistinct).2.1
  refine hlater (List.mem_map.mpr ⟨other, hother, ?_⟩)
  exact paramVariable_inj.mpr hsame

/-- In a plan every resolved parameter has a variable of its own with its value,
if and only if no two of them have keys that differ in case alone. -/
theorem parameters_carried_iff {hook : Hook} (hcontract : StoredContract declared)
    {resolved : ResolvedParameters} (hresolved : resolveParameters declared supplied = .ok resolved)
    {plan : CommandPlan} (hplan : buildCommandPlan os config hook resolved = .ok plan) :
    plan.Carries resolved ↔ ToldApart declared supplied := by
  obtain ⟨-, rfl⟩ := resolveParameters_eq_ok_iff.mp hresolved
  obtain ⟨-, -, -, -, henv, -⟩ := buildCommandPlan_ok hplan
  have hkeys : ((mergedValues supplied declared).map (·.1)).Nodup :=
    hcontract.keys.2.sublist (mergedValues_keys_sublist supplied declared)
  rw [toldApart_iff]
  constructor
  · intro h kv hkv other hother hsame
    rw [List.inj_on_of_nodup_map h.distinct hkv hother hsame]
  · intro h
    have hdistinct : ((mergedValues supplied declared).map fun kv => paramVariable kv.1).Nodup := by
      refine hkeys.of_map _ |>.map_on fun kv hkv other hother hsame => ?_
      exact List.inj_on_of_nodup_map hkeys hkv hother (h kv hkv other hother hsame)
    refine ⟨?_, hdistinct⟩
    rw [henv]
    exact envValue_of_nodup hdistinct

end

section Sample

open Sample

def declareUser (key : String) : AdminRequest :=
  .createHookParameter "deploy" ⟨key, none, none, some false⟩

/-- The master declares two parameters on the hook, named alike up to case. -/
def twoUsersWorld : World :=
  ((handleAdmin (ctx 5) Sample.masterRow (declareUser "USER")).run Op.exec
    ((handleAdmin (ctx 4) Sample.masterRow (declareUser "user")).run Op.exec deployment).2).2

def userParameter (id : Uuid) (key : String) : HookParameter :=
  { id := id
    hookId := 301
    paramKey := key
    description := none
    defaultValue := none
    isRequired := false
    createdAt := epochSeconds * nanosPerSecond }

def twoUsers : List HookParameter := [userParameter 501 "USER", userParameter 401 "user"]

theorem reachable_twoUsers : Reachable Sample.state twoUsersWorld :=
  reachable_master (reachable_master reachable_deployment 4 "/hooks/deploy/parameters"
    (declareUser "user") rfl rfl rfl) 5 "/hooks/deploy/parameters" (declareUser "USER") rfl rfl rfl

theorem storedContract_twoUsers : StoredContract twoUsers := by
  refine ⟨Sample.state, twoUsersWorld, 301, reachable_twoUsers, ?_⟩
  have hrows : (twoUsersWorld.db.hookParameters.filter (·.hookId == 301)).insertionSort
      HookParameter.before = twoUsers := by decide
  rw [loadParameters, Handler.exec_sql, ← hrows]
  rfl

/-- One of them alone arrives. -/
theorem parameters_carried_iff_user :
    CommandPlan.Carries ⟨"/opt/deploy.sh", ["bob"], [("HOOK_PARAM_USER", "bob")], none⟩
      ⟨[("user", "bob")], []⟩ ↔ ToldApart twoUsers [("user", .string "bob")] :=
  @parameters_carried_iff _ _ Sample.os Sample.config deployHook storedContract_twoUsers
    ⟨[("user", "bob")], []⟩ rfl _ rfl

/-- Of both of them the first one is overwritten. -/
theorem carried_twice :
    ¬∀ {declared : List HookParameter}, StoredContract declared →
      ∀ {supplied : List (String × Json)} {resolved : ResolvedParameters},
        resolveParameters declared supplied = .ok resolved →
      ∀ {os : Os} {config : RuntimeConfig} {hook : Hook} {plan : CommandPlan},
        buildCommandPlan os config hook resolved = .ok plan → plan.Carries resolved := by
  intro h
  have hcarries : CommandPlan.Carries
      ⟨"/opt/deploy.sh", ["root", "bob"], [("HOOK_PARAM_USER", "bob")], none⟩
      ⟨[("USER", "root"), ("user", "bob")], []⟩ :=
    @h _ storedContract_twoUsers [("user", .string "bob"), ("USER", .string "root")]
      ⟨[("USER", "root"), ("user", "bob")], []⟩ rfl Sample.os Sample.config deployHook _ rfl
  exact absurd (hcarries.values ("USER", "root") List.mem_cons_self) (by decide)

end Sample

end HookExecutor.Executor
