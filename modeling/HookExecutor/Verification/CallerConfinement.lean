import HookExecutor.Verification.ParameterVariables

/-!
# What a caller can change about a run

Two runs of one hook that differ in what the caller supplied differ in the values
of the parameters alone: in arguments behind the end of sudo's options, in
variables of the parameters' prefix, and in nothing else.
-/

namespace HookExecutor.Executor

open Text

/-- The plan a caller's parameters come to. -/
def callerPlan (os : Os) (config : RuntimeConfig) (hook : Hook) (declared : List HookParameter)
    (supplied : List (String × Json)) : Except AppError CommandPlan := do
  let resolved ← resolveParameters declared supplied
  (buildCommandPlan os config hook resolved).mapError ScriptError.toAppError

section

variable {os : Os} {config : RuntimeConfig} {hook : Hook} {declared : List HookParameter}
  {resolved : ResolvedParameters} {plan plan' : CommandPlan}

theorem starts_paramEnvPrefix (key : String) :
    paramEnvPrefix.toList <+: (paramVariable key).toList := by
  rw [paramVariable, String.toList_append]
  exact List.prefix_append _ _

/-- A variable without the prefix is inherited. -/
theorem envValue_planEnv_of_not_prefix {name : String}
    (h : ¬paramEnvPrefix.toList <+: name.toList) :
    envValue (planEnv os config resolved) name = envValue (inheritedEnv os config) name := by
  have hother : ∀ kv : String × String, paramVariable kv.1 ≠ name := by
    rintro kv rfl
    exact h (starts_paramEnvPrefix kv.1)
  ext value
  rw [envValue_eq_some_iff (sortedEnv_planEnv os config resolved),
    envValue_eq_some_iff sortedEnv_inherited, mem_planEnv_iff]
  constructor
  · rintro (⟨_, kv, _, -, heq, -⟩ | ⟨hmem, -⟩)
    · exact absurd (congrArg Prod.fst heq).symm (hother kv)
    · exact hmem
  · intro hmem
    exact .inr ⟨hmem, fun kv _ => hother kv⟩

theorem length_of_resolveArgsTemplate {template : String} {args : List String}
    (h : resolveArgsTemplate template resolved = .ok args) :
    args.length = (splitWhitespaceChars template.toList).length := by
  obtain ⟨parses, hparses, -, rfl⟩ := resolveArgsTemplate_eq_ok_iff.mp h
  rw [List.length_map]
  exact hparses.length_eq.symm

/-- What holds of the plan of a hook whatever was supplied. -/
structure PlannedFor (os : Os) (config : RuntimeConfig) (hook : Hook) (plan : CommandPlan) :
    Prop where
  program : plan.program =
    (effectiveRunAsUser hook.runAsUser).elim hook.scriptPath fun _ => sudoBinary
  runAsUser : plan.runAsUser = effectiveRunAsUser hook.runAsUser
  elevated : ∀ user, effectiveRunAsUser hook.runAsUser = some user →
    ["-n", "-u", user, "--", hook.scriptPath] <+: plan.args
  count : ∀ template ∈ templateInForce hook, plan.args.length =
    (effectiveRunAsUser hook.runAsUser).elim 0 (fun _ => 5) +
      (splitWhitespaceChars template.toList).length
  inherited : ∀ name, ¬paramEnvPrefix.toList <+: name.toList →
    envValue plan.env name = envValue (inheritedEnv os config) name

theorem plannedFor_of_buildCommandPlan (h : buildCommandPlan os config hook resolved = .ok plan) :
    PlannedFor os config hook plan := by
  obtain ⟨leading, trailing, htrailing, hargs, henv, hrunAs, hprogram⟩ := buildCommandPlan_ok h
  have hcount : ∀ template ∈ templateInForce hook,
      trailing.length = (splitWhitespaceChars template.toList).length := by
    intro template htemplate
    rw [Option.mem_def.mp htemplate] at htrailing
    exact length_of_resolveArgsTemplate htrailing
  have hinherited : ∀ name, ¬paramEnvPrefix.toList <+: name.toList →
      envValue plan.env name = envValue (inheritedEnv os config) name := by
    intro name hname
    rw [henv, envValue_planEnv_of_not_prefix hname]
  obtain ⟨hnone, hscript, rfl⟩ | ⟨user, huser, hsudo, rfl⟩ := hprogram
  · refine ⟨?_, hrunAs, ?_, ?_, hinherited⟩
    · rw [hnone, hscript]
      rfl
    · intro user huser
      cases hnone.symm.trans huser
    · intro template htemplate
      rw [hargs, hnone, List.nil_append, hcount template htemplate, Option.elim_none, Nat.zero_add]
  · refine ⟨?_, hrunAs, ?_, ?_, hinherited⟩
    · rw [huser, hsudo]
      rfl
    · intro user' huser'
      obtain rfl := Option.some.inj (huser.symm.trans huser')
      exact ⟨trailing, hargs.symm⟩
    · intro template htemplate
      rw [hargs, huser, List.length_append, hcount template htemplate]
      rfl

theorem plannedFor_of_callerPlan {supplied : List (String × Json)}
    (h : callerPlan os config hook declared supplied = .ok plan) :
    PlannedFor os config hook plan := by
  obtain ⟨resolved, -, hplan⟩ := Except.bind_eq_ok_iff.mp h
  exact plannedFor_of_buildCommandPlan (Except.mapError_eq_ok_iff.mp hplan)

/-- Two plans of one hook, for whatever two callers supply: the program, the
account, the beginning of an elevated hook's arguments up to the script, the
number of arguments a template in force makes, and every variable that is not a
parameter's are the same. -/
theorem caller_confined {supplied supplied' : List (String × Json)}
    (h : callerPlan os config hook declared supplied = .ok plan)
    (h' : callerPlan os config hook declared supplied' = .ok plan') :
    plan.program = plan'.program ∧ plan.runAsUser = plan'.runAsUser ∧
    (∀ user, plan.runAsUser = some user →
      ["-n", "-u", user, "--", hook.scriptPath] <+: plan.args ∧
      ["-n", "-u", user, "--", hook.scriptPath] <+: plan'.args) ∧
    (templateInForce hook ≠ none → plan.args.length = plan'.args.length) ∧
    ∀ name, ¬paramEnvPrefix.toList <+: name.toList →
      envValue plan.env name = envValue plan'.env name := by
  have hplan := plannedFor_of_callerPlan h
  have hplan' := plannedFor_of_callerPlan h'
  refine ⟨hplan.program.trans hplan'.program.symm, hplan.runAsUser.trans hplan'.runAsUser.symm,
    ?_, ?_, ?_⟩
  · intro user huser
    have heffective := hplan.runAsUser.symm.trans huser
    exact ⟨hplan.elevated user heffective, hplan'.elevated user heffective⟩
  · intro htemplate
    obtain ⟨template, htemplate⟩ := Option.ne_none_iff_exists'.mp htemplate
    rw [hplan.count template htemplate, hplan'.count template htemplate]
  · intro name hname
    rw [hplan.inherited name hname, hplan'.inherited name hname]

end

section Sample

open Sample

def elevatedHook : Hook :=
  { deployHook with runAsUser := some "deployer", argsTemplate := some "--user=$user" }

def elevatedPlan (user : String) : CommandPlan :=
  ⟨"/usr/bin/sudo", ["-n", "-u", "deployer", "--", "/opt/deploy.sh", "--user=" ++ user],
    [("HOOK_PARAM_USER", user)], some "deployer"⟩

/-- Two callers of one elevated hook. -/
theorem caller_confined_elevated :
    (elevatedPlan "ann").program = (elevatedPlan "bob").program ∧
    (elevatedPlan "ann").runAsUser = (elevatedPlan "bob").runAsUser ∧
    (∀ user, (elevatedPlan "ann").runAsUser = some user →
      ["-n", "-u", user, "--", elevatedHook.scriptPath] <+: (elevatedPlan "ann").args ∧
      ["-n", "-u", user, "--", elevatedHook.scriptPath] <+: (elevatedPlan "bob").args) ∧
    (templateInForce elevatedHook ≠ none →
      (elevatedPlan "ann").args.length = (elevatedPlan "bob").args.length) ∧
    ∀ name, ¬paramEnvPrefix.toList <+: name.toList →
      envValue (elevatedPlan "ann").env name = envValue (elevatedPlan "bob").env name :=
  @caller_confined Sample.os Sample.config elevatedHook twoUsers _ _ [("user", .string "ann")]
    [("user", .string "bob")] rfl rfl

/-- The master stores a blank template. -/
def blankTemplate : AdminRequest := .updateHook "deploy" { argsTemplate := some " " }

def blankWorld : World :=
  ((handleAdmin (ctx 6) Sample.masterRow blankTemplate).run Op.exec twoUsersWorld).2

def blankHook : Hook := { deployHook with argsTemplate := some " " }

theorem storedHook_blank : StoredHook blankHook :=
  ⟨Sample.state, blankWorld, reachable_master reachable_twoUsers 6 "/hooks/deploy" blankTemplate
    rfl rfl rfl, by decide⟩

/-- Blank, a stored template is none at all, and the values that a caller
supplies are arguments of their own. -/
theorem blank_template_counts :
    ¬∀ {hook : Hook} {declared : List HookParameter}, StoredHook hook → StoredContract declared →
      ∀ {os : Os} {config : RuntimeConfig} {supplied supplied' : List (String × Json)}
        {plan plan' : CommandPlan},
        callerPlan os config hook declared supplied = .ok plan →
        callerPlan os config hook declared supplied' = .ok plan' →
        hook.argsTemplate ≠ none → plan.args.length = plan'.args.length := by
  intro h
  have hlength := @h blankHook twoUsers storedHook_blank storedContract_twoUsers Sample.os
    Sample.config [] [("user", .string "bob")] ⟨"/opt/deploy.sh", [], [], none⟩
    ⟨"/opt/deploy.sh", ["bob"], [("HOOK_PARAM_USER", "bob")], none⟩ rfl rfl (by decide)
  cases hlength

end Sample

end HookExecutor.Executor
