import HookExecutor.Executor.Script

/-!
# From parameters to a command

A hook's declared parameters are merged with what the caller supplied, and the
result becomes the argument vector and the environment of one process. Nothing
passes through a shell: a template is split on whitespace first, and the values
are substituted into its tokens afterwards.
-/

namespace HookExecutor.Executor

open Text

def paramEnvPrefix : String := "HOOK_PARAM_"

def isIdentChar (c : Char) : Bool := isAsciiAlphanumeric c || c == '_'

def isIdentStart (c : Char) : Bool := isAsciiAlphabetic c || c == '_'

/-- `[A-Za-z_][A-Za-z0-9_]*`. -/
def isValidParamKey (key : String) : Bool :=
  match key.toList with
  | [] => false
  | c :: cs => isIdentStart c && cs.all isIdentChar

/-! ### Resolving parameters -/

structure ResolvedParameters where
  values : List (String × String)
  missingRequired : List String
  deriving DecidableEq

/-- The text of a scalar; `null` counts as not supplied. -/
def coerceParamValue (key : String) (value : Json) : Except AppError (Option String) :=
  let checked (text : String) : Except AppError (Option String) :=
    if text.toList.contains (Char.ofNat 0) then
      .error (.invalidInput s!"Parameter '{key}' must not contain NUL bytes")
    else .ok (some text)
  match value with
  | .null => .ok none
  | .string s => checked s
  | .number n => checked n
  | .bool b => checked (if b then "true" else "false")
  | .array _ | .object _ =>
    .error (.invalidInput s!"Parameter '{key}' must be a string, number, or boolean")

/-- One declaration merged into what has been resolved so far. -/
def resolveParameter (supplied : List (String × Json)) (acc : ResolvedParameters)
    (decl : HookParameter) : Except AppError ResolvedParameters := do
  let suppliedValue ← (match Json.member supplied decl.paramKey with
    | some raw => coerceParamValue decl.paramKey raw
    | none => .ok none)
  match suppliedValue.or decl.defaultValue with
  | some value => .ok { acc with values := acc.values ++ [(decl.paramKey, value)] }
  | none =>
    if decl.isRequired then
      .ok { acc with missingRequired := acc.missingRequired ++ [decl.paramKey] }
    else .ok acc

def textLe (a b : String) : Prop := a.toList ≤ b.toList

instance : DecidableRel textLe := fun a b => inferInstanceAs (Decidable (a.toList ≤ b.toList))

def resolveParameters (declared : List HookParameter) (supplied : List (String × Json)) :
    Except AppError ResolvedParameters :=
  let unknown := (supplied.map (·.1)).filter fun k => !declared.any fun d => d.paramKey == k
  if unknown.isEmpty then declared.foldlM (resolveParameter supplied) ⟨[], []⟩
  else .error (.invalidInput
    ("Unknown parameter(s) for this hook: " ++ ", ".intercalate (unknown.insertionSort textLe)))

def ResolvedParameters.toJson (resolved : ResolvedParameters) : Json :=
  .object (resolved.values.map fun kv => (kv.1, .string kv.2))

/-! ### Argument templates -/

def argsTemplateForbidden : List String := ["|", ";", "&", "\n", "$("]

/-- Whether `part` occurs in a text. -/
def occursIn (part text : String) : Bool :=
  text.toList.tails.any fun rest => part.toList.isPrefixOf rest

/-- What a `$` introduces: the name of a braced reference and whether its brace
is closed, a bare name, or nothing. -/
inductive Reference where
  | braced (name : List Char) (closed : Bool)
  | bare (name : List Char)
  | literal

def referenceAfterDollar : List Char → Reference
  | '{' :: cs =>
    let name := cs.takeWhile (· != '}')
    .braced name (name.length < cs.length)
  | c :: cs => if isIdentStart c then .bare ((c :: cs).takeWhile isIdentChar) else .literal
  | [] => .literal

/-- The names a template references, scanning from the left; `skip` counts the
characters of a reference still to be passed over. -/
def templateNames : (skip : Nat) → List Char → List String
  | _, [] => []
  | skip + 1, _ :: cs => templateNames skip cs
  | 0, c :: cs =>
    if c ≠ '$' then templateNames 0 cs
    else match referenceAfterDollar cs with
      | .braced name closed =>
        let rest := templateNames (name.length + 2) cs
        if closed && !name.isEmpty then String.ofList name :: rest else rest
      | .bare name => String.ofList name :: templateNames name.length cs
      | .literal => templateNames 0 cs

def extractTemplateVariableNames (template : String) : List String :=
  templateNames 0 template.toList

def lookupValue (values : List (String × String)) (name : String) : Option String :=
  (values.reverse.find? fun kv => kv.1 == name).map (·.2)

/-- The value a reference stands for, refused if it is missing or carries a
forbidden sequence. -/
def substituteReference (token : String) (values : List (String × String)) (name : String) :
    Except ScriptError (List Char) :=
  match lookupValue values name with
  | none => .error ⟨.argsTemplateSubstitution, (s!"args_template references '${name}' in " ++
      s!"'{token}', which has no resolved value (not supplied and no default)")⟩
  | some value =>
    match argsTemplateForbidden.find? fun f => occursIn f value with
    | some bad => .error ⟨.argsTemplateSubstitution,
        s!"parameter '{name}' resolved to a value containing the forbidden sequence '{bad}'"⟩
    | none => .ok value.toList

def substituteChars (token : String) (values : List (String × String)) :
    (skip : Nat) → List Char → Except ScriptError (List Char)
  | _, [] => .ok []
  | skip + 1, _ :: cs => substituteChars token values skip cs
  | 0, c :: cs =>
    if c ≠ '$' then (c :: ·) <$> substituteChars token values 0 cs
    else match referenceAfterDollar cs with
      | .braced name closed =>
        if !closed then .error ⟨.argsTemplateSubstitution,
          s!"args_template has an unterminated '$\x7b' in '{token}'"⟩
        else do
          let value ← substituteReference token values (String.ofList name)
          let rest ← substituteChars token values (name.length + 2) cs
          .ok (value ++ rest)
      | .bare name => do
          let value ← substituteReference token values (String.ofList name)
          let rest ← substituteChars token values name.length cs
          .ok (value ++ rest)
      | .literal => (c :: ·) <$> substituteChars token values 0 cs

def substituteToken (values : List (String × String)) (token : String) :
    Except ScriptError String :=
  String.ofList <$> substituteChars token values 0 token.toList

/-- The maximal stretches without whitespace. -/
def splitWhitespaceChars : List Char → List (List Char)
  | [] => []
  | c :: cs =>
    if isWhitespace c then splitWhitespaceChars cs
    else match cs with
      | [] => [[c]]
      | d :: _ =>
        if isWhitespace d then [c] :: splitWhitespaceChars cs
        else match splitWhitespaceChars cs with
          | piece :: rest => (c :: piece) :: rest
          | [] => [[c]]

def splitWhitespace (s : String) : List String :=
  (splitWhitespaceChars s.toList).map String.ofList

def resolveArgsTemplate (template : String) (resolved : ResolvedParameters) :
    Except ScriptError (List String) :=
  (splitWhitespace template).mapM (substituteToken resolved.values)

/-! ### The plan -/

structure CommandPlan where
  program : String
  args : List String
  /-- Sorted by name, one entry a name. -/
  env : List (String × String)
  runAsUser : Option String
  deriving DecidableEq

/-- Bind a variable in a sorted environment, in place of its old value. -/
def envInsert (name value : String) : List (String × String) → List (String × String)
  | [] => [(name, value)]
  | entry :: rest =>
    if entry.1 = name then (name, value) :: rest
    else if textLe name entry.1 then (name, value) :: entry :: rest
    else entry :: envInsert name value rest

/-- Allowed variables the daemon has, then every parameter under its own
name. A declared key is an ASCII identifier, so its upper case is ASCII too. -/
def planEnv (os : Os) (config : RuntimeConfig) (resolved : ResolvedParameters) :
    List (String × String) :=
  let inherited := config.allowedEnvVars.foldl (fun env name =>
    match os.envVar name with
    | some value => envInsert name value env
    | none => env) []
  resolved.values.foldl (fun env kv => envInsert (paramEnvPrefix ++ asciiUpper kv.1) kv.2 env)
    inherited

def buildCommandPlan (os : Os) (config : RuntimeConfig) (hook : Hook)
    (resolved : ResolvedParameters) : Except ScriptError CommandPlan := do
  let runAsUser := effectiveRunAsUser hook.runAsUser
  let (program, leading) := match runAsUser with
    | some user => (sudoBinary, ["-n", "-u", user, "--", hook.scriptPath])
    | none => (hook.scriptPath, [])
  let trailing ← (match nonEmpty (hook.argsTemplate.map trim) with
    | some template => resolveArgsTemplate template resolved
    | none => .ok (resolved.values.map (·.2)))
  return ⟨program, leading ++ trailing, planEnv os config resolved, runAsUser⟩

end HookExecutor.Executor
