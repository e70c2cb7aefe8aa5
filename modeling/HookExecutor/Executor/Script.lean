import HookExecutor.Api.Support

/-!
# Script paths and the accounts scripts run under

The checks a script path and a `run_as_user` pass when a hook is defined, and
the stronger ones a hook passes again before it runs, each with the diagnosis
it gives. Paths are read by their components: empty and `.` segments do not
count, and containment in a root is a comparison of components.
-/

namespace HookExecutor

open Text

inductive ScriptRejection where
  | notFound | permissionDenied | notARegularFile | notExecutable | outsideAllowedRoots
  | malformedPath | invalidRunAsUser | sudoUnavailable | argsTemplateSubstitution | unusable
  deriving DecidableEq

structure ScriptError where
  rejection : ScriptRejection
  detail : String
  deriving DecidableEq

def ScriptError.toAppError (e : ScriptError) : AppError := .invalidInput e.detail

namespace Executor

def sudoBinary : String := "/usr/bin/sudo"
def maxUsernameLen : Nat := 32

/-! ### `run_as_user` -/

/-- The account a stored value asks for: blank means none. -/
def effectiveRunAsUser (runAsUser : Option String) : Option String :=
  nonEmpty (runAsUser.map trim)

def isAsciiAlphabetic (c : Char) : Bool :=
  ('a' ≤ c && c ≤ 'z') || ('A' ≤ c && c ≤ 'Z')

def isAsciiAlphanumeric (c : Char) : Bool := isAsciiAlphabetic c || ('0' ≤ c && c ≤ '9')

/-- The characters after the first one, without one trailing `$`. -/
def usernameBody (cs : List Char) : List Char :=
  if cs.getLast? = some '$' then cs.dropLast else cs

def validateRunAsUser (runAsUser : String) : Except ScriptError Unit :=
  let invalid (reason : String) : Except ScriptError Unit :=
    .error ⟨.invalidRunAsUser, s!"Invalid run_as_user '{runAsUser}': {reason}"⟩
  let user := trim runAsUser
  if user = "" then invalid "must not be empty (omit the field to run as the daemon user)"
  else if maxUsernameLen < (asBytes user).length then
    invalid s!"must be at most {maxUsernameLen} characters"
  else match user.toList with
    | [] => invalid "must start with an ASCII letter or underscore"
    | c :: rest =>
      if !(isAsciiAlphabetic c || c == '_') then
        invalid "must start with an ASCII letter or underscore"
      else if !(usernameBody rest).all fun c => isAsciiAlphanumeric c || c == '_' || c == '-' then
        invalid "may only contain ASCII letters, digits, '_' and '-'"
      else .ok ()

/-! ### Paths -/

inductive PathComponent where
  | rootDir
  | parentDir
  | normal (name : String)
  deriving DecidableEq

def isAbsolute (path : String) : Bool := path.toList.head? == some '/'

/-- The components of a path, `.` segments left out. -/
def pathComponents (path : String) : List PathComponent :=
  let segments := (split '/' path).filter fun s => s != "" && s != "."
  let names := segments.map fun s => if s = ".." then PathComponent.parentDir else .normal s
  if isAbsolute path then .rootDir :: names else names

def isWithinRoots (candidate : String) (roots : List String) : Bool :=
  roots.isEmpty || roots.any fun root => (pathComponents root).isPrefixOf (pathComponents candidate)

/-- The directories a setting names; blank and relative entries are left out. -/
def parseScriptRoots (raw : String) : List String :=
  (((split ',' raw).map trim).filter fun entry => entry != "").filter isAbsolute

def describeRoots (roots : List String) : String := ", ".intercalate roots

/-- The checks a path passes when a hook is defined. -/
def validateScriptPath (scriptPath : String) (allowedRoots : List String) :
    Except ScriptError Unit :=
  if scriptPath.toList.contains (Char.ofNat 0) then
    .error ⟨.malformedPath, "script_path must not contain NUL bytes"⟩
  else if !isAbsolute scriptPath then
    .error ⟨.malformedPath, (s!"script_path must be an absolute path (got '{scriptPath}'); a " ++
      "relative path would resolve against the daemon's working directory, which is not a stable " ++
      "boundary")⟩
  else if (pathComponents scriptPath).contains .parentDir then
    .error ⟨.malformedPath,
      s!"script_path must not contain '..' traversal segments (got '{scriptPath}')"⟩
  else if !isWithinRoots scriptPath allowedRoots then
    .error ⟨.outsideAllowedRoots, (s!"script_path '{scriptPath}' is outside the allowed script " ++
      s!"roots ({describeRoots allowedRoots}). Choose a path inside one of them, or extend " ++
      "ALLOWED_SCRIPT_ROOTS.")⟩
  else .ok ()

/-! ### Diagnoses before a run -/

def diagnostic (scriptPath cause remedy : String) : String :=
  s!"[ERROR] Cannot execute '{scriptPath}': {cause}. {remedy}"

/-- The text of some components, and of each of their ancestors, root first. -/
def componentText : PathComponent → String
  | .rootDir => "/"
  | .parentDir => ".."
  | .normal name => name

def componentsText : List PathComponent → String
  | .rootDir :: rest => "/" ++ "/".intercalate (rest.map componentText)
  | components => "/".intercalate (components.map componentText)

/-- The shallowest directory on a path that may not be searched. -/
def firstUnsearchableDirectory (os : Os) (path : String) : Option String :=
  let components := pathComponents path
  let chain := components.inits
  let refused (part : List PathComponent) : Bool :=
    match os.metadata (componentsText part) with
    | .error e => e.kind == .permissionDenied
    | .ok _ => false
  match chain.find? refused with
  | some part => if part.length ≤ 1 then none else some (componentsText part.dropLast)
  | none => none

def classifyIoError (os : Os) (scriptPath : String) (error : IoError) (atSpawn : Bool) :
    ScriptError :=
  let identity := os.processIdentity
  match error.kind with
  | .notFound => ⟨.notFound, diagnostic scriptPath "No such file or directory (ENOENT)"
      "The path does not exist. Deploy the script there, or correct the hook's script_path."⟩
  | .permissionDenied =>
    let remedy := match firstUnsearchableDirectory os scriptPath, atSpawn with
      | some dir, _ => (s!"Running as {identity}, which cannot search the directory '{dir}'. Grant " ++
          "traverse permission on it and every parent (chmod +x), or adjust ownership.")
      | none, true => (s!"Running as {identity}. The file is reachable but exec was refused — " ++
          s!"check the execution bit (chmod +x '{scriptPath}'), that {identity} owns it or matches " ++
          "its group, and that its filesystem is not mounted 'noexec'.")
      | none, false => (s!"Running as {identity}. Check the execution bit (chmod +x " ++
          s!"'{scriptPath}') and the user/group ownership of the script and its parent directories.")
    ⟨.permissionDenied, diagnostic scriptPath "Permission denied (EACCES)" remedy⟩
  | .other name => ⟨.unusable, diagnostic scriptPath s!"{error.text} (os error kind: {name})"
      s!"Running as {identity}. Inspect the path with 'ls -l' and 'stat'."⟩

/-- Four octal digits. -/
def octalText (mode : Nat) : String :=
  String.ofList ([512, 64, 8, 1].map fun unit => hexDigit (mode / unit % 8))

/-- Executable by someone, not necessarily by the daemon. -/
def hasExecuteBit (mode : Nat) : Bool := mode &&& 0o111 != 0

def ensureExecutable (os : Os) (scriptPath : String) (allowedRoots : List String) :
    Except ScriptError Unit := do
  let canonical ← (os.canonicalize scriptPath).mapError
    fun e => classifyIoError os scriptPath e false
  if !isWithinRoots canonical allowedRoots then
    .error ⟨.outsideAllowedRoots, diagnostic scriptPath
      s!"it resolves to '{canonical}', which is outside the allowed script roots"
      (s!"Allowed roots are: {describeRoots allowedRoots}. Move the script inside one of them, or " ++
        "extend ALLOWED_SCRIPT_ROOTS. (A symlink pointing outside the roots is rejected here even " ++
        "when its own path looks contained.)")⟩
  else
    let metadata ← (os.metadata canonical).mapError fun e => classifyIoError os scriptPath e false
    if !metadata.isFile then
      .error ⟨.notARegularFile, diagnostic scriptPath
        "not a regular file (it is a directory, socket, or device node)"
        "Point script_path at an executable file."⟩
    else if !hasExecuteBit metadata.mode then
      .error ⟨.notExecutable, diagnostic scriptPath
        s!"the file exists but has no execute bit set (mode {octalText metadata.mode})"
        (s!"Run 'chmod +x {scriptPath}' and ensure {os.processIdentity} owns it or matches its " ++
          "group.")⟩
    else .ok ()

def ensureSudoAvailable (os : Os) (runAsUser : String) : Except ScriptError Unit :=
  let sudoError (cause remedy : String) : Except ScriptError Unit :=
    .error ⟨.sudoUnavailable,
      s!"[ERROR] Cannot run this hook as '{runAsUser}': {cause}. {remedy}"⟩
  match os.metadata sudoBinary with
  | .error e =>
    if e.kind = .notFound then
      sudoError s!"'{sudoBinary}' does not exist"
        "Install sudo, or clear the hook's run_as_user to run it as the daemon user."
    else
      sudoError s!"'{sudoBinary}' is not accessible ({e.text})"
        "Check that the daemon user can reach it."
  | .ok metadata =>
    if !hasExecuteBit metadata.mode then
      sudoError s!"'{sudoBinary}' is not executable"
        "Restore its permissions (normally 4755)."
    else .ok ()

/-- The checks every run passes first, a dry run included. -/
def ensureRunnable (os : Os) (config : RuntimeConfig) (hook : Hook) : Except ScriptError Unit := do
  (match effectiveRunAsUser hook.runAsUser with
    | some user => do
      validateRunAsUser user
      ensureSudoAvailable os user
    | none => .ok ())
  ensureExecutable os hook.scriptPath config.allowedScriptRoots

end Executor

end HookExecutor
