import HookExecutor.Lib.Program
import HookExecutor.Crypto
import HookExecutor.Database
import HookExecutor.Network
import HookExecutor.Replay

/-!
# The process

What one process of the service holds, and the operations its handlers perform
on what they share: statements against the database, the replay guard, the
pinned master identity and the concurrency budgets. A handler is a `Program`
over these operations; everything else it reads (configuration, clock readings,
random draws, the filesystem) is handed to it in its `Context`.
-/

namespace HookExecutor

inductive Json where
  | null
  | bool (value : Bool)
  | number (text : String)
  | string (value : String)
  | array (items : List Json)
  | object (members : List (String × Json))

/-- Code the service calls and does not define: cryptography, the JSON and
network parsers, the textual timestamp parser, the collation of an SQL `LIKE`,
and the Unicode upper-case table. -/
structure Platform where
  prim : Primitives
  parseJson : Bytes → Except String Json
  renderJson : Json → String
  /-- The addresses a network contains, if the text names a network. -/
  parseNetwork : String → Option (IpAddr → Bool)
  parseRfc3339 : String → Option DateTime
  like : (pattern text : String) → Bool
  toUppercase : String → String

structure RuntimeConfig where
  allowedEnvVars : List String
  logRetentionDays : Int
  deletedHookRetentionDays : Int
  retentionSweepSeconds : Nat
  maxOutputBytes : Nat
  signatureMaxAgeSeconds : Int
  requireSignedRequests : Bool
  allowedScriptRoots : List String
  trustedProxies : List String

structure AppState where
  config : RuntimeConfig
  cipher : Crypto.SecretCipher
  platform : Platform

def maxRequestBodyBytes : Nat := 3 * 1024 * 1024

/-! ### What one request is given -/

/-- The identifiers, clock readings and random bytes a handler draws, in the
order it draws them. -/
structure Draws where
  uuid : Nat → Uuid
  now : Nat → DateTime
  randomBytes : Nat → Bytes

inductive IoErrorKind where
  | notFound | permissionDenied | other (name : String)
  deriving DecidableEq

structure IoError where
  kind : IoErrorKind
  text : String

structure FileMetadata where
  isFile : Bool
  mode : Nat

structure ExecutionOutcome where
  status : ExecutionStatus
  exitCode : Option Int
  stdout : String
  stderr : String
  durationMs : Int

/-- What the operating system answers while one request is served. -/
structure Os where
  envVar : String → Option String
  canonicalize : String → Except IoError String
  metadata : String → Except IoError FileMetadata
  processIdentity : String
  /-- Spawn a program with its arguments and environment, wait for it within a
  number of seconds and keep a number of bytes of each stream. -/
  runProcess : (program : String) → (args : List String) → (env : List (String × String)) →
    (timeoutSeconds maxOutputBytes : Nat) → ExecutionOutcome

structure Context where
  state : AppState
  clientIp : IpAddr
  draws : Draws
  os : Os

/-! ### What requests share -/

/-- The semaphore of one key: how many permits it was built with, how many are
out, and which semaphore of the key this is. -/
structure KeyBudget where
  permits : Nat
  inUse : Nat
  generation : Nat
  deriving DecidableEq

structure Permit where
  keyId : Uuid
  generation : Nat

structure World where
  db : Database
  replay : ReplayGuard
  /-- The master identity, once it has been established. -/
  pinned : Option Uuid
  limiter : List (Uuid × KeyBudget)
  deriving DecidableEq

namespace World

def budget (w : World) (keyId : Uuid) : Option KeyBudget :=
  (w.limiter.find? fun entry => entry.1 == keyId).map (·.2)

def setBudget (w : World) (keyId : Uuid) (b : KeyBudget) : World :=
  { w with limiter := (keyId, b) :: w.limiter.filter fun entry => entry.1 != keyId }

/-- The key's current semaphore, replaced if its budget was edited. -/
def currentBudget (w : World) (keyId : Uuid) (permits : Nat) : KeyBudget :=
  match w.budget keyId with
  | none => ⟨permits, 0, 0⟩
  | some b => if b.permits = permits then b else ⟨permits, 0, b.generation + 1⟩

def tryAcquire (w : World) (keyId : Uuid) (permits : Nat) : Option Permit × World :=
  let b := w.currentBudget keyId permits
  if b.inUse < b.permits then
    (some ⟨keyId, b.generation⟩, w.setBudget keyId { b with inUse := b.inUse + 1 })
  else (none, w.setBudget keyId b)

/-- A permit of a replaced semaphore no longer counts against anything. -/
def release (w : World) (permit : Permit) : World :=
  match w.budget permit.keyId with
  | none => w
  | some b =>
    if b.generation = permit.generation then
      w.setBudget permit.keyId { b with inUse := b.inUse - 1 }
    else w

@[simp] theorem setBudget_db (w : World) (keyId : Uuid) (b : KeyBudget) :
    (w.setBudget keyId b).db = w.db := rfl

@[simp] theorem tryAcquire_db (w : World) (keyId : Uuid) (permits : Nat) :
    (w.tryAcquire keyId permits).2.db = w.db := by
  simp only [tryAcquire]
  split <;> rfl

@[simp] theorem release_db (w : World) (permit : Permit) : (w.release permit).db = w.db := by
  simp only [release]
  split
  · rfl
  · split <;> rfl

@[simp] theorem tryAcquire_replay (w : World) (keyId : Uuid) (permits : Nat) :
    (w.tryAcquire keyId permits).2.replay = w.replay := by
  simp only [tryAcquire]
  split <;> rfl

@[simp] theorem release_replay (w : World) (permit : Permit) :
    (w.release permit).replay = w.replay := by
  simp only [release]
  split
  · rfl
  · split <;> rfl

@[simp] theorem tryAcquire_pinned (w : World) (keyId : Uuid) (permits : Nat) :
    (w.tryAcquire keyId permits).2.pinned = w.pinned := by
  simp only [tryAcquire]
  split <;> rfl

@[simp] theorem release_pinned (w : World) (permit : Permit) :
    (w.release permit).pinned = w.pinned := by
  simp only [release]
  split
  · rfl
  · split <;> rfl

end World

/-- One operation on what the requests of a process share. -/
inductive Op : Type → Type 1 where
  | db {β : Type} (s : Stmt β) : Op (Except DbErr β)
  | checkAndRecord (keyId : Uuid) (digest : Bytes) (now : Instant) : Op Bool
  | pinnedMaster : Op (Option Uuid)
  /-- Stored only if nothing was stored before. -/
  | pinMaster (id : Uuid) : Op Unit
  | tryAcquire (keyId : Uuid) (permits : Nat) : Op (Option Permit)
  | release (permit : Permit) : Op Unit

def Op.exec : Interpretation Op World
  | _, .db s, w => ((s.exec w.db).1, { w with db := (s.exec w.db).2 })
  | _, .checkAndRecord keyId digest now, w =>
    ((w.replay.checkAndRecord keyId digest now).1,
      { w with replay := (w.replay.checkAndRecord keyId digest now).2 })
  | _, .pinnedMaster, w => (w.pinned, w)
  | _, .pinMaster id, w => ((), { w with pinned := w.pinned.or (some id) })
  | _, .tryAcquire keyId permits, w => w.tryAcquire keyId permits
  | _, .release permit, w => ((), w.release permit)

abbrev Handler := Program Op AppError

/-- Issue a statement and report its failure as a database error. -/
def sql {β : Type} (s : Stmt β) : Handler β :=
  .query (.db s) fun r => .ofExcept (r.mapError .dbError)

/-- Issue a statement and look at how it failed. -/
def trySql {β : Type} (s : Stmt β) : Handler (Except DbErr β) := .ask (.db s)

namespace Handler

variable {α β : Type}

@[simp] theorem exec_sql (s : Stmt β) (w : World) :
    (sql s).run Op.exec w =
      ((s.exec w.db).1.mapError .dbError, { w with db := (s.exec w.db).2 }) := by
  simp [sql, Op.exec]

@[simp] theorem exec_trySql (s : Stmt β) (w : World) :
    (trySql s).run Op.exec w =
      (.ok (s.exec w.db).1, { w with db := (s.exec w.db).2 }) := rfl

end Handler

end HookExecutor
