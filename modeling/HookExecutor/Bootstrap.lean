import HookExecutor.Master

/-!
# Starting a process

Before the listener binds, a database without a master gets one, and the
identity of the sole master is pinned. A process starts with an empty replay
guard and fresh budgets; only the database outlives it.
-/

namespace HookExecutor

open Crypto

/-- What a start reads from its surroundings. -/
structure Startup where
  draws : Draws
  initialMasterKey : Option String
  bootstrapSubnet : Option String
  startedAt : Instant

/-- The master minted against an empty table. It has no parent, and it signs
over the standard template. -/
def masterRow (state : AppState) (start : Startup) : Except AppError ApiKey := do
  let plaintextKey := start.initialMasterKey.getD (generateRandomKey (start.draws.randomBytes 0))
  let sealedSecret ← (state.cipher.sealText state.platform.prim (start.draws.randomBytes 3)
    (generateSigningSecret (start.draws.randomBytes 2))).mapError fun _ => .internal
  return { id := start.draws.uuid 0
           name := "System Master"
           keyHash := hashKey state.platform.prim plaintextKey
           prefixText := displayPrefix plaintextKey
           keyId := some (generateKeyId (start.draws.randomBytes 1))
           signingSecret := some sealedSecret
           hmacMode := .canonicalV1
           boundIps := some (start.bootstrapSubnet.getD "0.0.0.0/0,::/0")
           maxConcurrentJobs := 10
           isMaster := true
           canManageKeys := true
           canManageHooks := true
           parentKeyId := none
           createdAt := start.draws.now 0
           updatedAt := start.draws.now 0
           canonicalTemplate := none }

def bootstrapMasterKey (state : AppState) (start : Startup) : Handler Unit := do
  let existing ← sql (.selectApiKeys .isMaster .unordered)
  if existing.isEmpty then
    let row ← .ofExcept (masterRow state start)
    sql (.insertApiKey row)
  else pure ()

/-- Fatal unless the database names exactly one master. -/
def pinAtBoot : Handler Unit := do
  let found ← resolveInner
  match found with
  | .error _ => .fail .internal
  | .ok id => .ask (.pinMaster id)

def boot (state : AppState) (start : Startup) : Handler Unit := do
  bootstrapMasterKey state start
  pinAtBoot

/-- What a process holds before it has looked at its database. -/
def startProcess (state : AppState) (start : Startup) (db : Database) : World :=
  { db := db
    replay := .new state.config.signatureMaxAgeSeconds start.startedAt
    pinned := none
    limiter := [] }

def Database.empty : Database := ⟨[], [], [], [], [], []⟩

end HookExecutor
