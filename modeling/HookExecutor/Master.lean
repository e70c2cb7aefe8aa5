import HookExecutor.Api.Support

/-!
# The pinned master identity

Who the master is gets established once, from a database that names exactly
one, and is kept for the life of the process. Afterwards `is_master` on any
other row is noticed and not believed.
-/

namespace HookExecutor

inductive MasterPinError where
  | noMaster
  | duplicates (ids : List Uuid)
  | missingConstraint
  | db (err : DbErr)

/-- The sole master row, or why there is none. -/
def resolveInner : Handler (Except MasterPinError Uuid) := do
  let masters ← trySql (.selectApiKeys .isMaster .unordered)
  return match masters with
    | .error err => .error (.db err)
    | .ok [] => .error .noMaster
    | .ok [k] => .ok k.id
    | .ok ks => .error (.duplicates (ks.map (·.id)))

/-- The pinned identity, established on first use. -/
def resolveMaster : Handler (Option Uuid) := do
  let pinned ← Program.ask .pinnedMaster
  match pinned with
  | some id => return some id
  | none =>
    let found ← resolveInner
    match found with
    | .error _ => return none
    | .ok id =>
      Program.ask (.pinMaster id)
      Program.ask .pinnedMaster

/-- The identity established at startup, once the database has answered whether
the uniqueness index is there. An identity that was established before stays. -/
def MasterPin.pinAtBoot (hasIndex : Except DbErr Bool) :
    Handler (Except MasterPinError Uuid) :=
  match hasIndex with
  | .error err => return .error (.db err)
  | .ok false => return .error .missingConstraint
  | .ok true => do
    let found ← resolveInner
    match found with
    | .error e => return .error e
    | .ok id =>
      Program.ask (.pinMaster id)
      let pinned ← Program.ask .pinnedMaster
      return .ok (pinned.getD id)

/-- The principal a key record stands for: one that claims mastery without
being the pinned identity is an ordinary key. -/
def authenticatePin (key : ApiKey) : Handler ApiKey := do
  if !key.isMaster then return key
  else
    let pinned ← resolveMaster
    return if pinned = some key.id then key else { key with isMaster := false }

end HookExecutor
