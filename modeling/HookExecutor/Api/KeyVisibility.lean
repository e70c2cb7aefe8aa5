import HookExecutor.Lib.Walk
import HookExecutor.Api.Guards

/-!
# How much of another key a caller may see

Lineage scopes visibility and deletion: a key sees itself and its subtree in
full, and sees minimally any key holding a row on a hook it manages. Every other
key is answered like one that does not exist.
-/

namespace HookExecutor

inductive KeyVisibility where
  | full | minimal
  deriving DecidableEq

/-- The keys created by any of `parents`. -/
def childKeyIds (parents : List Uuid) : Handler (List Uuid) :=
  List.map (·.id) <$> sql (.selectApiKeys (.parentKeyIdIn parents) .unordered)

/-- More levels than there can be identifiers. -/
def maxLevels : Nat := 2 ^ 128 + 1

/-- The keys below `root`, found one level of lineage at a time. -/
def descendantKeyIds (root : Uuid) : Handler (List Uuid) :=
  Walk.levels childKeyIds root maxLevels [] [root]

def managedHookIds (keyId : Uuid) : Handler (List Uuid) :=
  List.map (·.hookId) <$> sql (.selectPermissions (.and (.apiKeyIdEq keyId) .canManage))

def keyVisibility (caller target : ApiKey) : Handler (Option KeyVisibility) := do
  if caller.isMaster || caller.id == target.id then pure (some .full)
  else
    let below ← descendantKeyIds caller.id
    if below.contains target.id then pure (some .full)
    else
      let managed ← managedHookIds caller.id
      if managed.isEmpty then pure none
      else
        let shared ← sql (.selectPermissions (.and (.apiKeyIdEq target.id) (.hookIdIn managed)))
        pure (if shared.isEmpty then none else some .minimal)

/-- The key a lifecycle route addresses, visible in full. -/
def loadAdministrableKey (caller : ApiKey) (id : Uuid) : Handler ApiKey := do
  let found ← findApiKeyById id
  let target ← orElse found .notFound
  let visibility ← keyVisibility caller target
  .require (visibility = some .full) .notFound
  return target

end HookExecutor
