import HookExecutor.Entities

/-!
# Errors

Every handler answers `Result<_, AppError>`, and one place decides the status
code and the text a client is shown. A raw driver error is never shown.
-/

namespace HookExecutor

/-- How a statement fails. The two constraint violations are told apart because
two inserts turn the first of them into a conflict. -/
inductive DbErr where
  | uniqueConstraintViolation
  | foreignKeyConstraintViolation
  | recordNotUpdated
  | other (text : String)
  deriving DecidableEq

structure DoomedKey where
  id : Uuid
  name : String
  deriving DecidableEq

structure OwnedEntity where
  entityType : String
  id : Uuid
  name : String
  currentOwner : Uuid
  deriving DecidableEq

/-- What a refused key deletion shows its caller. -/
structure InventoryRefusalDetails where
  subtree : List DoomedKey
  inventory : List OwnedEntity
  deriving DecidableEq

inductive AppError where
  | dbError (err : DbErr)
  | invalidInput (msg : String)
  | unauthorized (msg : String)
  | forbidden (msg : String)
  | notFound
  | conflict (msg : String)
  | conflictWithDetails (message : String) (details : InventoryRefusalDetails)
  | tooManyRequests (msg : String)
  | bodyRejected (status : Nat) (msg : String)
  | internal
  /-- Not a value of the source's type: the handler panicked and no response was
  sent. -/
  | panicked
  deriving DecidableEq

namespace AppError

def status : AppError → Nat
  | dbError _ => 500
  | invalidInput _ => 400
  | unauthorized _ => 401
  | forbidden _ => 403
  | notFound => 404
  | conflict _ => 409
  | conflictWithDetails _ _ => 409
  | tooManyRequests _ => 429
  | bodyRejected status _ => status
  | internal => 500
  | panicked => 0

/-- The `error` field of the response body. -/
def message : AppError → String
  | dbError _ => "Internal database error"
  | invalidInput msg => msg
  | unauthorized msg => msg
  | forbidden msg => msg
  | notFound => "Resource not found"
  | conflict msg => msg
  | conflictWithDetails msg _ => msg
  | tooManyRequests msg => msg
  | bodyRejected _ msg => msg
  | internal => "An internal server error occurred"
  | panicked => ""

end AppError

end HookExecutor
