import HookExecutor.Uuid

/-!
# The replay guard

Signatures that were accepted, each remembered until an instant of the
monotonic clock. A sweep drops what has expired, when a routine sweep is due or
the memory has reached its ceiling; an expired entry the sweep has not reached
is not honoured either, so the answers do not depend on when sweeps run.
-/

namespace HookExecutor

/-- Nanoseconds of the monotonic clock. -/
abbrev Instant := Int

def nanosPerSecond : Int := 1000000000

/-- One accepted signature: the key that made it and its raw digest. -/
structure SignatureId where
  keyId : Uuid
  digest : Bytes
  deriving DecidableEq

structure ReplayGuard where
  /-- Accepted signatures and the instant each stops being remembered. -/
  seen : List (SignatureId × Instant)
  next : Instant
  nextCapacity : Instant
  window : Int
  pruneInterval : Int
  capacityBackoff : Int
  deriving DecidableEq

namespace ReplayGuard

def maxTrackedSignatures : Nat := 250000

/-- The configured window in seconds, clamped into `1 ..= 3600`. -/
def clampedWindow (windowSeconds : Int) : Int := max 1 (min windowSeconds 3600)

def new (windowSeconds : Int) (now : Instant) : ReplayGuard :=
  let window := clampedWindow windowSeconds * nanosPerSecond
  { seen := []
    next := now + window / 4
    nextCapacity := now
    window := window
    pruneInterval := window / 4
    capacityBackoff := window / 16 }

/-- Drop what has expired, when a sweep is due. -/
def pruneIfDue (g : ReplayGuard) (now : Instant) : ReplayGuard :=
  let overCapacity := maxTrackedSignatures ≤ g.seen.length
  let routineDue := g.next ≤ now
  let capacityDue := overCapacity ∧ g.nextCapacity ≤ now
  if ¬routineDue ∧ ¬capacityDue then g
  else
    { g with
      next := now + g.pruneInterval
      nextCapacity := if capacityDue then now + g.capacityBackoff else g.nextCapacity
      seen := g.seen.filter fun entry => now < entry.2 }

def lookup (g : ReplayGuard) (id : SignatureId) : Option Instant :=
  (g.seen.find? fun entry => entry.1 == id).map (·.2)

/-- Remember `id` from `now` on, in place of what was remembered of it. -/
def record (g : ReplayGuard) (id : SignatureId) (now : Instant) : ReplayGuard :=
  { g with seen := (id, now + g.window) :: g.seen.filter fun entry => entry.1 != id }

/-- Whether this is a first use, recording it if so. -/
def checkAndRecord (g : ReplayGuard) (keyId : Uuid) (digest : Bytes) (now : Instant) :
    Bool × ReplayGuard :=
  let pruned := g.pruneIfDue now
  let id : SignatureId := ⟨keyId, digest⟩
  match pruned.lookup id with
  | some expiresAt => if now < expiresAt then (false, pruned) else (true, pruned.record id now)
  | none => (true, pruned.record id now)

end ReplayGuard

end HookExecutor
