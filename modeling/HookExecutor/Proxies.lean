import HookExecutor.Network
import HookExecutor.Replay

/-!
# Trusted proxies

The peers whose forwarding headers are believed: literal networks, and names
whose addresses are looked up and remembered for a while, longer when the
lookup succeeded. What requests read is a flattened copy of both, rebuilt when
a name was looked up again. A critical section is handed the clock readings and
the resolver's answers it meets, by the position of the name in the
configuration.
-/

namespace HookExecutor

/-- The addresses a network contains. -/
abbrev IpNetwork := IpAddr → Bool

/-- One address as a network. -/
def hostRoute (ip : IpAddr) : IpNetwork := fun other => other == ip

/-- An IPv4-mapped IPv6 address in its IPv4 form. -/
def normalizeIp : IpAddr → IpAddr
  | .v6 bits =>
    if bits.toNat / 2 ^ 32 = 0xFFFF then .v4 (BitVec.ofNat 32 bits.toNat) else .v6 bits
  | .v4 bits => .v4 bits

def isTrusted (ip : IpAddr) (trusted : List IpNetwork) : Bool := trusted.any fun net => net ip

/-- One entry of the configuration. -/
inductive ProxySpec where
  | network (network : IpNetwork)
  | hostname (name : String)

/-- What the resolver answers: addresses, or a failure. -/
abbrev Lookup := Option (List IpAddr)

/-- The networks an answer names, and whether it counts as a success: an answer
without addresses does not. -/
def resolveHostname (lookup : Lookup) : List IpNetwork × Bool :=
  match lookup with
  | some addrs =>
    let networks := addrs.map fun addr => hostRoute (normalizeIp addr)
    if networks.isEmpty then (networks, false) else (networks, true)
  | none => ([], false)

/-- The most recent lookup of one name. -/
structure HostnameEntry where
  networks : List IpNetwork
  resolved : Bool
  lookedUpAt : Instant

/-- Nanoseconds from one instant to a later one. -/
def elapsed (since now : Instant) : Nat := Int.toNat (now - since)

def HostnameEntry.isFresh (entry : HostnameEntry) (positive negative : Nat) (now : Instant) :
    Bool :=
  elapsed entry.lookedUpAt now < if entry.resolved then positive else negative

structure ResolvedProxies where
  hosts : List (String × HostnameEntry)
  merged : List IpNetwork

namespace ResolvedProxies

def findHost (hosts : List (String × HostnameEntry)) (name : String) : Option HostnameEntry :=
  (hosts.find? fun host => host.1 == name).map (·.2)

def insertHost (hosts : List (String × HostnameEntry)) (name : String) (entry : HostnameEntry) :
    List (String × HostnameEntry) :=
  (name, entry) :: hosts.filter fun host => host.1 != name

end ResolvedProxies

open ResolvedProxies

structure TrustedProxies where
  spec : List ProxySpec
  ttl : Nat
  negativeTtl : Nat

/-- What a section meets at one name: the clock when it looks at the entry, the
resolver's answer, and the clock when it stores that. -/
structure Probe where
  checkedAt : Instant
  lookup : Lookup
  storedAt : Instant

namespace TrustedProxies

def dnsTtl : Nat := 30 * 1000000000
def dnsNegativeTtl : Nat := 5 * 1000000000

def new (spec : List ProxySpec) : TrustedProxies := ⟨spec, dnsTtl, dnsNegativeTtl⟩

variable (proxies : TrustedProxies)

/-- The literal entries. -/
def networks : List IpNetwork :=
  proxies.spec.filterMap fun entry =>
    match entry with
    | .network network => some network
    | .hostname _ => none

def hostnames : List String :=
  proxies.spec.filterMap fun entry =>
    match entry with
    | .hostname name => some name
    | .network _ => none

/-- Until a name resolves it contributes nothing. -/
def emptyCache : ResolvedProxies := ⟨[], proxies.networks⟩

def freshAt (hosts : List (String × HostnameEntry)) (name : String) (now : Instant) : Bool :=
  (findHost hosts name).any fun entry => entry.isFresh proxies.ttl proxies.negativeTtl now

def allFresh (cache : ResolvedProxies) (clock : Nat → Instant) : Bool :=
  proxies.hostnames.zipIdx.all fun host => proxies.freshAt cache.hosts host.1 (clock host.2)

/-- A refresh under way. -/
structure Refresh where
  hosts : List (String × HostnameEntry)
  changed : Bool
  failed : List String
  /-- The queries sent to the resolver and what came of them, in order. -/
  queries : List (String × Probe)

def refreshHost (force : Bool) (probe : Nat → Probe) (r : Refresh) (host : String × Nat) :
    Refresh :=
  if !force && proxies.freshAt r.hosts host.1 (probe host.2).checkedAt then
    -- a cached failure is reported as a failure
    if (findHost r.hosts host.1).any fun entry => !entry.resolved then
      { r with failed := r.failed ++ [host.1] }
    else r
  else
    let answer := resolveHostname (probe host.2).lookup
    { hosts := insertHost r.hosts host.1 ⟨answer.1, answer.2, (probe host.2).storedAt⟩
      changed := true
      failed := if answer.2 then r.failed else r.failed ++ [host.1]
      queries := r.queries ++ [(host.1, probe host.2)] }

def refreshed (force : Bool) (probe : Nat → Probe) (cache : ResolvedProxies) : Refresh :=
  proxies.hostnames.zipIdx.foldl (proxies.refreshHost force probe) ⟨cache.hosts, false, [], []⟩

/-- The cache a refresh leaves; the flattened copy is rebuilt if anything was
looked up. The table is unordered, so only the members of the copy matter. -/
def refreshStale (force : Bool) (probe : Nat → Probe) (cache : ResolvedProxies) :
    ResolvedProxies :=
  let r := proxies.refreshed force probe cache
  { hosts := r.hosts
    merged := if r.changed then proxies.networks ++ r.hosts.flatMap (·.2.networks)
      else cache.merged }

/-! ### Critical sections -/

/-- What a section does to the cache: the networks it hands out, if it does,
the names it reports, and the queries it made. -/
structure SectionResult where
  resolved : Option (List IpNetwork)
  failed : List String
  queries : List (String × Probe)

/-- The first part of `resolved`, under the read lock: the copy, if all is
fresh. -/
def resolvedRead (clock : Nat → Instant) (cache : ResolvedProxies) :
    SectionResult × ResolvedProxies :=
  if proxies.hostnames.isEmpty then (⟨some proxies.networks, [], []⟩, cache)
  else if proxies.allFresh cache clock then (⟨some cache.merged, [], []⟩, cache)
  else (⟨none, [], []⟩, cache)

/-- The second part, under the write lock: several requests may have queued
behind one expiry, and the first of them made the lookups. -/
def resolvedWrite (clock : Nat → Instant) (probe : Nat → Probe) (cache : ResolvedProxies) :
    SectionResult × ResolvedProxies :=
  if proxies.allFresh cache clock then (⟨some cache.merged, [], []⟩, cache)
  else
    let cache' := proxies.refreshStale false probe cache
    (⟨some cache'.merged, [], (proxies.refreshed false probe cache).queries⟩, cache')

/-- Look every name up, and report those that failed. -/
def prime (probe : Nat → Probe) (cache : ResolvedProxies) : SectionResult × ResolvedProxies :=
  if proxies.hostnames.isEmpty then (⟨none, [], []⟩, cache)
  else
    let r := proxies.refreshed true probe cache
    (⟨none, r.failed, r.queries⟩, proxies.refreshStale true probe cache)

/-- A whole call that no other call overlaps. -/
def resolved (readClock writeClock : Nat → Instant) (probe : Nat → Probe)
    (cache : ResolvedProxies) : SectionResult × ResolvedProxies :=
  let first := proxies.resolvedRead readClock cache
  if first.1.resolved.isSome then first else proxies.resolvedWrite writeClock probe first.2

end TrustedProxies

end HookExecutor
