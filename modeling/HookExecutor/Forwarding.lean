import HookExecutor.Proxies

/-!
# Forwarded client addresses

Addresses are read the way the standard library reads them: an IPv4 address is
four decimal octets without leading zeros; an IPv6 address is up to eight
hexadecimal groups, with one `::` for at least one group of zeros and possibly
an IPv4 address in place of the last two. The client's address is the peer's,
unless the peer is a trusted proxy and forwards another one.
-/

namespace HookExecutor

open Text

namespace IpAddr

/-! ### Reading addresses -/

/-- All the digits at the front, if they are not too many and the number they
spell fits. -/
def readNumber (value : Char → Option Nat) (radix maxDigits bound : Nat) (allowZeroPrefix : Bool)
    (cs : List Char) : Option (Nat × List Char) :=
  let digits := cs.takeWhile fun c => (value c).isSome
  let n := digits.foldl (fun n c => n * radix + (value c).getD 0) 0
  if digits.isEmpty || maxDigits < digits.length then none
  else if !allowZeroPrefix && digits.head? == some '0' && 1 < digits.length then none
  else if n < bound then some (n, cs.drop digits.length)
  else none

def readOctet : List Char → Option (Nat × List Char) := readNumber decimalValue 10 3 256 false

def readGroup : List Char → Option (Nat × List Char) := readNumber hexValue 16 4 65536 true

/-- A separator is read before every item but the first. -/
def readSeparator {α : Type} (sep : Char) (index : Nat)
    (inner : List Char → Option (α × List Char)) (cs : List Char) : Option (α × List Char) :=
  if index = 0 then inner cs
  else if cs.head? = some sep then inner cs.tail
  else none

def readOctets : (left index : Nat) → List Char → Option (List Nat × List Char)
  | 0, _, cs => some ([], cs)
  | left + 1, index, cs =>
    (readSeparator '.' index readOctet cs).bind fun first =>
      (readOctets left (index + 1) first.2).map fun others =>
        (first.1 :: others.1, others.2)

def readIpv4 (cs : List Char) : Option (BitVec 32 × List Char) :=
  (readOctets 4 0 cs).map fun r =>
    (BitVec.ofNat 32 (r.1.foldl (fun n octet => n * 256 + octet) 0), r.2)

/-- Groups until one cannot be read, and whether they end in an IPv4 address,
which takes the place of two. -/
def readGroups : (left index : Nat) → List Char → (List Nat × Bool) × List Char
  | 0, _, cs => (([], false), cs)
  | left + 1, index, cs =>
    let embedded := if 0 < left then readSeparator ':' index readIpv4 cs else none
    match embedded with
    | some (bits, rest) => (([bits.toNat / 65536, bits.toNat % 65536], true), rest)
    | none =>
      match readSeparator ':' index readGroup cs with
      | some (group, rest) =>
        let others := readGroups left (index + 1) rest
        ((group :: others.1.1, others.1.2), others.2)
      | none => (([], false), cs)

def ofGroups (groups : List Nat) : BitVec 128 :=
  BitVec.ofNat 128 (groups.foldl (fun n group => n * 65536 + group) 0)

def readIpv6 (cs : List Char) : Option (BitVec 128 × List Char) :=
  let head := readGroups 8 0 cs
  if head.1.1.length = 8 then some (ofGroups head.1.1, head.2)
  else if head.1.2 then none
  else if head.2.take 2 = [':', ':'] then
    let tail := readGroups (7 - head.1.1.length) 0 (head.2.drop 2)
    let zeros := List.replicate (8 - head.1.1.length - tail.1.1.length) 0
    some (ofGroups (head.1.1 ++ zeros ++ tail.1.1), tail.2)
  else none

/-- The whole text has to be one address. -/
def parse (s : String) : Option IpAddr :=
  match readIpv4 s.toList with
  | some (bits, rest) => if rest.isEmpty then some (.v4 bits) else none
  | none =>
    match readIpv6 s.toList with
    | some (bits, rest) => if rest.isEmpty then some (.v6 bits) else none
    | none => none

end IpAddr

/-! ### Whose request it is -/

/-- The rightmost address of a forwarding list that no trusted proxy has. -/
def forwardedClient (forwarded : String) (trusted : List IpNetwork) : Option IpAddr :=
  (((((split ',' forwarded).map trim).filter fun s => s != "").filterMap IpAddr.parse).map
    normalizeIp).reverse.find? fun ip => !isTrusted ip trusted

def realIp (headers : HeaderMap) : Option IpAddr :=
  (((headers.getStr "X-Real-IP").map trim).bind IpAddr.parse).map normalizeIp

def resolveClientIp (peer : IpAddr) (headers : HeaderMap) (trusted : List IpNetwork) : IpAddr :=
  let peer := normalizeIp peer
  if !isTrusted peer trusted then peer
  else
    let client := (headers.getStr "X-Forwarded-For").bind fun forwarded =>
      forwardedClient forwarded trusted
    match client with
    | some client => client
    | none =>
      match realIp headers with
      | some ip => ip
      | none => peer

end HookExecutor
