import HookExecutor.Lib.Text

/-!
# Client addresses and request headers

Addresses are numbers of their width, printed the way the audit trail stores
them. Headers keep their order and their raw bytes: a name is looked up without
regard to case and the first value wins, and a value is text only when every
byte of it is visible ASCII.
-/

namespace HookExecutor

open Text

inductive IpAddr where
  | v4 (bits : BitVec 32)
  | v6 (bits : BitVec 128)
  deriving DecidableEq

namespace IpAddr

/-- The bytes of an address, most significant first. -/
def octets (bits : BitVec 32) : List Nat :=
  [24, 16, 8, 0].map fun shift => bits.toNat / 2 ^ shift % 256

def segments (bits : BitVec 128) : List Nat :=
  [112, 96, 80, 64, 48, 32, 16, 0].map fun shift => bits.toNat / 2 ^ shift % 65536

def v4Text (bits : BitVec 32) : String :=
  ".".intercalate ((octets bits).map toString)

/-- Hexadecimal without leading zeros. -/
def hexText (n : Nat) : String :=
  String.ofList (match (hexDigits 4 n).dropWhile (· == '0') with
    | [] => ['0']
    | digits => digits)

/-- How many zero segments start at each position. -/
def zeroRuns : List Nat → List Nat
  | [] => []
  | n :: ns =>
    let runs := zeroRuns ns
    (if n == 0 then runs.headD 0 + 1 else 0) :: runs

/-- The leftmost longest run of zeros, if it is longer than one segment. -/
def longestZeros (ns : List Nat) : Option (Nat × Nat) :=
  let runs := zeroRuns ns
  let longest := runs.foldl max 0
  if longest ≤ 1 then none else (runs.findIdx? (· == longest)).map fun i => (i, longest)

def v6Text (bits : BitVec 128) : String :=
  let ns := segments bits
  if ns.take 6 == [0, 0, 0, 0, 0, 0xFFFF] then
    "::ffff:" ++ v4Text (BitVec.ofNat 32 bits.toNat)
  else
    let join := fun part : List Nat => ":".intercalate (part.map hexText)
    match longestZeros ns with
    | some (start, length) => join (ns.take start) ++ "::" ++ join (ns.drop (start + length))
    | none => join ns

def toText : IpAddr → String
  | v4 bits => v4Text bits
  | v6 bits => v6Text bits

end IpAddr

/-- Header names are kept in lower case. -/
structure HeaderMap where
  entries : List (String × Bytes)

namespace HeaderMap

/-- The first value under a name. -/
def get (headers : HeaderMap) (name : String) : Option Bytes :=
  (headers.entries.find? fun entry => entry.1 == asciiLower name).map (·.2)

def containsKey (headers : HeaderMap) (name : String) : Bool := (headers.get name).isSome

/-- A value as text, if every byte is visible ASCII or a tab. -/
def toStr (value : Bytes) : Option String :=
  if value.all fun b => (0x20 ≤ b && b < 0x7F) || b == 0x09 then
    some (String.ofList (value.map fun b => Char.ofNat b.toNat))
  else none

/-- The first value under a name, read as text. -/
def getStr (headers : HeaderMap) (name : String) : Option String :=
  (headers.get name).bind toStr

end HeaderMap

end HookExecutor
