import Mathlib.Algebra.GroupWithZero.Nat
import Mathlib.Data.Fintype.Card
import HookExecutor.Lib.Text

/-!
# Identifiers

Every row is named by a 128-bit UUID. Requests carry them as text, so the two
textual readings matter: how an identifier is printed, and which texts parse
as one. A text that does not parse is tried as a hook name instead.
-/

namespace HookExecutor

open Text

abbrev Uuid := Fin (2 ^ 128)

instance Uuid.instNeZero : NeZero (2 ^ 128 : Nat) := ⟨by decide⟩

namespace Uuid

/-- The hyphenated lower-case form, `8-4-4-4-12` digits. -/
def toText (id : Uuid) : String :=
  let digits := hexDigits 32 id.val
  String.ofList (digits.take 8 ++ '-' :: (digits.drop 8).take 4 ++
    '-' :: (digits.drop 12).take 4 ++ '-' :: (digits.drop 16).take 4 ++
    '-' :: digits.drop 20)

def ofDigits (digits : List Char) : Option Uuid :=
  if digits.length = 32 then (hexNumber digits).map (Fin.ofNat (2 ^ 128)) else none

/-- Hyphens in their four places, hexadecimal digits everywhere else. -/
def parseHyphenated (cs : List Char) : Option Uuid :=
  match splitChars '-' cs with
  | [a, b, c, d, e] =>
    if a.length = 8 ∧ b.length = 4 ∧ c.length = 4 ∧ d.length = 4 ∧ e.length = 12 then
      ofDigits (a ++ b ++ c ++ d ++ e)
    else none
  | _ => none

/-- The plain, hyphenated, braced and URN forms, told apart by their byte
length first. -/
def parseStr (s : String) : Option Uuid :=
  let cs := s.toList
  match (asBytes s).length with
  | 32 => ofDigits cs
  | 36 => parseHyphenated cs
  | 38 =>
    match stripPrefixChars ['{'] cs with
    | some rest => if rest.getLast? = some '}' then parseHyphenated rest.dropLast else none
    | none => none
  | 45 =>
    match stripPrefixChars "urn:uuid:".toList cs with
    | some rest => parseHyphenated rest
    | none => none
  | _ => none

/-- A list without repetition cannot name more identifiers than there are. -/
theorem length_le_of_nodup {ids : List Uuid} (h : ids.Nodup) : ids.length ≤ 2 ^ 128 := by
  simpa using h.length_le_card

end Uuid

end HookExecutor
