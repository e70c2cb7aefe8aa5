import Mathlib.Algebra.Group.Int.Defs
import Mathlib.Algebra.Group.Nat.Defs
import Mathlib.Data.Char
import Mathlib.Data.List.Basic
import Mathlib.Data.List.Lex

/-!
# Text and bytes

Strings as the standard library of a systems language treats them: a text is a
sequence of scalar values, stored as its UTF-8 bytes. The operations here are
the ones that read requests need: trimming, splitting, hexadecimal, decimal
integers of a machine width, percent decoding and lossy decoding.
-/

abbrev Bytes := List UInt8

namespace Text

/-- The UTF-8 bytes of a text. -/
def asBytes (s : String) : Bytes := s.toUTF8.data.toList

/-- The text some bytes encode, if they are valid UTF-8. -/
def fromUtf8 (bytes : Bytes) : Option String := String.fromUTF8? ⟨bytes.toArray⟩

theorem asBytes_injective {s t : String} (h : asBytes s = asBytes t) : s = t := by
  apply String.toByteArray_inj.mp
  have harray : s.toByteArray.data = t.toByteArray.data := Array.toList_inj.mp h
  exact ByteArray.ext harray

theorem asBytes_ofList (cs : List Char) :
    asBytes (String.ofList cs) = cs.flatMap String.utf8EncodeChar := by
  simp [asBytes, List.utf8Encode]

/-- Where a separator first occurs is settled by the sequence. -/
theorem append_cons_inj_of_notMem_of_notMem {α : Type} {x y u v : List α} {a : α} (hx : a ∉ x)
    (hy : a ∉ y) (h : x ++ a :: u = y ++ a :: v) : x = y ∧ u = v := by
  induction x generalizing y with
  | nil =>
    cases y with
    | nil => exact ⟨rfl, (List.cons.inj h).2⟩
    | cons b y => exact absurd (List.cons.inj h).1 fun hab => hy (by simp [hab])
  | cons c x ih =>
    cases y with
    | nil => exact absurd (List.cons.inj h).1 fun hca => hx (by simp [hca])
    | cons b y =>
      obtain ⟨rfl, htail⟩ := List.cons.inj h
      obtain ⟨rfl, rfl⟩ := ih (fun hmem => hx (List.mem_cons_of_mem _ hmem))
        (fun hmem => hy (List.mem_cons_of_mem _ hmem)) htail
      exact ⟨rfl, rfl⟩

/-! ### Trimming and splitting -/

/-- The Unicode `White_Space` property. -/
def isWhitespace (c : Char) : Bool :=
  let n := c.toNat
  (0x9 ≤ n && n ≤ 0xD) || n == 0x20 || n == 0x85 || n == 0xA0 || n == 0x1680 ||
    (0x2000 ≤ n && n ≤ 0x200A) || n == 0x2028 || n == 0x2029 || n == 0x202F ||
    n == 0x205F || n == 0x3000

def trimChars (cs : List Char) : List Char :=
  ((cs.dropWhile isWhitespace).reverse.dropWhile isWhitespace).reverse

def trim (s : String) : String := String.ofList (trimChars s.toList)

/-- The pieces of a sequence between its separators; there is always one more
piece than separators. -/
def splitChars (sep : Char) : List Char → List (List Char)
  | [] => [[]]
  | c :: cs =>
    if c = sep then [] :: splitChars sep cs
    else match splitChars sep cs with
      | piece :: rest => (c :: piece) :: rest
      | [] => [[c]]

def split (sep : Char) (s : String) : List String :=
  (splitChars sep s.toList).map String.ofList

theorem splitChars_ne_nil (sep : Char) (cs : List Char) : splitChars sep cs ≠ [] := by
  cases cs with
  | nil => simp [splitChars]
  | cons c cs =>
    simp only [splitChars]
    split
    · simp
    · split <;> simp

/-- A sequence without the separator is its own single piece. -/
theorem splitChars_of_notMem {sep : Char} {cs : List Char} (h : sep ∉ cs) :
    splitChars sep cs = [cs] := by
  induction cs with
  | nil => rfl
  | cons c cs ih =>
    have hc : c ≠ sep := fun hc => h (by simp [hc])
    have hcs : sep ∉ cs := fun hcs => h (by simp [hcs])
    simp [splitChars, hc, ih hcs]

/-- Text before the first separator and everything after it. -/
theorem splitChars_append {sep : Char} {cs ds : List Char} (h : sep ∉ cs) :
    splitChars sep (cs ++ sep :: ds) = cs :: splitChars sep ds := by
  induction cs with
  | nil => simp [splitChars]
  | cons c cs ih =>
    have hc : c ≠ sep := fun hc => h (by simp [hc])
    have hcs : sep ∉ cs := fun hcs => h (by simp [hcs])
    simp [splitChars, hc, ih hcs]

theorem notMem_of_mem_splitChars {sep : Char} {cs piece : List Char}
    (h : piece ∈ splitChars sep cs) : sep ∉ piece := by
  induction cs generalizing piece with
  | nil => simp_all [splitChars]
  | cons c cs ih =>
    rw [splitChars] at h
    split at h
    · obtain rfl | hrest := List.mem_cons.mp h
      · exact List.not_mem_nil
      · exact ih hrest
    · rename_i hc
      split at h
      · rename_i first rest heq
        obtain rfl | hrest := List.mem_cons.mp h
        · have hfirst : sep ∉ first := ih (by rw [heq]; exact List.mem_cons_self)
          simpa [Ne.symm hc] using hfirst
        · exact ih (by rw [heq]; exact List.mem_cons_of_mem _ hrest)
      · rename_i heq
        exact absurd heq (splitChars_ne_nil sep cs)

theorem mem_of_mem_splitChars {sep : Char} {cs piece : List Char} {c : Char}
    (h : piece ∈ splitChars sep cs) (hc : c ∈ piece) : c ∈ cs := by
  induction cs generalizing piece with
  | nil => simp_all [splitChars]
  | cons d cs ih =>
    rw [splitChars] at h
    split at h
    · obtain rfl | hrest := List.mem_cons.mp h
      · exact absurd hc List.not_mem_nil
      · exact List.mem_cons_of_mem _ (ih hrest hc)
    · split at h
      · rename_i first rest heq
        obtain rfl | hrest := List.mem_cons.mp h
        · obtain rfl | hc := List.mem_cons.mp hc
          · exact List.mem_cons_self
          · exact List.mem_cons_of_mem _ (ih (by rw [heq]; exact List.mem_cons_self) hc)
        · exact List.mem_cons_of_mem _ (ih (by rw [heq]; exact List.mem_cons_of_mem _ hrest) hc)
      · rename_i heq
        exact absurd heq (splitChars_ne_nil sep cs)

/-- A separator ends one list of pieces and starts another. -/
theorem splitChars_append_sep (sep : Char) (cs ds : List Char) :
    splitChars sep (cs ++ sep :: ds) = splitChars sep cs ++ splitChars sep ds := by
  induction cs with
  | nil => simp [splitChars]
  | cons c cs ih =>
    rw [List.cons_append, splitChars, splitChars, ih]
    split
    · rfl
    · obtain ⟨piece, rest, hpieces⟩ := List.exists_cons_of_ne_nil (splitChars_ne_nil sep cs)
      rw [hpieces]
      rfl

/-- Pieces joined by the separator are split again. -/
theorem splitChars_intercalate {sep : Char} {pieces : List (List Char)} (hne : pieces ≠ [])
    (h : ∀ piece ∈ pieces, sep ∉ piece) :
    splitChars sep (List.intercalate [sep] pieces) = pieces := by
  induction pieces with
  | nil => exact absurd rfl hne
  | cons piece pieces ih =>
    have hpiece : sep ∉ piece := h piece List.mem_cons_self
    cases pieces with
    | nil => simpa [List.intercalate] using splitChars_of_notMem hpiece
    | cons next rest =>
      have hrest := ih (List.cons_ne_nil _ _) fun q hq => h q (List.mem_cons_of_mem _ hq)
      rw [List.intercalate_cons_cons, List.append_assoc, List.singleton_append,
        splitChars_append hpiece, hrest]
/-- What follows a prefix, if the sequence starts with it. -/
def stripPrefixChars : List Char → List Char → Option (List Char)
  | [], cs => some cs
  | _ :: _, [] => none
  | p :: ps, c :: cs => if p = c then stripPrefixChars ps cs else none

def stripPrefix (pre s : String) : Option String :=
  (stripPrefixChars pre.toList s.toList).map String.ofList

/-- Every occurrence of a non-empty pattern replaced, scanning from the left;
`skip` counts the characters of an occurrence still to be passed over. -/
def replaceChars (pattern replacement : List Char) : (skip : Nat) → List Char → List Char
  | _, [] => []
  | skip + 1, _ :: cs => replaceChars pattern replacement skip cs
  | 0, c :: cs =>
    if pattern.isPrefixOf (c :: cs) then
      replacement ++ replaceChars pattern replacement (pattern.length - 1) cs
    else c :: replaceChars pattern replacement 0 cs

def replace (s pattern replacement : String) : String :=
  String.ofList (replaceChars pattern.toList replacement.toList 0 s.toList)

def asciiLower (s : String) : String := String.ofList (s.toList.map Char.toLower)

def asciiUpper (s : String) : String := String.ofList (s.toList.map Char.toUpper)

/-! ### Hexadecimal -/

def hexDigit (n : Nat) : Char :=
  if n < 10 then Char.ofNat (0x30 + n) else Char.ofNat (0x57 + n)

def hexValue (c : Char) : Option Nat :=
  let n := c.toNat
  if 0x30 ≤ n ∧ n ≤ 0x39 then some (n - 0x30)
  else if 0x41 ≤ n ∧ n ≤ 0x46 then some (n - 0x37)
  else if 0x61 ≤ n ∧ n ≤ 0x66 then some (n - 0x57)
  else none

/-- Lower-case hexadecimal, two digits a byte. -/
def hexEncodeChars (bytes : Bytes) : List Char :=
  bytes.flatMap fun b => [hexDigit (b.toNat / 16), hexDigit (b.toNat % 16)]

def hexEncode (bytes : Bytes) : String := String.ofList (hexEncodeChars bytes)

/-- Either case is read; an odd length or a stray character is refused. -/
def hexDecodeChars : List Char → Option Bytes
  | [] => some []
  | [_] => none
  | h :: l :: cs => do
    let high ← hexValue h
    let low ← hexValue l
    let rest ← hexDecodeChars cs
    return UInt8.ofNat (high * 16 + low) :: rest

def hexDecode (s : String) : Option Bytes := hexDecodeChars s.toList

/-- The digits of a number in a fixed width, most significant first. -/
def hexDigits : (width n : Nat) → List Char
  | 0, _ => []
  | width + 1, n => hexDigits width (n / 16) ++ [hexDigit (n % 16)]

/-- The number some hexadecimal digits spell. -/
def hexNumber (cs : List Char) : Option Nat :=
  cs.foldlM (fun n c => (hexValue c).map (n * 16 + ·)) 0

/-! ### Decimal integers -/

def decimalValue (c : Char) : Option Nat :=
  let n := c.toNat
  if 0x30 ≤ n ∧ n ≤ 0x39 then some (n - 0x30) else none

def decimalNumber (cs : List Char) : Option Nat :=
  if cs.isEmpty then none else cs.foldlM (fun n c => (decimalValue c).map (n * 10 + ·)) 0

/-- An optional sign, then at least one digit. -/
def signedNumber : List Char → Option Int
  | '-' :: cs => (decimalNumber cs).map fun n => -(n : Int)
  | '+' :: cs => (decimalNumber cs).map fun n => (n : Int)
  | cs => (decimalNumber cs).map fun n => (n : Int)

def InI64 (n : Int) : Prop := -2 ^ 63 ≤ n ∧ n < 2 ^ 63

instance (n : Int) : Decidable (InI64 n) := inferInstanceAs (Decidable (_ ∧ _))

/-- A decimal number that a 64-bit signed integer can hold. -/
def parseI64 (s : String) : Option Int :=
  (signedNumber s.toList).filter fun n => decide (InI64 n)

theorem parseI64_inI64 {s : String} {n : Int} (h : parseI64 s = some n) : InI64 n := by
  have hfilter := Option.filter_eq_some_iff.mp h
  simpa using hfilter.2

/-! ### Lossy decoding -/

def replacementChar : Char := Char.ofNat 0xFFFD

def isContinuation (b : UInt8) : Bool := 0x80 ≤ b && b ≤ 0xBF

/-- Whether `second` may follow the lead byte of a sequence of three or four. -/
def secondByteOk (lead second : UInt8) : Bool :=
  if lead == 0xE0 then 0xA0 ≤ second && second ≤ 0xBF
  else if lead == 0xED then 0x80 ≤ second && second ≤ 0x9F
  else if lead == 0xF0 then 0x90 ≤ second && second ≤ 0xBF
  else if lead == 0xF4 then 0x80 ≤ second && second ≤ 0x8F
  else isContinuation second

/-- The scalar value the bytes start with and how many bytes it takes. A
sequence that breaks off is one replacement character for the bytes up to the
break. -/
def lossyStep (lead : UInt8) (rest : Bytes) : Char × Nat :=
  let value (b : UInt8) : Nat := b.toNat % 64
  if lead < 0x80 then (Char.ofNat lead.toNat, 1)
  else if 0xC2 ≤ lead && lead ≤ 0xDF then
    match rest with
    | b :: _ =>
      if isContinuation b then (Char.ofNat (lead.toNat % 32 * 64 + value b), 2)
      else (replacementChar, 1)
    | [] => (replacementChar, 1)
  else if 0xE0 ≤ lead && lead ≤ 0xEF then
    match rest with
    | b :: c :: _ =>
      if !secondByteOk lead b then (replacementChar, 1)
      else if !isContinuation c then (replacementChar, 2)
      else (Char.ofNat (lead.toNat % 16 * 4096 + value b * 64 + value c), 3)
    | [b] => (replacementChar, if secondByteOk lead b then 2 else 1)
    | [] => (replacementChar, 1)
  else if 0xF0 ≤ lead && lead ≤ 0xF4 then
    match rest with
    | b :: c :: d :: _ =>
      if !secondByteOk lead b then (replacementChar, 1)
      else if !isContinuation c then (replacementChar, 2)
      else if !isContinuation d then (replacementChar, 3)
      else (Char.ofNat (lead.toNat % 8 * 262144 + value b * 4096 + value c * 64 + value d), 4)
    | [b, c] =>
      (replacementChar, if !secondByteOk lead b then 1 else if isContinuation c then 3 else 2)
    | [b] => (replacementChar, if secondByteOk lead b then 2 else 1)
    | [] => (replacementChar, 1)
  else (replacementChar, 1)

def lossyChars : (skip : Nat) → Bytes → List Char
  | _, [] => []
  | skip + 1, _ :: bytes => lossyChars skip bytes
  | 0, b :: bytes =>
    let (c, consumed) := lossyStep b bytes
    c :: lossyChars (consumed - 1) bytes

/-- The bytes as text, each invalid sequence replaced by U+FFFD. -/
def fromUtf8Lossy (bytes : Bytes) : String := String.ofList (lossyChars 0 bytes)

/-! ### Percent decoding -/

/-- Every `%` followed by two hexadecimal digits is the byte they spell; every
other byte stands for itself. -/
def percentDecodeChars : List Char → Bytes
  | [] => []
  | '%' :: h :: l :: cs =>
    match hexValue h, hexValue l with
    | some high, some low => UInt8.ofNat (high * 16 + low) :: percentDecodeChars cs
    | _, _ => asBytes "%" ++ percentDecodeChars (h :: l :: cs)
  | c :: cs => asBytes (String.singleton c) ++ percentDecodeChars cs
termination_by structural cs => cs

/-- The percent-decoded text, if the decoded bytes are valid UTF-8. -/
def percentDecode (s : String) : Option String := fromUtf8 (percentDecodeChars s.toList)

theorem fromUtf8_asBytes (s : String) : fromUtf8 (asBytes s) = some s := by
  have hbytes : (⟨(asBytes s).toArray⟩ : ByteArray) = s.toByteArray := rfl
  unfold fromUtf8 String.fromUTF8?
  rw [hbytes, dif_pos s.isValidUTF8]
  rfl

theorem percentDecodeChars_of_notMem {cs : List Char} (h : '%' ∉ cs) :
    percentDecodeChars cs = cs.flatMap String.utf8EncodeChar := by
  induction cs with
  | nil => rfl
  | cons c cs ih =>
    have hc : c ≠ '%' := fun hc => h (by simp [hc])
    have hone : asBytes (String.singleton c) = String.utf8EncodeChar c := by
      simp [asBytes, List.utf8Encode]
    rw [percentDecodeChars, hone, ih fun hmem => h (List.mem_cons_of_mem _ hmem)]
    · rfl
    · exact fun _ _ _ heq => absurd heq hc

/-- A text without an escape is its own decoding. -/
theorem percentDecode_of_notMem {s : String} (h : '%' ∉ s.toList) : percentDecode s = some s := by
  unfold percentDecode
  rw [percentDecodeChars_of_notMem h, ← asBytes_ofList, String.ofList_toList, fromUtf8_asBytes]

end Text
