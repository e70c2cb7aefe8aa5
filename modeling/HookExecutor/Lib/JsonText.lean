import HookExecutor.Lib.Spelling

/-!
# JSON texts of flat objects

An object whose members are strings, written without whitespace. A string may be
spelled in many ways, with two-character escapes and with code points in
hexadecimal; the writer has one spelling for each, and the reader takes them
all.
-/

namespace JsonText

open Text

/-! ### Spellings -/

def quote : Char := Char.ofNat 0x22
def backslash : Char := Char.ofNat 0x5c

/-- What may follow a backslash, with the character it stands for. -/
def shortEscapes : List (Char × Char) :=
  [(quote, quote), (backslash, backslash), ('/', '/'), ('b', Char.ofNat 8), ('f', Char.ofNat 12),
    ('n', Char.ofNat 10), ('r', Char.ofNat 13), ('t', Char.ofNat 9)]

/-- The code point of four hexadecimal digits. -/
def codePoint (a b c d : Char) : Option Nat := do
  let a ← hexValue a
  let b ← hexValue b
  let c ← hexValue c
  let d ← hexValue d
  return ((a * 16 + b) * 16 + c) * 16 + d

/-- What may stand for one character between quotes. -/
inductive SpellsChar : List Char → Char → Prop
  | plain {c : Char} (unquoted : c ≠ quote) (unescaped : c ≠ backslash)
      (printed : 0x20 ≤ c.toNat) : SpellsChar [c] c
  | short {e c : Char} (escape : (e, c) ∈ shortEscapes) : SpellsChar [backslash, e] c
  | unicode {a b c d : Char} {n : Nat} (digits : codePoint a b c d = some n)
      (scalar : n.isValidChar) : SpellsChar [backslash, 'u', a, b, c, d] (Char.ofNat n)

inductive SpellsChars : List Char → List Char → Prop
  | nil : SpellsChars [] []
  | cons {text more cs : List Char} {c : Char} (first : SpellsChar text c)
      (rest : SpellsChars more cs) : SpellsChars (text ++ more) (c :: cs)

/-- A string between its quotes. -/
inductive SpellsString : List Char → String → Prop
  | quoted {text : List Char} {s : String} (chars : SpellsChars text s.toList) :
      SpellsString (quote :: (text ++ [quote])) s

/-- The members of an object, with the bracket that closes it. -/
inductive SpellsMembers : List Char → List (String × String) → Prop
  | last {key value : List Char} {k v : String} (name : SpellsString key k)
      (content : SpellsString value v) : SpellsMembers (key ++ ':' :: (value ++ ['}'])) [(k, v)]
  | more {key value rest : List Char} {k v : String} {members : List (String × String)}
      (name : SpellsString key k) (content : SpellsString value v)
      (others : SpellsMembers rest members) :
      SpellsMembers (key ++ ':' :: (value ++ ',' :: rest)) ((k, v) :: members)

inductive SpellsObject : List Char → List (String × String) → Prop
  | empty : SpellsObject ['{', '}'] []
  | members {text : List Char} {members : List (String × String)}
      (spells : SpellsMembers text members) : SpellsObject ('{' :: text) members

/-! ### Writing -/

/-- The two-character escapes the writer uses. -/
def writtenEscapes : List (Char × Char) := shortEscapes.filter fun e => e.1 != '/'

def writeChar (c : Char) : List Char :=
  match writtenEscapes.find? fun e => e.2 == c with
  | some e => [backslash, e.1]
  | none =>
    if c.toNat < 0x20 then
      [backslash, 'u', '0', '0', hexDigit (c.toNat / 16), hexDigit (c.toNat % 16)]
    else [c]

def writeString (s : String) : List Char := quote :: (s.toList.flatMap writeChar ++ [quote])

def writeMembers : List (String × String) → List Char
  | [] => ['}']
  | [(k, v)] => writeString k ++ ':' :: (writeString v ++ ['}'])
  | (k, v) :: members => writeString k ++ ':' :: (writeString v ++ ',' :: writeMembers members)

def writeObject (members : List (String × String)) : List Char := '{' :: writeMembers members

theorem writeChar_spells (c : Char) : SpellsChar (writeChar c) c := by
  unfold writeChar
  cases hfound : writtenEscapes.find? fun e => e.2 == c with
  | some e =>
    obtain rfl : e.2 = c := by simpa using List.find?_some hfound
    exact .short (List.mem_of_mem_filter (List.mem_of_find?_eq_some hfound))
  | none =>
    rw [List.find?_eq_none] at hfound
    by_cases hcontrol : c.toNat < 0x20
    · dsimp only
      rw [if_pos hcontrol]
      have hdigits : codePoint '0' '0' (hexDigit (c.toNat / 16)) (hexDigit (c.toNat % 16)) =
          some c.toNat := by
        have hzero : hexValue '0' = some 0 := by decide
        simp only [codePoint, hzero, hexValue_hexDigit (show c.toNat / 16 < 16 by omega),
          hexValue_hexDigit (show c.toNat % 16 < 16 by omega), Option.bind_eq_bind,
          Option.bind_some, Option.pure_def, Option.some.injEq]
        omega
      have hscalar : c.toNat.isValidChar := .inl (by omega)
      have hspells := SpellsChar.unicode hdigits hscalar
      rwa [Char.ofNat_toNat] at hspells
    · dsimp only
      rw [if_neg hcontrol]
      refine .plain ?_ ?_ (by omega)
      · rintro rfl
        exact hfound (quote, quote) (by decide) (by decide)
      · rintro rfl
        exact hfound (backslash, backslash) (by decide) (by decide)

theorem writeString_spells (s : String) : SpellsString (writeString s) s := by
  refine .quoted ?_
  induction s.toList with
  | nil => exact .nil
  | cons c cs ih =>
    rw [List.flatMap_cons]
    exact .cons (writeChar_spells c) ih

/-- What the writer writes spells what it was given. -/
theorem writeObject_spells (members : List (String × String)) :
    SpellsObject (writeObject members) members := by
  cases members with
  | nil => exact .empty
  | cons member members =>
    refine .members ?_
    induction members generalizing member with
    | nil => exact .last (writeString_spells _) (writeString_spells _)
    | cons next members ih =>
      exact .more (writeString_spells _) (writeString_spells _) (ih next)

/-! ### Reading -/

/-- One character and what follows it. -/
def readChar : List Char → Option (Char × List Char)
  | [] => none
  | c :: cs =>
    if c = backslash then
      match cs with
      | [] => none
      | e :: rest =>
        if e = 'u' then
          match rest with
          | a :: b :: c :: d :: rest => do
            let n ← codePoint a b c d
            if n.isValidChar then some (Char.ofNat n, rest) else none
          | _ => none
        else (shortEscapes.find? fun escape => escape.1 == e).map fun escape => (escape.2, rest)
    else if c = quote ∨ c.toNat < 0x20 then none
    else some (c, cs)

/-- The characters up to the closing quote, and what follows it. -/
def readChars : (fuel : Nat) → List Char → Option (List Char × List Char)
  | 0, _ => none
  | fuel + 1, cs =>
    if cs.head? = some quote then some ([], cs.tail)
    else do
      let (c, rest) ← readChar cs
      let (s, tail) ← readChars fuel rest
      return (c :: s, tail)

def readString (cs : List Char) : Option (String × List Char) :=
  if cs.head? = some quote then
    (readChars cs.length cs.tail).map fun (s, tail) => (String.ofList s, tail)
  else none

def readMembers : (fuel : Nat) → List Char → Option (List (String × String))
  | 0, _ => none
  | fuel + 1, cs => do
    let (k, rest) ← readString cs
    let (v, rest) ← if rest.head? = some ':' then readString rest.tail else none
    if rest = ['}'] then some [(k, v)]
    else if rest.head? = some ',' then
      (readMembers fuel rest.tail).map fun members => (k, v) :: members
    else none

def readObject (cs : List Char) : Option (List (String × String)) :=
  if cs = ['{', '}'] then some []
  else if cs.head? = some '{' then readMembers cs.length cs.tail
  else none

theorem backslash_ne_quote : backslash ≠ quote := by decide

/-- The escapes are told apart by what follows the backslash. -/
theorem find_shortEscapes {e c : Char} (h : (e, c) ∈ shortEscapes) :
    shortEscapes.find? (fun escape => escape.1 == e) = some (e, c) ∧ e ≠ 'u' := by
  have hall : ∀ escape ∈ shortEscapes,
      shortEscapes.find? (fun other => other.1 == escape.1) = some escape ∧ escape.1 ≠ 'u' := by
    decide
  exact hall (e, c) h

theorem SpellsChar.read {text : List Char} {c : Char} (h : SpellsChar text c) (rest : List Char) :
    readChar (text ++ rest) = some (c, rest) ∧ (text ++ rest).head? ≠ some quote := by
  cases h with
  | plain unquoted unescaped printed =>
    have hplain : ¬(c = quote ∨ c.toNat < 0x20) := fun h => h.elim unquoted (by omega)
    refine ⟨?_, fun hhead => unquoted (Option.some.inj hhead)⟩
    simp only [List.cons_append, List.nil_append, readChar, if_neg unescaped, if_neg hplain]
  | short escape =>
    obtain ⟨hfind, hu⟩ := find_shortEscapes escape
    refine ⟨?_, fun hhead => backslash_ne_quote (Option.some.inj hhead)⟩
    simp only [List.cons_append, List.nil_append, readChar, if_true, if_neg hu, hfind,
      Option.map_some]
  | unicode digits scalar =>
    refine ⟨?_, fun hhead => backslash_ne_quote (Option.some.inj hhead)⟩
    simp only [List.cons_append, List.nil_append, readChar, if_true, digits, if_pos scalar,
      Option.bind_eq_bind, Option.bind_some]

theorem SpellsChars.read {text s : List Char} (h : SpellsChars text s) (rest : List Char)
    {fuel : Nat} (hfuel : text.length < fuel) :
    readChars fuel (text ++ quote :: rest) = some (s, rest) := by
  induction h generalizing fuel with
  | nil =>
    obtain ⟨fuel, rfl⟩ := Nat.exists_eq_succ_of_ne_zero (Nat.ne_of_gt hfuel)
    simp [readChars]
  | @cons text more cs c first _ ih =>
    obtain ⟨fuel, rfl⟩ := Nat.exists_eq_succ_of_ne_zero (Nat.ne_of_gt (Nat.zero_lt_of_lt hfuel))
    obtain ⟨hread, hhead⟩ := first.read (more ++ quote :: rest)
    have hlong : 0 < text.length := by
      cases first with
      | plain => simp
      | short => simp
      | unicode => simp
    rw [List.length_append] at hfuel
    rw [List.append_assoc, readChars, if_neg hhead, hread]
    simp only [Option.bind_eq_bind, Option.bind_some, ih (show more.length < fuel by omega),
      Option.pure_def]

theorem SpellsString.read {text : List Char} {s : String} (h : SpellsString text s)
    (rest : List Char) : readString (text ++ rest) = some (s, rest) := by
  cases h with
  | @quoted chars _ spells =>
    have hfuel : chars.length < (quote :: (chars ++ [quote]) ++ rest).length := by
      simp only [List.cons_append, List.length_cons, List.length_append]
      omega
    have hread := spells.read rest hfuel
    rw [readString, if_pos (show (quote :: (chars ++ [quote]) ++ rest).head? = some quote from rfl)]
    simp only [List.cons_append, List.tail_cons, List.append_assoc, List.nil_append] at hread ⊢
    rw [hread, Option.map_some, String.ofList_toList]

theorem SpellsMembers.read {text : List Char} {members : List (String × String)}
    (h : SpellsMembers text members) {fuel : Nat} (hfuel : text.length ≤ fuel) :
    readMembers fuel text = some members := by
  induction h generalizing fuel with
  | last name content =>
    obtain ⟨fuel, rfl⟩ : ∃ n, fuel = n + 1 := ⟨fuel - 1, by
      simp only [List.length_append, List.length_cons] at hfuel
      omega⟩
    simp [readMembers, name.read, content.read]
  | @more _ _ rest _ _ _ name content _ ih =>
    simp only [List.length_append, List.length_cons] at hfuel
    obtain ⟨fuel, rfl⟩ : ∃ n, fuel = n + 1 := ⟨fuel - 1, by omega⟩
    simp [readMembers, name.read, content.read, ih (show rest.length ≤ fuel by omega)]

theorem SpellsMembers.head?_eq {text : List Char} {members : List (String × String)}
    (h : SpellsMembers text members) : text.head? = some quote := by
  cases h with
  | last name _ =>
    cases name
    rfl
  | more name _ _ =>
    cases name
    rfl

/-- The reader takes every spelling. -/
theorem SpellsObject.read {text : List Char} {members : List (String × String)}
    (h : SpellsObject text members) : readObject text = some members := by
  cases h with
  | empty => rfl
  | @members text _ spells =>
    have hnonempty : '{' :: text ≠ ['{', '}'] := by
      intro heq
      have hhead := spells.head?_eq
      rw [(List.cons.inj heq).2] at hhead
      exact absurd hhead (by decide)
    rw [readObject, if_neg hnonempty]
    exact spells.read (Nat.le_succ _)

end JsonText
