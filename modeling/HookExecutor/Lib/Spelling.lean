import HookExecutor.Lib.Text

/-!
# Spellings of a value

Trimming takes whitespace off both ends and nothing else, stripping a prefix
takes off exactly that prefix, and hexadecimal digits are read back in either
case. Together they say which texts spell the same bytes behind a prefix.
-/

namespace Text

/-! ### Trimming -/

section Trim

variable {cs : List Char}

theorem exists_trimChars (cs : List Char) :
    ∃ before after, cs = before ++ trimChars cs ++ after ∧
      (∀ c ∈ before, isWhitespace c = true) ∧ ∀ c ∈ after, isWhitespace c = true := by
  let kept := cs.dropWhile isWhitespace
  have hafter := List.takeWhile_append_dropWhile (p := isWhitespace) (l := kept.reverse)
  refine ⟨cs.takeWhile isWhitespace, (kept.reverse.takeWhile isWhitespace).reverse, ?_, ?_, ?_⟩
  · have hkept : kept = trimChars cs ++ (kept.reverse.takeWhile isWhitespace).reverse := by
      rw [← List.reverse_inj, List.reverse_append, List.reverse_reverse]
      exact (hafter.symm.trans (by rw [trimChars, List.reverse_reverse]))
    rw [List.append_assoc, ← hkept]
    exact (List.takeWhile_append_dropWhile).symm
  · exact List.all_eq_true.mp List.all_takeWhile
  · intro c hc
    exact List.all_eq_true.mp List.all_takeWhile c (List.mem_reverse.mp hc)

/-- A sequence whose ends are not whitespace is left as it is. -/
theorem trimChars_of_ends (hfirst : ∀ c, cs.head? = some c → isWhitespace c = false)
    (hlast : ∀ c, cs.getLast? = some c → isWhitespace c = false) : trimChars cs = cs := by
  have hdrop : ∀ {ds : List Char}, (∀ c, ds.head? = some c → isWhitespace c = false) →
      ds.dropWhile isWhitespace = ds := by
    intro ds hds
    cases ds with
    | nil => rfl
    | cons d ds =>
      have hd := hds d rfl
      rw [List.dropWhile_cons, hd]
      rfl
  rw [trimChars, hdrop hfirst, hdrop (by simpa using hlast), List.reverse_reverse]

/-- Nothing that is trimmed starts with whitespace. -/
theorem trimChars_head {c : Char} (h : (trimChars cs).head? = some c) : isWhitespace c = false := by
  obtain ⟨rest, hrest⟩ : ∃ rest, trimChars cs = c :: rest := by
    cases htrim : trimChars cs with
    | nil => simp [htrim] at h
    | cons d rest =>
      rw [htrim] at h
      exact ⟨rest, by rw [Option.some.inj h]⟩
  have hprefix : trimChars cs <+: cs.dropWhile isWhitespace := by
    have hsuffix := List.dropWhile_suffix (l := (cs.dropWhile isWhitespace).reverse) isWhitespace
    rw [← List.reverse_prefix, List.reverse_reverse] at hsuffix
    exact hsuffix
  obtain ⟨tail, htail⟩ := hprefix
  rw [hrest, List.cons_append] at htail
  have hfails := List.head?_dropWhile_not isWhitespace cs
  rw [← htail] at hfails
  simpa using hfails

theorem trimChars_getLast {c : Char} (h : (trimChars cs).getLast? = some c) :
    isWhitespace c = false := by
  rw [trimChars, List.getLast?_reverse] at h
  have hfails := List.head?_dropWhile_not isWhitespace (cs.dropWhile isWhitespace).reverse
  rw [h] at hfails
  simpa using hfails

/-- Trimming once is enough. -/
theorem trimChars_trimChars (cs : List Char) : trimChars (trimChars cs) = trimChars cs :=
  trimChars_of_ends (fun _ h => trimChars_head h) fun _ h => trimChars_getLast h

end Trim

/-! ### Prefixes -/

theorem stripPrefixChars_eq_some_iff {pre cs rest : List Char} :
    stripPrefixChars pre cs = some rest ↔ cs = pre ++ rest := by
  induction pre generalizing cs with
  | nil => simp [stripPrefixChars]
  | cons p pre ih =>
    cases cs with
    | nil => simp [stripPrefixChars]
    | cons c cs =>
      simp only [stripPrefixChars, List.cons_append, List.cons.injEq]
      split
      · next hp => simp [ih, hp]
      · next hp => simp [Ne.symm hp]

theorem stripPrefix_eq_some_iff {pre s rest : String} :
    stripPrefix pre s = some rest ↔ s = pre ++ rest := by
  unfold stripPrefix
  rw [Option.map_eq_some_iff]
  constructor
  · rintro ⟨cs, hcs, rfl⟩
    apply String.toList_inj.mp
    rw [stripPrefixChars_eq_some_iff.mp hcs, String.toList_append, String.toList_ofList]
  · rintro rfl
    exact ⟨rest.toList, stripPrefixChars_eq_some_iff.mpr String.toList_append,
      String.ofList_toList⟩

/-! ### Hexadecimal -/

theorem hexValue_hexDigit {n : Nat} (h : n < 16) : hexValue (hexDigit n) = some n := by
  have hall : ∀ n : Fin 16, hexValue (hexDigit n) = some n.val := by decide
  exact hall ⟨n, h⟩

theorem hexDecodeChars_hexEncodeChars (bytes : Bytes) :
    hexDecodeChars (hexEncodeChars bytes) = some bytes := by
  induction bytes with
  | nil => rfl
  | cons b bytes ih =>
    have hb := b.toNat_lt
    have hbyte : UInt8.ofNat (b.toNat / 16 * 16 + b.toNat % 16) = b := by
      rw [Nat.div_add_mod' b.toNat 16, UInt8.ofNat_toNat]
    change hexDecodeChars (hexDigit (b.toNat / 16) :: hexDigit (b.toNat % 16) ::
      hexEncodeChars bytes) = some (b :: bytes)
    simp only [hexDecodeChars, hexValue_hexDigit (show b.toNat / 16 < 16 by omega),
      hexValue_hexDigit (Nat.mod_lt b.toNat (show 16 > 0 by omega)), ih, Option.bind_eq_bind,
      Option.bind_some, hbyte]
    rfl

theorem hexDecode_hexEncode (bytes : Bytes) : hexDecode (hexEncode bytes) = some bytes := by
  rw [hexDecode, hexEncode, String.toList_ofList, hexDecodeChars_hexEncodeChars]

theorem toNat_lt_of_hexValue {c : Char} {n : Nat} (h : hexValue c = some n) : c.toNat < 128 := by
  by_contra hhigh
  simp only [hexValue] at h
  split at h
  · omega
  · split at h
    · omega
    · split at h
      · omega
      · cases h

/-- A digit is the one written for its value, in either case. -/
theorem toLower_of_hexValue {c : Char} {n : Nat} (h : hexValue c = some n) :
    n < 16 ∧ c.toLower = hexDigit n := by
  have hall : ∀ k : Fin 128, ∀ n ∈ hexValue (Char.ofNat k),
      n < 16 ∧ (Char.ofNat k).toLower = hexDigit n := by decide
  have hlow := toNat_lt_of_hexValue h
  have hc := hall ⟨c.toNat, hlow⟩ n
  rw [show Char.ofNat (⟨c.toNat, hlow⟩ : Fin 128) = c from Char.ofNat_toNat c] at hc
  exact hc h

/-- What decodes to some bytes is their encoding, up to case. -/
theorem map_toLower_of_hexDecodeChars {cs : List Char} {bytes : Bytes}
    (h : hexDecodeChars cs = some bytes) : cs.map Char.toLower = hexEncodeChars bytes := by
  induction cs using hexDecodeChars.induct generalizing bytes with
  | case1 =>
    obtain rfl := Option.some.inj h
    rfl
  | case2 c => cases h
  | case3 c d cs ih =>
    simp only [hexDecodeChars, Option.bind_eq_bind, Option.bind_eq_some_iff] at h
    obtain ⟨high, hhigh, low, hlow, rest, hrest, hbytes⟩ := h
    obtain rfl := Option.some.inj hbytes
    obtain ⟨hhigh16, hc⟩ := toLower_of_hexValue hhigh
    obtain ⟨hlow16, hd⟩ := toLower_of_hexValue hlow
    have hbyte : (UInt8.ofNat (high * 16 + low)).toNat = high * 16 + low := by
      rw [UInt8.toNat_ofNat', Nat.mod_eq_of_lt (by omega)]
    have hdigits : hexEncodeChars (UInt8.ofNat (high * 16 + low) :: rest) =
        hexDigit ((high * 16 + low) / 16) :: hexDigit ((high * 16 + low) % 16) ::
          hexEncodeChars rest := by
      conv_rhs => rw [← hbyte]
      rfl
    rw [hdigits, List.map_cons, List.map_cons, hc, hd, ih hrest,
      show (high * 16 + low) / 16 = high by omega, show (high * 16 + low) % 16 = low by omega]

/-- The digits written are letters and numerals. -/
theorem of_mem_hexEncodeChars {bytes : Bytes} {c : Char} (h : c ∈ hexEncodeChars bytes) :
    ∃ n < 16, c = hexDigit n := by
  obtain ⟨b, -, hc⟩ := List.mem_flatMap.mp h
  have hb := b.toNat_lt
  simp only [List.mem_cons, List.not_mem_nil, or_false] at hc
  obtain rfl | rfl := hc
  · exact ⟨b.toNat / 16, by omega, rfl⟩
  · exact ⟨b.toNat % 16, by omega, rfl⟩

theorem hexEncodeChars_ne_nil {bytes : Bytes} (h : bytes ≠ []) : hexEncodeChars bytes ≠ [] := by
  obtain ⟨b, rest, rfl⟩ := List.exists_cons_of_ne_nil h
  exact List.cons_ne_nil _ _

end Text
