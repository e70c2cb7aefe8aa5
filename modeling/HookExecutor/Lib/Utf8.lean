import HookExecutor.Lib.Text

/-!
# Lossy decoding of what is not lossy

Decoding undoes the encoding of a scalar value, whatever bytes come after it. A
sequence of bytes is therefore the encoding of its lossy decoding exactly if it
is valid UTF-8.
-/

namespace Text

theorem toNat_ofNat_of_lt {n : Nat} (h : n < 256) : (UInt8.ofNat n).toNat = n := by
  rw [UInt8.toNat_ofNat', Nat.mod_eq_of_lt h]

theorem isContinuation_ofNat_iff {n : Nat} (h : n < 256) :
    isContinuation (UInt8.ofNat n) = true ↔ 0x80 ≤ n ∧ n ≤ 0xBF := by
  simp [isContinuation, UInt8.le_iff_toNat_le, Nat.mod_eq_of_lt h]

/-! ### One scalar value -/

section Step

variable {v : Nat}

theorem lossyStep_one (h : v < 0x80) (rest : Bytes) :
    lossyStep (UInt8.ofNat v) rest = (Char.ofNat v, 1) := by
  have hlead := toNat_ofNat_of_lt (n := v) (by omega)
  simp only [lossyStep, UInt8.lt_iff_toNat_lt, hlead, UInt8.reduceToNat]
  rw [if_pos h]

theorem lossyStep_two (hlow : 0x80 ≤ v) (hhigh : v < 0x800) (rest : Bytes) :
    lossyStep (UInt8.ofNat (v / 64 % 0x20 + 0xc0)) (UInt8.ofNat (v % 0x40 + 0x80) :: rest) =
      (Char.ofNat v, 2) := by
  have hlead := toNat_ofNat_of_lt (n := v / 64 % 0x20 + 0xc0) (by omega)
  have htail := toNat_ofNat_of_lt (n := v % 0x40 + 0x80) (by omega)
  simp only [lossyStep, isContinuation, UInt8.lt_iff_toNat_lt, UInt8.le_iff_toNat_le, hlead, htail,
    UInt8.reduceToNat, Bool.and_eq_true, decide_eq_true_eq]
  rw [if_neg (by omega), if_pos (by omega), if_pos (by omega)]
  congr 2
  omega

/-- A scalar value of three bytes is neither overlong nor a surrogate, and its
second byte shows it. -/
theorem secondByteOk_three (hlow : 0x800 ≤ v) (hhigh : v < 0x10000)
    (hscalar : v < 0xD800 ∨ 0xDFFF < v) :
    secondByteOk (UInt8.ofNat (v / 4096 % 0x10 + 0xe0)) (UInt8.ofNat (v / 64 % 0x40 + 0x80)) =
      true := by
  have hlead := toNat_ofNat_of_lt (n := v / 4096 % 0x10 + 0xe0) (by omega)
  have hsecond := toNat_ofNat_of_lt (n := v / 64 % 0x40 + 0x80) (by omega)
  simp only [secondByteOk, isContinuation, beq_iff_eq, ← UInt8.toNat_inj, UInt8.le_iff_toNat_le,
    hlead, hsecond, UInt8.reduceToNat]
  split
  · simp only [Bool.and_eq_true, decide_eq_true_eq]
    omega
  · split
    · simp only [Bool.and_eq_true, decide_eq_true_eq]
      omega
    · rw [if_neg (by omega), if_neg (by omega)]
      simp only [Bool.and_eq_true, decide_eq_true_eq]
      omega

theorem lossyStep_three (hlow : 0x800 ≤ v) (hhigh : v < 0x10000)
    (hscalar : v < 0xD800 ∨ 0xDFFF < v) (rest : Bytes) :
    lossyStep (UInt8.ofNat (v / 4096 % 0x10 + 0xe0)) (UInt8.ofNat (v / 64 % 0x40 + 0x80) ::
      UInt8.ofNat (v % 0x40 + 0x80) :: rest) = (Char.ofNat v, 3) := by
  have hok := secondByteOk_three hlow hhigh hscalar
  have htail : isContinuation (UInt8.ofNat (v % 0x40 + 0x80)) = true :=
    (isContinuation_ofNat_iff (by omega)).mpr (by omega)
  simp only [lossyStep, UInt8.lt_iff_toNat_lt, UInt8.le_iff_toNat_le, hok, htail,
    toNat_ofNat_of_lt (n := v / 4096 % 0x10 + 0xe0) (by omega), UInt8.reduceToNat,
    Bool.and_eq_true, decide_eq_true_eq,
    toNat_ofNat_of_lt (n := v / 64 % 0x40 + 0x80) (by omega),
    toNat_ofNat_of_lt (n := v % 0x40 + 0x80) (by omega)]
  rw [if_neg (by omega), if_neg (by omega), if_pos (by omega), if_neg (by simp), if_neg (by simp)]
  congr 2
  omega

theorem secondByteOk_four (hlow : 0x10000 ≤ v) (hhigh : v < 0x110000) :
    secondByteOk (UInt8.ofNat (v / 262144 % 0x08 + 0xf0)) (UInt8.ofNat (v / 4096 % 0x40 + 0x80)) =
      true := by
  have hlead := toNat_ofNat_of_lt (n := v / 262144 % 0x08 + 0xf0) (by omega)
  have hsecond := toNat_ofNat_of_lt (n := v / 4096 % 0x40 + 0x80) (by omega)
  simp only [secondByteOk, isContinuation, beq_iff_eq, ← UInt8.toNat_inj, UInt8.le_iff_toNat_le,
    hlead, hsecond, UInt8.reduceToNat]
  rw [if_neg (by omega), if_neg (by omega)]
  split
  · simp only [Bool.and_eq_true, decide_eq_true_eq]
    omega
  · split
    · simp only [Bool.and_eq_true, decide_eq_true_eq]
      omega
    · simp only [Bool.and_eq_true, decide_eq_true_eq]
      omega

theorem lossyStep_four (hlow : 0x10000 ≤ v) (hhigh : v < 0x110000) (rest : Bytes) :
    lossyStep (UInt8.ofNat (v / 262144 % 0x08 + 0xf0)) (UInt8.ofNat (v / 4096 % 0x40 + 0x80) ::
      UInt8.ofNat (v / 64 % 0x40 + 0x80) :: UInt8.ofNat (v % 0x40 + 0x80) :: rest) =
        (Char.ofNat v, 4) := by
  have hok := secondByteOk_four hlow hhigh
  have hthird : isContinuation (UInt8.ofNat (v / 64 % 0x40 + 0x80)) = true :=
    (isContinuation_ofNat_iff (by omega)).mpr (by omega)
  have hfourth : isContinuation (UInt8.ofNat (v % 0x40 + 0x80)) = true :=
    (isContinuation_ofNat_iff (by omega)).mpr (by omega)
  simp only [lossyStep, UInt8.lt_iff_toNat_lt, UInt8.le_iff_toNat_le, hok, hthird, hfourth,
    toNat_ofNat_of_lt (n := v / 262144 % 0x08 + 0xf0) (by omega), UInt8.reduceToNat,
    Bool.and_eq_true, decide_eq_true_eq,
    toNat_ofNat_of_lt (n := v / 4096 % 0x40 + 0x80) (by omega),
    toNat_ofNat_of_lt (n := v / 64 % 0x40 + 0x80) (by omega),
    toNat_ofNat_of_lt (n := v % 0x40 + 0x80) (by omega)]
  rw [if_neg (by omega), if_neg (by omega), if_neg (by omega), if_pos (by omega), if_neg (by simp),
    if_neg (by simp), if_neg (by simp)]
  congr 2
  omega

end Step

/-- Decoding reads the scalar value back and goes on after its last byte. -/
theorem lossyChars_encode (c : Char) (bytes : Bytes) :
    lossyChars 0 (String.utf8EncodeChar c ++ bytes) = c :: lossyChars 0 bytes := by
  have hc : Char.ofNat c.val.toNat = c := Char.ofNat_toNat c
  have hvalid : c.val.toNat < 0xD800 ∨ 0xDFFF < c.val.toNat ∧ c.val.toNat < 0x110000 := c.valid
  unfold String.utf8EncodeChar
  dsimp only
  split
  · simp only [List.singleton_append, lossyChars, hc, Nat.sub_self,
      lossyStep_one (show c.val.toNat < 0x80 by omega)]
  · split
    · simp only [List.cons_append, List.nil_append, lossyChars, hc,
        lossyStep_two (show 0x80 ≤ c.val.toNat by omega) (show c.val.toNat < 0x800 by omega)]
    · split
      · simp only [List.cons_append, List.nil_append, lossyChars, hc,
          lossyStep_three (show 0x800 ≤ c.val.toNat by omega) (show c.val.toNat < 0x10000 by omega)
            (show c.val.toNat < 0xD800 ∨ 0xDFFF < c.val.toNat by omega)]
      · simp only [List.cons_append, List.nil_append, lossyChars, hc,
          lossyStep_four (show 0x10000 ≤ c.val.toNat by omega)
            (show c.val.toNat < 0x110000 by omega)]

/-! ### Texts -/

theorem lossyChars_flatMap_encode (cs : List Char) (bytes : Bytes) :
    lossyChars 0 (cs.flatMap String.utf8EncodeChar ++ bytes) = cs ++ lossyChars 0 bytes := by
  induction cs with
  | nil => rfl
  | cons c cs ih =>
    rw [List.flatMap_cons, List.append_assoc, lossyChars_encode, ih, List.cons_append]

theorem asBytes_toList (s : String) : asBytes s = s.toList.flatMap String.utf8EncodeChar := by
  rw [← asBytes_ofList, String.ofList_toList]

/-- The bytes of a text in front of any others are decoded to that text. -/
theorem fromUtf8Lossy_append (s : String) (bytes : Bytes) :
    fromUtf8Lossy (asBytes s ++ bytes) = s ++ fromUtf8Lossy bytes := by
  unfold fromUtf8Lossy
  rw [asBytes_toList, lossyChars_flatMap_encode, String.ofList_append, String.ofList_toList]

theorem fromUtf8Lossy_asBytes (s : String) : fromUtf8Lossy (asBytes s) = s := by
  have h := fromUtf8Lossy_append s []
  rw [List.append_nil] at h
  rw [h]
  exact String.append_empty

theorem asBytes_append (s t : String) : asBytes (s ++ t) = asBytes s ++ asBytes t := by
  simp only [asBytes_toList, String.toList_append, List.flatMap_append]

theorem asBytes_of_fromUtf8 {bytes : Bytes} {s : String} (h : fromUtf8 bytes = some s) :
    asBytes s = bytes := by
  unfold fromUtf8 String.fromUTF8? at h
  split at h
  · next hvalid =>
    obtain rfl := Option.some.inj h
    rfl
  · cases h

/-- The bytes survive lossy decoding exactly if they are valid UTF-8. -/
theorem asBytes_fromUtf8Lossy_iff {bytes : Bytes} :
    asBytes (fromUtf8Lossy bytes) = bytes ↔ (fromUtf8 bytes).isSome = true := by
  constructor
  · intro h
    rw [← h, fromUtf8_asBytes, Option.isSome_some]
  · intro h
    obtain ⟨s, hs⟩ := Option.isSome_iff_exists.mp h
    rw [← asBytes_of_fromUtf8 hs, fromUtf8Lossy_asBytes]

/-- Only the line feed has a line feed among its bytes. -/
theorem eq_newline_of_mem_encode {c : Char} (h : 0x0A ∈ String.utf8EncodeChar c) : c = '\n' := by
  have hbyte : ∀ n : Nat, (0x0A : UInt8) = UInt8.ofNat n → n % 256 = 10 := by
    intro n hn
    have := congrArg UInt8.toNat hn
    rw [UInt8.toNat_ofNat'] at this
    exact this.symm
  unfold String.utf8EncodeChar at h
  dsimp only at h
  split at h
  · have hval := hbyte _ (List.mem_singleton.mp h)
    apply Char.toNat_inj.mp
    change c.val.toNat = 10
    omega
  · split at h
    · simp only [List.mem_cons, List.not_mem_nil, or_false] at h
      obtain h | h := h <;> have := hbyte _ h <;> omega
    · split at h
      · simp only [List.mem_cons, List.not_mem_nil, or_false] at h
        obtain h | h | h := h <;> have := hbyte _ h <;> omega
      · simp only [List.mem_cons, List.not_mem_nil, or_false] at h
        obtain h | h | h | h := h <;> have := hbyte _ h <;> omega

theorem newline_notMem_asBytes {s : String} (h : '\n' ∉ s.toList) : 0x0A ∉ asBytes s := by
  rw [asBytes_toList, List.mem_flatMap]
  rintro ⟨c, hc, hbyte⟩
  obtain rfl := eq_newline_of_mem_encode hbyte
  exact h hc

end Text
