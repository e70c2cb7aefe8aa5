import HookExecutor.Lib.Utf8
import HookExecutor.Network

/-!
# Header values as text

A value is text if every byte of it is visible ASCII or a tab, and then each
byte is one character. The values a text can be read from are its own bytes.
-/

namespace HookExecutor

open Text

/-- A character a header value may have and still be read as text. -/
def isVisible (c : Char) : Bool := (0x20 ≤ c.toNat && c.toNat < 0x7F) || c == '\t'

/-- The same of a byte. -/
def isVisibleByte (b : UInt8) : Bool := (0x20 ≤ b && b < 0x7F) || b == 0x09

theorem isVisibleByte_ofNat {n : Nat} (h : n < 256) :
    isVisibleByte (UInt8.ofNat n) = true ↔ 0x20 ≤ n ∧ n < 0x7F ∨ n = 9 := by
  have hn := toNat_ofNat_of_lt h
  simp only [isVisibleByte, Bool.or_eq_true, Bool.and_eq_true, decide_eq_true_eq, beq_iff_eq,
    UInt8.le_iff_toNat_le, UInt8.lt_iff_toNat_lt, ← UInt8.toNat_inj, hn, UInt8.reduceToNat]

theorem isVisible_iff {c : Char} :
    isVisible c = true ↔ 0x20 ≤ c.toNat ∧ c.toNat < 0x7F ∨ c.toNat = 9 := by
  have htab : c = '\t' ↔ c.toNat = 9 := Char.toNat_inj.symm
  simp only [isVisible, Bool.or_eq_true, Bool.and_eq_true, decide_eq_true_eq, beq_iff_eq, htab]

theorem utf8EncodeChar_of_lt {c : Char} (h : c.toNat < 0x80) :
    String.utf8EncodeChar c = [UInt8.ofNat c.toNat] := by
  have hlow : c.val.toNat ≤ 0x7f := Nat.le_of_lt_succ h
  unfold String.utf8EncodeChar
  dsimp only
  rw [if_pos hlow]
  rfl

/-- The bytes of a character are visible exactly if the character is. -/
theorem all_isVisibleByte_encode {c : Char} :
    (∀ b ∈ String.utf8EncodeChar c, isVisibleByte b = true) ↔ isVisible c = true := by
  rw [isVisible_iff]
  by_cases hlow : c.toNat < 0x80
  · rw [utf8EncodeChar_of_lt hlow]
    simp only [List.mem_singleton, forall_eq]
    exact isVisibleByte_ofNat (by omega)
  · constructor
    · intro h
      have hhigh : ¬c.val.toNat ≤ 0x7f := fun hle => hlow (Nat.lt_succ_of_le hle)
      unfold String.utf8EncodeChar at h
      dsimp only at h
      rw [if_neg hhigh] at h
      split at h
      · have hlead := (isVisibleByte_ofNat (by omega)).mp (h _ List.mem_cons_self)
        omega
      · split at h
        · have hlead := (isVisibleByte_ofNat (by omega)).mp (h _ List.mem_cons_self)
          omega
        · have hlead := (isVisibleByte_ofNat (by omega)).mp (h _ List.mem_cons_self)
          omega
    · omega

/-- A value is read as the text it encodes if every character of it is visible. -/
theorem toStr_asBytes {s : String} (h : ∀ c ∈ s.toList, isVisible c = true) :
    HeaderMap.toStr (asBytes s) = some s := by
  have hall : (asBytes s).all isVisibleByte = true := by
    rw [asBytes_toList, List.all_eq_true]
    intro b hb
    obtain ⟨c, hc, hbyte⟩ := List.mem_flatMap.mp hb
    exact all_isVisibleByte_encode.mpr (h c hc) b hbyte
  have hchars : (asBytes s).map (fun b => Char.ofNat b.toNat) = s.toList := by
    rw [asBytes_toList]
    have hcs : ∀ cs : List Char, (∀ c ∈ cs, isVisible c = true) →
        (cs.flatMap String.utf8EncodeChar).map (fun b => Char.ofNat b.toNat) = cs := by
      intro cs hcs
      induction cs with
      | nil => rfl
      | cons c cs ih =>
        have hc := isVisible_iff.mp (hcs c List.mem_cons_self)
        have hcode := toNat_ofNat_of_lt (n := c.toNat) (by omega)
        rw [List.flatMap_cons, List.map_append, ih fun d hd => hcs d (List.mem_cons_of_mem _ hd),
          utf8EncodeChar_of_lt (by omega), List.map_cons, List.map_nil, hcode, Char.ofNat_toNat]
        rfl
    exact hcs s.toList h
  unfold HeaderMap.toStr
  change (if (asBytes s).all isVisibleByte = true then _ else _) = _
  rw [if_pos hall, hchars, String.ofList_toList]

theorem isVisible_of_toStr {s t : String} (h : HeaderMap.toStr (asBytes s) = some t) :
    ∀ c ∈ s.toList, isVisible c = true := by
  unfold HeaderMap.toStr at h
  change (if (asBytes s).all isVisibleByte = true then _ else _) = _ at h
  obtain ⟨hall, -⟩ := Option.ite_none_right_eq_some.mp h
  intro c hc
  refine all_isVisibleByte_encode.mp fun b hb => ?_
  rw [asBytes_toList] at hall
  exact List.all_eq_true.mp hall b (List.mem_flatMap.mpr ⟨c, hc, hb⟩)

/-- The bytes of a value, each as the character of its number. -/
def rawText (value : Bytes) : String := String.ofList (value.map fun b => Char.ofNat b.toNat)

theorem toStr_eq_some_iff {value : Bytes} {text : String} :
    HeaderMap.toStr value = some text ↔ value.all isVisibleByte = true ∧ rawText value = text := by
  change (if value.all isVisibleByte = true then some (rawText value) else none) = _ ↔ _
  rw [Option.ite_none_right_eq_some, Option.some.injEq]

/-- Every character of a value that is read as text is visible. -/
theorem isVisible_of_mem_toStr {value : Bytes} {text : String}
    (h : HeaderMap.toStr value = some text) {c : Char} (hc : c ∈ text.toList) :
    isVisible c = true := by
  obtain ⟨hall, rfl⟩ := toStr_eq_some_iff.mp h
  rw [rawText, String.toList_ofList] at hc
  obtain ⟨b, hb, rfl⟩ := List.mem_map.mp hc
  have hbyte := List.all_eq_true.mp hall b hb
  rw [← UInt8.ofNat_toNat (x := b), isVisibleByte_ofNat b.toNat_lt] at hbyte
  have hcode : (Char.ofNat b.toNat).toNat = b.toNat := by
    have hvalid : b.toNat.isValidChar := .inl (by have hb := b.toNat_lt; omega)
    rw [Char.ofNat, dif_pos hvalid]
    rfl
  rw [isVisible_iff, hcode]
  exact hbyte

end HookExecutor
