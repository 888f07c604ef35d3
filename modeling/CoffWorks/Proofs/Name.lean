import CoffWorks.Proofs.Text.Decimal
import CoffWorks.Name

namespace CoffWorks

open Bytes

namespace Name

/-- The name for a text; a long one is at `offset` of the string table. -/
def stored (offset : Nat) (text : Bytes) : Name :=
  if text.size ≤ fieldSize then .short (.pad 8 text) else .long (.ofNat offset)

/-- A section's name field; a long name is at `offset` of the string table. -/
def forSection (offset : Nat) (name : Bytes) : Field 8 :=
  .pad 8 (if name.size ≤ fieldSize then name else slashed (.ofNat offset))

/-- A symbol's name field; a long name is at `offset` of the string table. -/
def forSymbol (offset : Nat) (name : Bytes) : Field 8 :=
  .pad 8 (if name.size ≤ fieldSize then name else zeros 4 ++ word 4 offset)

/-- A long name can only be stored at offsets that a section can express. -/
def Reaches (offset : Nat) (text : Bytes) : Prop := fieldSize < text.size → offset ≤ maxOffset

instance (offset : Nat) (text : Bytes) : Decidable (Reaches offset text) :=
  inferInstanceAs (Decidable (_ → _))

theorem toNat_of_le_maxOffset {offset : Nat} (h : offset ≤ maxOffset) :
    (UInt32.ofNat offset).toNat = offset :=
  UInt32.toNat_ofNat_of_lt' (Nat.lt_of_le_of_lt h (by decide))

/-- A slash and at most seven digits. -/
theorem size_slashed_le {o : UInt32} (h : o.toNat ≤ maxOffset) : (slashed o).size ≤ fieldSize := by
  have digits : (Text.decimal o.toNat).size ≤ 7 :=
    Text.size_decimal_le (by decide) (Nat.lt_succ_of_le h)
  have slash : ("/".toUTF8).size = 1 := by decide
  rw [slashed, ByteArray.size_append, slash, fieldSize]
  omega

theorem sectionField_stored {offset : Nat} {text : Bytes} (h : Reaches offset text) :
    (stored offset text).sectionField = .ok (forSection offset text) := by
  unfold stored forSection
  split_ifs with short
  · rfl
  · have reach := h (Nat.not_le.mp short)
    have fits := size_slashed_le (o := .ofNat offset) (by rwa [toNat_of_le_maxOffset reach])
    exact if_neg (Nat.not_lt.mpr fits)

theorem symbolField_stored {offset : Nat} {text : Bytes} (h : Reaches offset text) :
    (stored offset text).symbolField = forSymbol offset text := by
  unfold stored forSymbol
  split_ifs with short
  · rfl
  · have reach := h (Nat.not_le.mp short)
    rw [symbolField, push32_eq_append, toNat_of_le_maxOffset reach]

/-- The text is a slash and digits, at least one, as sections refer to the string table. -/
def IsReference (text : Bytes) : Prop :=
  text.startsWith "/" ∧ text.drop 1 ≠ .empty ∧ ∀ b ∈ (text.drop 1).data.toList, Text.IsDigit b

instance : DecidablePred IsReference := fun _ => inferInstanceAs (Decidable (_ ∧ _ ∧ _))

theorem ofOffset_eq_ok {o : UInt32} {n : Name} : ofOffset o = .ok n ↔ o.toNat ≤ maxOffset ∧ long o = n := by
  unfold ofOffset
  split_ifs with far
  · simp [reject, Nat.not_le.mpr far]
  · simp [Nat.not_lt.mp far]

theorem symbolField_long_bytes (o : UInt32) :
    (symbolField (long o)).bytes = word 4 (0 : UInt32).toNat ++ word 4 o.toNat := by
  have mark : zeros 4 = word 4 (0 : UInt32).toNat := by decide
  rw [symbolField, push32_eq_append, Field.pad_bytes 8 _ (by simp), mark]
  simp [zeros, pushZeros]

theorem ofSymbolField_long {o : UInt32} (h : o.toNat ≤ maxOffset) :
    ofSymbolField (symbolField (long o)) = .ok (long o) := by
  have mark := u32At_word 0 (word 4 o.toNat)
  have value : (word 4 (0 : UInt32).toNat ++ word 4 o.toNat).u32At 4 = o := by
    rw [u32At_skip _ _ _ (by simp), size_word, Nat.sub_self, u32At_word_self]
  rw [ofSymbolField, symbolField_long_bytes, if_pos mark, value, ofOffset_eq_ok]
  exact ⟨h, rfl⟩

/-- A symbol's name is read back unless it is empty or contains a zero byte. -/
theorem ofSymbolField_forSymbol {offset : Nat} {text : Bytes} (h : Reaches offset text)
    (hz : NoZero text) (hne : text ≠ .empty) :
    ofSymbolField (forSymbol offset text) = .ok (stored offset text) := by
  rw [← symbolField_stored h]
  unfold stored
  split_ifs with short
  · have some_byte : 0 < text.size := by
      apply Nat.pos_of_ne_zero
      intro none
      exact hne (ByteArray.size_eq_zero_iff.mp none)
    have first : (Field.pad 8 text).bytes.byteAt 0 ≠ 0 := by
      rw [Field.pad_bytes 8 text short, byteAt_append_left _ _ _ some_byte]
      exact hz.byteAt_ne some_byte
    rw [symbolField, ofSymbolField, if_neg (u32At_ne_zero first)]
  · have reach := h (Nat.not_le.mp short)
    exact ofSymbolField_long (by rwa [toNat_of_le_maxOffset reach])

private theorem noZero_slashed (o : UInt32) : NoZero (slashed o) := by
  have slash : ("/".toUTF8).data.toList = [47] := by decide
  rw [NoZero, slashed, Text.decimal_eq, ← Array.mem_toList_iff, ByteArray.data_append, Array.toList_append,
    slash, List.data_toByteArray]
  simp only [List.mem_append, List.mem_singleton, not_or]
  refine ⟨by decide, ?_⟩
  intro zero
  have digit := Text.isDigit_of_mem_digits zero
  simp [Text.IsDigit] at digit

/-- Only references lead to the string table. -/
theorem of_sectionOffset? {f : Field 8} {o : UInt32} (h : sectionOffset? f = some o) :
    IsReference f.bytes.untilZero ∧ o.toNat ≤ maxOffset := by
  unfold sectionOffset? at h
  dsimp only at h
  split_ifs at h with slash
  obtain ⟨v, value, reach⟩ := Option.bind_eq_some_iff.mp h
  split_ifs at reach with small
  refine ⟨⟨slash, Text.isDigit_of_decimal? value⟩, ?_⟩
  rwa [← Option.some.inj reach, toNat_of_le_maxOffset small]

private theorem sectionOffset?_slashed {o : UInt32} (h : o.toNat ≤ maxOffset) :
    sectionOffset? (.pad 8 (slashed o)) = some o := by
  have slash : ("/".toUTF8).size = 1 := by decide
  have start : (slashed o).startsWith "/" := startsWith_append _ _
  have digits : (slashed o).drop 1 = Text.decimal o.toNat := by
    rw [slashed, ← slash, drop_append]
  rw [sectionOffset?, Field.untilZero_pad (n := 8) (size_slashed_le h) (noZero_slashed o)]
  simp only [start, digits, ↓reduceIte, Text.decimal?_decimal (show o.toNat < 1 <<< 32 from o.toNat_lt)]
  simp [h]

theorem ofSectionField_slashed {o : UInt32} (h : o.toNat ≤ maxOffset) :
    ofSectionField (.pad 8 (slashed o)) = long o := by
  rw [ofSectionField, sectionOffset?_slashed h]

/-- A section's name is read back unless it looks like a reference itself or contains a zero byte. -/
theorem ofSectionField_forSection {offset : Nat} {text : Bytes} (h : Reaches offset text)
    (hz : NoZero text) (hr : text.size ≤ fieldSize → ¬ IsReference text) :
    ofSectionField (forSection offset text) = stored offset text := by
  unfold forSection stored
  split_ifs with short
  · rw [ofSectionField]
    cases found : sectionOffset? (.pad 8 text) with
    | none => rfl
    | some o =>
      have reference := (of_sectionOffset? found).1
      rw [Field.untilZero_pad (n := 8) short hz] at reference
      exact absurd reference (hr short)
  · have reach := h (Nat.not_le.mp short)
    exact ofSectionField_slashed (by rwa [toNat_of_le_maxOffset reach])

end Name

end CoffWorks
