import CoffWorks.Proofs.Bytes.Slice
import CoffWorks.Proofs.Name

namespace CoffWorks

open Bytes

private theorem Attempt.not_ok_iff {α : Type} {x : Attempt α} : (¬ ∃ a, x = .ok a) ↔ ∃ e, x = .error e := by
  cases x <;> simp

private theorem Bytes.u32At_eq_zero_iff {b : Bytes} : b.u32At 0 = 0 ↔ ∀ i < 4, b.byteAt i = 0 := by
  have words := wordAt_eq_zero_iff b 0 4
  simp only [Nat.zero_add] at words
  rw [← UInt32.toNat_inj, toNat_u32At, UInt32.toNat_zero, words]

/-- A field of eight bytes is two words. -/
theorem Field.bytes_eq_words (f : Field 8) :
    f.bytes = word 4 (f.bytes.u32At 0).toNat ++ word 4 (f.bytes.u32At 4).toNat := by
  have halves := slice_add f.bytes 0 4 4
  rw [word_u32At _ (by rw [f.size_eq]; decide), word_u32At _ (by rw [f.size_eq]), ← halves]
  simpa only [f.size_eq] using (slice_zero_size f.bytes).symm

namespace Name

/-- The names that a text or an offset can be made into. -/
inductive Made : Name → Prop where
  | ofBytes {b : Bytes} {n : Name} (h : ofBytes b = .ok n) : Made n
  | ofOffset {o : UInt32} {n : Name} (h : ofOffset o = .ok n) : Made n

theorem Made.cases {n : Name} (h : Made n) : (∃ f, n = short f) ∨ ∃ o, o.toNat ≤ maxOffset ∧ n = long o := by
  cases h with
  | @ofBytes b _ h =>
    unfold Name.ofBytes at h
    split_ifs at h
    · cases h
    · exact .inl ⟨.pad 8 b, (Except.ok.inj h).symm⟩
  | ofOffset h =>
    obtain ⟨near, rfl⟩ := ofOffset_eq_ok.mp h
    exact .inr ⟨_, near, rfl⟩

/-- What is read from a symbol's field, by its first half. -/
theorem ofSymbolField_eq_ok {f : Field 8} {n : Name} : ofSymbolField f = .ok n ↔
    f.bytes.u32At 0 ≠ 0 ∧ short f = n ∨
      f.bytes.u32At 0 = 0 ∧ (f.bytes.u32At 4).toNat ≤ maxOffset ∧ long (f.bytes.u32At 4) = n := by
  unfold ofSymbolField
  by_cases mark : f.bytes.u32At 0 = 0
  · simp [mark, ofOffset_eq_ok]
  · simp [mark]

/-- A name that was read from a symbol's field is written to the same field. -/
theorem symbolField_of_ofSymbolField {f : Field 8} {n : Name} (h : ofSymbolField f = .ok n) :
    n.symbolField = f := by
  rcases ofSymbolField_eq_ok.mp h with ⟨-, rfl⟩ | ⟨mark, -, rfl⟩
  · rfl
  · have bytes := f.bytes_eq_words
    rw [mark, ← symbolField_long_bytes] at bytes
    have same := congrArg (Field.pad 8) bytes
    rwa [Field.pad_bytes_self, Field.pad_bytes_self, eq_comm] at same

private theorem size_untilZero_le (b : Bytes) : b.untilZero.size ≤ b.size := by
  unfold untilZero
  split
  · rw [size_take]
    exact Nat.min_le_right _ _
  · exact Nat.le_refl _

/-- After the slash there is room for seven digits, so that every reference is to an offset that can be
expressed. -/
theorem sectionOffset?_isSome {f : Field 8} (h : IsReference f.bytes.untilZero) : ∃ o, sectionOffset? f = some o := by
  obtain ⟨slash, some_digit, digits⟩ := h
  have room : (f.bytes.untilZero.drop 1).size ≤ 7 := by
    have size := size_untilZero_le f.bytes
    rw [f.size_eq] at size
    rw [drop, size_slice]
    omega
  have small : 10 ^ (f.bytes.untilZero.drop 1).size ≤ 10 ^ 7 := Nat.pow_le_pow_right (by decide) room
  have word : 10 ^ (f.bytes.untilZero.drop 1).size ≤ 1 <<< 32 := Nat.le_trans small (by decide)
  obtain ⟨v, below, value⟩ := Text.decimal?_of_isDigit some_digit digits word
  have reach : v ≤ maxOffset := Nat.le_of_lt_succ (Nat.lt_of_lt_of_le below small)
  refine ⟨.ofNat v, ?_⟩
  simp only [sectionOffset?, slash, ↓reduceIte, value]
  simp [reach]

/-- Just the fields that hold no reference are read as the names that they hold. -/
theorem ofSectionField_eq_short_iff {f : Field 8} :
    ofSectionField f = short f ↔ ¬ IsReference f.bytes.untilZero := by
  unfold ofSectionField
  cases found : sectionOffset? f with
  | none =>
    refine iff_of_true rfl ?_
    intro reference
    obtain ⟨o, other⟩ := sectionOffset?_isSome reference
    cases found.symm.trans other
  | some o => exact iff_of_false (by simp) (not_not.mpr (of_sectionOffset? found).1)

theorem sectionField_long {o : UInt32} (h : o.toNat ≤ maxOffset) :
    sectionField (long o) = .ok (.pad 8 (slashed o)) :=
  if_neg (Nat.not_lt.mpr (size_slashed_le h))

/-- A short name whose bytes a symbol's field takes for an offset. -/
def StartsWithZeros (n : Name) : Prop := ∃ f, n = short f ∧ ∀ i < 4, f.bytes.byteAt i = 0

/-- A short name whose text a section's field takes for a reference. -/
def HasReferenceText (n : Name) : Prop := ∃ f, n = short f ∧ IsReference f.bytes.untilZero

/-- When a name is read back from the fields it is written to. -/
structure Kept (n : Name) : Prop where
  symbol_iff : ofSymbolField n.symbolField = .ok n ↔ ¬ n.StartsWithZeros
  section_iff : ∃ f, n.sectionField = .ok f ∧ (ofSectionField f = n ↔ ¬ n.HasReferenceText)

/-- What is read from a field, and what becomes of the field when that is written again. -/
structure Restored (f : Field 8) : Prop where
  symbol_fails_iff : (∃ e, ofSymbolField f = .error e) ↔
    (∀ i < 4, f.bytes.byteAt i = 0) ∧ 9999999 < ofLittleEndian (f.bytes.drop 4).data.toList
  symbol_eq : ∀ n, ofSymbolField f = .ok n → n.symbolField = f
  section_eq : ∃ g, (ofSectionField f).sectionField = .ok g ∧ ofSectionField g = ofSectionField f ∧
    ((ofSectionField f).isShort → g = f)

private theorem kept_short (f : Field 8) : Kept (short f) where
  symbol_iff := by
    rw [symbolField, ofSymbolField_eq_ok]
    simp [StartsWithZeros, ← u32At_eq_zero_iff]
  section_iff := by
    refine ⟨f, rfl, ofSectionField_eq_short_iff.trans ?_⟩
    simp [HasReferenceText]

private theorem kept_long {o : UInt32} (h : o.toNat ≤ maxOffset) : Kept (long o) where
  symbol_iff := iff_of_true (ofSymbolField_long h) (by simp [StartsWithZeros])
  section_iff := ⟨_, sectionField_long h, iff_of_true (ofSectionField_slashed h) (by simp [HasReferenceText])⟩

theorem restored (f : Field 8) : Restored f where
  symbol_fails_iff := by
    have last : (f.bytes.u32At 4).toNat = ofLittleEndian (f.bytes.drop 4).data.toList := by
      rw [toNat_u32At, wordAt_eq_ofLittleEndian _ (by rw [f.size_eq]), drop, f.size_eq]
    have limit : maxOffset = 9999999 := rfl
    rw [← last, ← u32At_eq_zero_iff, ← limit, ← Attempt.not_ok_iff]
    simp only [ofSymbolField_eq_ok, exists_or, exists_and_left, exists_eq', and_true]
    rw [not_or, not_not, not_and, Nat.not_le]
    exact and_congr_right fun mark => imp_iff_right mark
  symbol_eq n := symbolField_of_ofSymbolField
  section_eq := by
    cases found : sectionOffset? f with
    | none =>
      have name : ofSectionField f = short f := by rw [ofSectionField, found]
      exact ⟨f, by rw [name]; rfl, rfl, fun _ => rfl⟩
    | some o =>
      have name : ofSectionField f = long o := by rw [ofSectionField, found]
      have reach := (of_sectionOffset? found).2
      rw [name]
      exact ⟨_, sectionField_long reach, ofSectionField_slashed reach, by simp [isShort]⟩

/-- Every name that can be made is kept by the fields as far as they can tell it from an offset, and every
field is restored from the name that is read from it, but for the digits of a reference. -/
theorem fields_exact : (∀ n, Made n → Kept n) ∧
    (∀ n, ofBytes .empty = .ok n → ofSymbolField n.symbolField ≠ .ok n) ∧ ∀ f, Restored f := by
  refine ⟨?_, ?_, restored⟩
  · intro n made
    rcases made.cases with ⟨f, rfl⟩ | ⟨o, reach, rfl⟩
    · exact kept_short f
    · exact kept_long reach
  · intro n made
    obtain rfl : short (.pad 8 .empty) = n := Except.ok.inj made
    rw [ne_eq, (kept_short _).symbol_iff, not_not]
    exact ⟨_, rfl, by decide⟩

/-- A name of four zeros and a letter is read from a symbol's field as an offset, one of a slash and two digits
from a section's. -/
theorem fields_exact_ambiguous : ∃ zeros slash, ofBytes "\x00\x00\x00\x00a" = .ok zeros ∧
    ofSymbolField zeros.symbolField ≠ .ok zeros ∧ ofBytes "/10" = .ok slash ∧
    ∃ f, slash.sectionField = .ok f ∧ ofSectionField f ≠ slash := by
  have zeros_kept := fields_exact.1 _ (.ofBytes (b := "\x00\x00\x00\x00a") rfl)
  obtain ⟨f, written, read⟩ := (fields_exact.1 _ (.ofBytes (b := "/10") rfl)).section_iff
  refine ⟨_, _, rfl, ?_, rfl, f, written, ?_⟩
  · rw [ne_eq, zeros_kept.symbol_iff, not_not]
    exact ⟨_, rfl, by decide⟩
  · rw [ne_eq, read, not_not]
    exact ⟨_, rfl, by decide +kernel⟩

end Name

end CoffWorks
