import CoffWorks.Proofs.Bytes.Slice
import CoffWorks.Text.Glyph

namespace CoffWorks.Bytes

/-- What is found is the first place that was looked for. -/
theorem of_indexFrom {b : Bytes} {x : UInt8} {pos i : Nat} (h : b.indexFrom x pos = some i) :
    i < b.size ∧ b.byteAt i = x ∧ ∀ j, pos ≤ j → j < i → b.byteAt j ≠ x := by
  fun_induction indexFrom b x pos with
  | case1 pos inside here =>
    obtain rfl := Option.some.inj h
    refine ⟨inside, by rw [byteAt, dif_pos inside, here], ?_⟩
    intro j start stop
    omega
  | case2 pos inside other ih =>
    obtain ⟨there, same, before⟩ := ih h
    refine ⟨there, same, ?_⟩
    intro j start stop
    rcases Nat.eq_or_lt_of_le start with rfl | later
    · rwa [byteAt, dif_pos inside]
    · exact before j later stop
  | case3 pos outside => cases h

theorem of_indexFrom_eq_none {b : Bytes} {x : UInt8} {pos : Nat} (h : b.indexFrom x pos = none) :
    ∀ j, pos ≤ j → j < b.size → b.byteAt j ≠ x := by
  fun_induction indexFrom b x pos with
  | case1 pos inside here => cases h
  | case2 pos inside other ih =>
    intro j start stop
    rcases Nat.eq_or_lt_of_le start with rfl | later
    · rwa [byteAt, dif_pos inside]
    · exact ih h j later stop
  | case3 pos outside =>
    intro j start stop
    omega

private theorem noZero_of_byteAt {b : Bytes} (h : ∀ i < b.size, b.byteAt i ≠ 0) : NoZero b := by
  intro zero
  obtain ⟨i, inside, same⟩ := Array.mem_iff_getElem.mp zero
  have here : b.byteAt i = b.data[i] := dif_pos inside
  exact h i inside (here.trans same)

theorem untilZero_of_noZero {b : Bytes} (h : NoZero b) : b.untilZero = b := by
  have none : b.indexFrom 0 0 = none := indexFrom_eq_none fun i _ hi => h.byteAt_ne hi
  rw [untilZero, none]

theorem noZero_of_indexFrom_eq_none {b : Bytes} (h : b.indexFrom 0 0 = none) : NoZero b := by
  apply noZero_of_byteAt
  intro i hi
  exact of_indexFrom_eq_none h i (Nat.zero_le i) hi

/-- The first zero byte, with what stands before and after it. -/
theorem eq_append_of_indexFrom {b : Bytes} {i : Nat} (h : b.indexFrom 0 0 = some i) :
    NoZero (b.take i) ∧ b = b.take i ++ (ofOctet 0 ++ b.drop (i + 1)) := by
  obtain ⟨inside, zero, other⟩ := of_indexFrom h
  constructor
  · apply noZero_of_byteAt
    intro j hj
    rw [size_take] at hj
    rw [byteAt_take b (by omega)]
    exact other j (Nat.zero_le j) (by omega)
  · have octet : b.slice i 1 = ofOctet 0 := by rw [← ofOctet_byteAt b inside, zero]
    rw [← octet, ← drop_eq_slice_append b inside, take_append_drop b (Nat.le_of_lt inside)]

/-- The first zero byte of a text that has one behind it is where the text is cut. -/
private theorem append_zero_eq (b after : Bytes) : NoZero b.untilZero ∧
    ∃ rest, b ++ (ofOctet 0 ++ after) = b.untilZero ++ (ofOctet 0 ++ rest) := by
  unfold untilZero
  cases found : b.indexFrom 0 0 with
  | none => exact ⟨noZero_of_indexFrom_eq_none found, after, rfl⟩
  | some i =>
    obtain ⟨clean, parts⟩ := eq_append_of_indexFrom found
    refine ⟨clean, b.drop (i + 1) ++ (ofOctet 0 ++ after), ?_⟩
    calc b ++ (ofOctet 0 ++ after)
      _ = b.take i ++ (ofOctet 0 ++ b.drop (i + 1)) ++ (ofOctet 0 ++ after) := by rw [← parts]
      _ = _ := by simp only [ByteArray.append_assoc]

theorem indexFrom_append_zero (a b after : Bytes) :
    (a ++ (b ++ (ofOctet 0 ++ after))).indexFrom 0 a.size = some (a.size + b.untilZero.size) := by
  obtain ⟨clean, rest, eq⟩ := append_zero_eq b after
  rw [eq, indexFrom_zero a _ rest clean]

theorem slice_append_zero (a b after : Bytes) :
    (a ++ (b ++ (ofOctet 0 ++ after))).slice a.size b.untilZero.size = b.untilZero := by
  obtain ⟨-, rest, eq⟩ := append_zero_eq b after
  rw [eq, slice_middle]

/-- The zeros that fill a field up cut nothing off. -/
theorem untilZero_append_zeros (b : Bytes) (n : Nat) : (b ++ zeros n).untilZero = b.untilZero := by
  cases n with
  | zero => rw [show zeros 0 = .empty from rfl, ByteArray.append_empty]
  | succ n =>
    have stop := indexFrom_append_zero .empty b (zeros n)
    have text := slice_append_zero .empty b (zeros n)
    simp only [ByteArray.empty_append, ByteArray.size_empty, Nat.zero_add] at stop text
    rw [zeros_succ, untilZero, stop]
    exact text

end CoffWorks.Bytes

namespace CoffWorks.Text

open Bytes

/-- A zero byte is a character by itself, so that a text is not cut inside another one. -/
theorem isValid_untilZero {b : Bytes} (h : isValid b) : isValid b.untilZero := by
  unfold untilZero
  cases found : b.indexFrom 0 0 with
  | none => exact h
  | some i =>
    obtain ⟨inside, zero, -⟩ := of_indexFrom found
    rw [byteAt, dif_pos inside] at zero
    let s : String := .ofByteArray b (ByteArray.validateUTF8_eq_true_iff.mp h)
    have octet : s.getUTF8Byte ⟨i⟩ inside = 0 := zero
    have first : (s.getUTF8Byte ⟨i⟩ inside).IsUTF8FirstByte := .inl (by rw [octet]; rfl)
    have position : String.Pos.Raw.IsValid s ⟨i⟩ :=
      String.Pos.Raw.isValid_iff_isUTF8FirstByte.mpr (.inr ⟨inside, first⟩)
    have front := (String.Pos.Raw.isValid_iff_isValidUTF8_extract_zero.mp position).2
    dsimp only
    rw [take, slice_eq_extract, Nat.zero_add]
    exact ByteArray.validateUTF8_eq_true_iff.mpr front

theorem isValid_times {b : Bytes} (h : isValid b) (n : Nat) : isValid (b.times n) := by
  simp only [isValid, ByteArray.validateUTF8_eq_true_iff] at h ⊢
  fun_induction times b n with
  | case1 => exact ByteArray.isValidUTF8_empty
  | case2 n pos half even ih => exact ih.append ih
  | case3 n pos half odd ih => exact (ih.append ih).append h

end CoffWorks.Text
