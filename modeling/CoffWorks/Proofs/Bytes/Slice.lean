import CoffWorks.Proofs.Bytes.Append

namespace CoffWorks.Bytes

theorem take_size_add (a b : Bytes) (n : Nat) : (a ++ b).take (a.size + n) = a ++ b.take n := by
  have whole : a.extract 0 (a.size + n) = a := by
    rw [← Nat.max_eq_left (Nat.le_add_right a.size n), ByteArray.extract_zero_max_size]
  rw [take, take, slice_eq_extract, slice_eq_extract, Nat.zero_add, Nat.zero_add, ByteArray.extract_append,
    whole, Nat.zero_sub, Nat.add_sub_cancel_left]

@[simp] theorem slice_zero (b : Bytes) (pos : Nat) : b.slice pos 0 = .empty :=
  ByteArray.size_eq_zero_iff.mp (by simp [size_slice])

theorem slice_add (b : Bytes) (pos m n : Nat) :
    b.slice pos (m + n) = b.slice pos m ++ b.slice (pos + m) n := by
  simp only [slice_eq_extract, ← Nat.add_assoc]
  exact ByteArray.extract_eq_extract_append_extract (pos + m) (by omega) (by omega)

private theorem slice_slice (b : Bytes) (pos : Nat) {n i m : Nat} (h : i + m ≤ n) :
    (b.slice pos n).slice i m = b.slice (pos + i) m := by
  simp only [slice_eq_extract, ByteArray.extract_extract]
  rw [Nat.min_eq_left (by omega), Nat.add_assoc]

theorem take_slice (b : Bytes) (pos : Nat) {m n : Nat} (h : m ≤ n) : (b.slice pos n).take m = b.slice pos m :=
  slice_slice b pos (by omega)

theorem slice_append_left (a b : Bytes) {pos n : Nat} (h : pos + n ≤ a.size) :
    (a ++ b).slice pos n = a.slice pos n := by
  have none : b.extract (pos - a.size) (pos + n - a.size) = .empty := by
    rw [ByteArray.extract_eq_empty_iff]
    omega
  rw [slice_eq_extract, slice_eq_extract, ByteArray.extract_append, none, ByteArray.append_empty]

theorem take_append_drop (b : Bytes) {n : Nat} (h : n ≤ b.size) : b.take n ++ b.drop n = b := by
  have parts := slice_add b 0 n (b.size - n)
  rw [Nat.add_sub_cancel' h, slice_zero_size, Nat.zero_add] at parts
  exact parts.symm

theorem drop_eq_slice_append (b : Bytes) {pos n : Nat} (h : pos + n ≤ b.size) :
    b.drop pos = b.slice pos n ++ b.drop (pos + n) := by
  have count : b.size - pos = n + (b.size - (pos + n)) := by omega
  rw [drop, count, slice_add, drop]

theorem drop_append_left (a b : Bytes) {pos : Nat} (h : pos ≤ a.size) :
    (a ++ b).drop pos = a.drop pos ++ b := by
  have front : (a.take pos).size = pos := by
    rw [size_take, Nat.min_eq_left h]
  have whole := drop_append (a.take pos) (a.drop pos ++ b)
  rwa [← ByteArray.append_assoc, take_append_drop a h, front] at whole

theorem byteAt_slice (b : Bytes) (pos : Nat) {n i : Nat} (hi : i < n) :
    (b.slice pos n).byteAt i = b.byteAt (pos + i) := by
  unfold byteAt
  by_cases inside : pos + i < b.size
  · have here : i < (b.slice pos n).size := by
      rw [size_slice]
      omega
    rw [dif_pos here, dif_pos inside]
    simp only [slice_eq_extract, ByteArray.getElem_extract]
  · have past : ¬ i < (b.slice pos n).size := by
      rw [size_slice]
      omega
    rw [dif_neg past, dif_neg inside]

theorem byteAt_take (b : Bytes) {n i : Nat} (hi : i < n) : (b.take n).byteAt i = b.byteAt i := by
  rw [take, byteAt_slice b 0 hi, Nat.zero_add]

/-- Bytes outside of the range are not overwritten. -/
theorem byteAt_overwrite_of_outside (b p : Bytes) {pos i : Nat} (inside : pos + p.size ≤ b.size)
    (hi : i < pos ∨ pos + p.size ≤ i) : (b.overwrite pos p).byteAt i = b.byteAt i := by
  have front : (b.slice 0 pos).size = pos := by
    rw [size_slice]
    omega
  have parts : b.overwrite pos p =
      b.slice 0 pos ++ (p ++ b.slice (pos + p.size) (b.size - (pos + p.size))) := by
    rw [overwrite_eq, slice_eq_extract, slice_eq_extract, ByteArray.append_assoc, Nat.zero_add,
      Nat.add_sub_cancel' inside]
  rw [parts]
  rcases hi with before | after
  · rw [byteAt_append_left _ _ _ (by omega), byteAt_slice b 0 before, Nat.zero_add]
  · rw [byteAt_skip _ _ _ (by omega), byteAt_skip _ _ _ (by omega), front]
    by_cases last : i < b.size
    · rw [byteAt_slice _ _ (by omega)]
      congr 1
      omega
    · have past : ¬ i - pos - p.size < (b.slice (pos + p.size) (b.size - (pos + p.size))).size := by
        rw [size_slice]
        omega
      rw [byteAt, byteAt, dif_neg past, dif_neg last]

theorem ofOctet_byteAt (b : Bytes) {pos : Nat} (h : pos < b.size) :
    ofOctet (b.byteAt pos) = b.slice pos 1 := by
  apply ByteArray.ext_getElem
  · rw [size_ofOctet, size_slice]
    omega
  · intro i hi _
    obtain rfl : i = 0 := by
      rw [size_ofOctet] at hi
      omega
    simp only [slice_eq_extract, ByteArray.getElem_extract, byteAt, dif_pos h]
    rfl

/-- A word that was read is written back as it was. -/
theorem word_wordAt (b : Bytes) {pos w : Nat} (h : pos + w ≤ b.size) :
    word w (b.wordAt pos w) = b.slice pos w := by
  induction w generalizing pos with
  | zero =>
    rw [slice_zero]
    rfl
  | succ w ih =>
    have small := (b.byteAt pos).toNat_lt
    have low : (b.wordAt pos (w + 1)).toUInt8 = b.byteAt pos := by
      apply UInt8.toNat_inj.mp
      rw [wordAt, Nat.toUInt8_eq, UInt8.toNat_ofNat']
      omega
    have high : b.wordAt pos (w + 1) / 256 = b.wordAt (pos + 1) w := by
      rw [wordAt]
      omega
    rw [word_succ, low, high, ih (by omega), ofOctet_byteAt b (by omega), Nat.add_comm w 1, slice_add]

/-- The value of a word is that of its bytes. -/
theorem wordAt_eq_ofLittleEndian (b : Bytes) {pos w : Nat} (h : pos + w ≤ b.size) :
    b.wordAt pos w = ofLittleEndian (b.slice pos w).data.toList := by
  induction w generalizing pos with
  | zero =>
    rw [slice_zero]
    rfl
  | succ w ih =>
    rw [wordAt, ih (by omega), Nat.add_comm w 1, slice_add, ← ofOctet_byteAt b (by omega),
      ByteArray.data_append, Array.toList_append]
    rfl

theorem wordAt_lt (b : Bytes) (pos w : Nat) : b.wordAt pos w < 256 ^ w := by
  induction w generalizing pos with
  | zero => exact Nat.one_pos
  | succ w ih =>
    have first := (b.byteAt pos).toNat_lt
    have rest := ih (pos + 1)
    rw [wordAt, Nat.pow_succ]
    omega

theorem wordAt_eq_zero_iff (b : Bytes) (pos w : Nat) :
    b.wordAt pos w = 0 ↔ ∀ i < w, b.byteAt (pos + i) = 0 := by
  induction w generalizing pos with
  | zero => simp [wordAt]
  | succ w ih =>
    have first : (b.byteAt pos).toNat = 0 ↔ b.byteAt pos = 0 := UInt8.toNat_inj (b := 0)
    rw [wordAt, Nat.add_eq_zero_iff, Nat.mul_eq_zero, or_iff_right (by decide), ih, first, Nat.forall_lt_succ_left]
    simp only [Nat.add_zero, Nat.add_assoc, Nat.add_comm 1]

theorem toNat_u32At (b : Bytes) (pos : Nat) : (b.u32At pos).toNat = b.wordAt pos 4 :=
  UInt32.toNat_ofNat_of_lt' (wordAt_lt b pos 4)

theorem wordAt_slice (b : Bytes) (pos : Nat) {n i w : Nat} (h : i + w ≤ n) :
    (b.slice pos n).wordAt i w = b.wordAt (pos + i) w := by
  induction w generalizing i with
  | zero => rfl
  | succ w ih => rw [wordAt, wordAt, byteAt_slice b pos (by omega), ih (by omega), Nat.add_assoc]

theorem u32At_slice (b : Bytes) (pos : Nat) {n : Nat} (h : 4 ≤ n) :
    (b.slice pos n).u32At 0 = b.u32At pos := by
  rw [u32At, u32At, wordAt_slice b pos (by omega), Nat.add_zero]

theorem word_u16At (b : Bytes) {pos : Nat} (h : pos + 2 ≤ b.size) :
    word 2 (b.u16At pos).toNat = b.slice pos 2 := by
  rw [← word_wordAt b h, u16At, Nat.toUInt16_eq, UInt16.toNat_ofNat', word, word]
  exact congrArg List.toByteArray (littleEndian_mod 2 _)

theorem word_u32At (b : Bytes) {pos : Nat} (h : pos + 4 ≤ b.size) :
    word 4 (b.u32At pos).toNat = b.slice pos 4 := by
  rw [← word_wordAt b h, u32At, Nat.toUInt32_eq, word_toNat_ofNat]

theorem concat_map_getElem {α : Type} (g : α → Bytes) (l : List α) {i : Nat} (hi : i < l.length) :
    concat (l.map g) = concat ((l.take i).map g) ++ (g l[i] ++ concat ((l.drop (i + 1)).map g)) := by
  calc concat (l.map g)
    _ = concat ((l.take i ++ l[i] :: l.drop (i + 1)).map g) := by
      rw [← List.drop_eq_getElem_cons hi, List.take_append_drop]
    _ = _ := by rw [List.map_append, List.map_cons, concat_append, concat_cons]

/-- Parts of the same size, one after the other. -/
theorem concat_slices (b : Bytes) (n count : Nat) :
    concat ((List.range count).map fun i => b.slice (i * n) n) = b.take (count * n) := by
  induction count with
  | zero => rw [Nat.zero_mul, take, slice_zero, List.range_zero, List.map_nil, concat_nil]
  | succ count ih =>
    rw [List.range_succ, List.map_append, concat_append, ih, List.map_singleton, concat_cons, concat_nil,
      ByteArray.append_empty, Nat.succ_mul, take, take, slice_add, Nat.zero_add]

/-- One of the parts, if all have the same size. -/
theorem slice_of_concat {α : Type} {g : α → Bytes} {n : Nat} (hn : ∀ a, (g a).size = n) {l : List α}
    {b : Bytes} {pos : Nat} (h : concat (l.map g) = b.slice pos (concat (l.map g)).size) {i : Nat} {a : α}
    (hi : l[i]? = some a) : g a = b.slice (pos + n * i) n := by
  obtain ⟨inside, rfl⟩ := List.getElem?_eq_some_iff.mp hi
  have before : (concat ((l.take i).map g)).size = n * i := by
    rw [size_concat_records g n hn, List.length_take_of_le (Nat.le_of_lt inside)]
  have total : (concat (l.map g)).size = n * l.length := size_concat_records g n hn l
  have fits : n * i + n ≤ n * l.length := Nat.mul_le_mul_left n inside
  have middle := slice_middle (concat ((l.take i).map g)) (g l[i]) (concat ((l.drop (i + 1)).map g))
  rw [before, hn, ← concat_map_getElem] at middle
  rw [← middle, h, total, slice_slice b pos fits]

end CoffWorks.Bytes

namespace CoffWorks.Field

/-- A field that was read is written back as it was. -/
theorem at_bytes {n : Nat} {b : Bytes} {pos : Nat} (h : pos + n ≤ b.size) :
    (Field.at n b pos).bytes = b.slice pos n := by
  have size : (b.slice pos n).size = n := by
    rw [Bytes.size_slice]
    omega
  rw [Field.at, pad_bytes n _ (Nat.le_of_eq size), size, Nat.sub_self]
  exact ByteArray.append_empty

end CoffWorks.Field
