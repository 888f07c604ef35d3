import Mathlib
import CoffWorks.Bytes.Basic

namespace CoffWorks.Bytes

/-- The two ways to see a byte string as a list. -/
theorem toList_eq (b : Bytes) : b.toList = b.data.toList := by
  have loop (n i : Nat) (r : List UInt8) (h : b.size - i = n) :
      ByteArray.toList.loop b i r = r.reverse ++ b.data.toList.drop i := by
    induction n generalizing i r with
    | zero =>
      have stop : ¬ i < b.size := by omega
      have none : b.data.toList.drop i = [] := List.drop_eq_nil_of_le (by simp; omega)
      rw [ByteArray.toList.loop, if_neg stop, none, List.append_nil]
    | succ n ih =>
      have go : i < b.size := by omega
      have next : b.data.toList.drop i = b.get! i :: b.data.toList.drop (i + 1) := by
        rw [List.drop_eq_getElem_cons (by simpa using go)]
        simp [ByteArray.get!, getElem!_pos b.data i go]
      rw [ByteArray.toList.loop, if_pos go, ih (i + 1) _ (by omega), next]
      simp
  simpa [ByteArray.toList] using loop _ 0 [] rfl

theorem push_eq_append (b : Bytes) (x : UInt8) : b.push x = b ++ ofOctet x := by
  rw [ofOctet, ← ByteArray.append_toByteArray_singleton, ← ByteArray.append_toByteArray_singleton,
    ByteArray.empty_append]

@[simp] theorem size_ofOctet (x : UInt8) : (ofOctet x).size = 1 := by
  rw [ofOctet, ByteArray.size_push, ByteArray.size_empty]

@[simp] theorem size_zeros (n : Nat) : (zeros n).size = n := by
  simp [zeros]

theorem pushZeros_eq_append (b : Bytes) (n : Nat) : b.pushZeros n = b ++ zeros n := by
  induction n generalizing b with
  | zero => simp [pushZeros, zeros]
  | succ n ih =>
    have first : zeros (n + 1) = ofOctet 0 ++ zeros n := ih (ByteArray.empty.push 0)
    rw [pushZeros, ih, first, push_eq_append, ByteArray.append_assoc]

theorem zeros_succ (n : Nat) : zeros (n + 1) = ofOctet 0 ++ zeros n :=
  pushZeros_eq_append (ofOctet 0) n

theorem slice_eq_extract (b : Bytes) (pos n : Nat) : b.slice pos n = b.extract pos (pos + n) := by
  unfold slice
  split
  · apply ByteArray.ext
    simp only [ByteArray.data_extract]
    rw [Array.extract_eq_extract_right]
    simp only [ByteArray.size_data]
    omega
  · symm
    rw [ByteArray.extract_eq_empty_iff]
    omega

theorem slice_append (a b : Bytes) (n : Nat) : (a ++ b).slice a.size n = b.slice 0 n := by
  rw [slice_eq_extract, slice_eq_extract, Nat.zero_add]
  exact ByteArray.extract_append_size_add (i := 0)

@[simp] theorem slice_zero_size (b : Bytes) : b.slice 0 b.size = b := by
  rw [slice_eq_extract, Nat.zero_add, ByteArray.extract_zero_size]

theorem take_append (a b : Bytes) : (a ++ b).take a.size = a := by
  rw [take, slice_eq_extract, Nat.zero_add, ByteArray.extract_append_eq_left rfl]

theorem take_of_size_le {b : Bytes} {n : Nat} (h : b.size ≤ n) : b.take n = b := by
  rw [take, slice_eq_extract, Nat.zero_add, ← Nat.max_eq_left h, ByteArray.extract_zero_max_size]

theorem slice_middle (a m c : Bytes) : (a ++ (m ++ c)).slice a.size m.size = m := by
  rw [slice_append]
  exact take_append m c

theorem drop_append (a b : Bytes) : (a ++ b).drop a.size = b := by
  rw [drop, slice_append, ByteArray.size_append, Nat.add_sub_cancel_left, slice_zero_size]

theorem startsWith_iff {b start : Bytes} : b.startsWith start ↔ b.take start.size = start := by
  rw [startsWith, ByteArray.ext_iff]
  change ((b.take start.size).data == start.data) = true ↔ _
  exact beq_iff_eq

theorem startsWith_append (a b : Bytes) : (a ++ b).startsWith a := by
  rw [startsWith_iff, take_append]

/-- What is overwritten is replaced; the bytes before and after it stay. -/
theorem overwrite_eq (b p : Bytes) (pos : Nat) :
    b.overwrite pos p = b.extract 0 pos ++ p ++ b.extract (pos + p.size) b.size := by
  simp only [overwrite, ByteArray.copySlice_eq_append, Nat.zero_add, ByteArray.size_data,
    Nat.sub_zero, Nat.min_self, ByteArray.extract_zero_size]

/-- Only the middle part changes. -/
theorem overwrite_middle (a old c new : Bytes) (h : new.size = old.size) :
    (a ++ (old ++ c)).overwrite a.size new = a ++ (new ++ c) := by
  have before : (a ++ (old ++ c)).extract 0 a.size = a := ByteArray.extract_append_eq_left rfl
  have after : (a ++ (old ++ c)).extract (a.size + new.size) (a ++ (old ++ c)).size = c := by
    rw [← ByteArray.append_assoc]
    apply ByteArray.extract_append_eq_right
    · rw [ByteArray.size_append, h]
    · rw [ByteArray.size_append]
  rw [overwrite_eq, before, after, ByteArray.append_assoc]

/-- Overwriting behind a first part leaves that part alone. -/
theorem overwrite_append (a b p : Bytes) (pos : Nat) :
    (a ++ b).overwrite (a.size + pos) p = a ++ b.overwrite pos p := by
  have whole : a.extract 0 (a.size + pos) = a := by
    rw [← Nat.max_eq_left (Nat.le_add_right a.size pos), ByteArray.extract_zero_max_size]
  have before : (a ++ b).extract 0 (a.size + pos) = a ++ b.extract 0 pos := by
    rw [ByteArray.extract_append, whole, Nat.zero_sub, Nat.add_sub_cancel_left]
  have after : (a ++ b).extract (a.size + pos + p.size) (a ++ b).size =
      b.extract (pos + p.size) b.size := by
    rw [Nat.add_assoc, ByteArray.size_append, ByteArray.extract_append_size_add]
  simp only [overwrite_eq, before, after, ByteArray.append_assoc]

theorem size_overwrite (b p : Bytes) (pos : Nat) (h : pos + p.size ≤ b.size) :
    (b.overwrite pos p).size = b.size := by
  simp only [overwrite_eq, ByteArray.size_append, ByteArray.size_extract]
  omega

theorem overwrite_size (b p : Bytes) : b.overwrite b.size p = b ++ p := by
  have after : b.extract (b.size + p.size) b.size = .empty := by
    rw [ByteArray.extract_eq_empty_iff]
    omega
  rw [overwrite_eq, ByteArray.extract_zero_size, after, ByteArray.append_empty]

/-- The low `w` bytes of `n`, least significant first. -/
def word (w n : Nat) : Bytes := (littleEndian w n).toByteArray

@[simp] theorem length_littleEndian (w n : Nat) : (littleEndian w n).length = w := by
  induction w generalizing n with
  | zero => rfl
  | succ w ih => simp [littleEndian, ih]

@[simp] theorem size_word (w n : Nat) : (word w n).size = w := by
  simp [word]

theorem word_succ (w n : Nat) : word (w + 1) n = ofOctet n.toUInt8 ++ word w (n / 256) :=
  List.toByteArray_append (l := [n.toUInt8])

/-- What does not fit in the bytes of a word is lost. -/
theorem littleEndian_mod (w n : Nat) : littleEndian w (n % 256 ^ w) = littleEndian w n := by
  induction w generalizing n with
  | zero => rfl
  | succ w ih =>
    have low : (n % 256 ^ (w + 1)).toUInt8 = n.toUInt8 := by
      apply UInt8.toNat_inj.mp
      rw [UInt8.toNat_ofNat', UInt8.toNat_ofNat', Nat.mod_mod_of_dvd _ ⟨256 ^ w, by rw [Nat.pow_succ']⟩]
    have high : n % 256 ^ (w + 1) / 256 = n / 256 % 256 ^ w := by
      rw [Nat.pow_succ', Nat.mod_mul_right_div_self]
    rw [littleEndian, littleEndian, low, high, ih]

@[simp] theorem word_toNat_ofNat (n : Nat) : word 4 (UInt32.ofNat n).toNat = word 4 n := by
  rw [UInt32.toNat_ofNat', word, word]
  exact congrArg List.toByteArray (littleEndian_mod 4 n)

/-- Words are appended least significant byte first. -/
theorem pushWord_eq_append (b : Bytes) (w n : Nat) : b.pushWord w n = b ++ word w n := by
  induction w generalizing b n with
  | zero => simp [pushWord, word, littleEndian]
  | succ w ih => rw [pushWord, ih, word_succ, push_eq_append, ByteArray.append_assoc]

theorem push16_eq_append (b : Bytes) (v : UInt16) : b.push16 v = b ++ word 2 v.toNat :=
  pushWord_eq_append b 2 v.toNat

theorem push32_eq_append (b : Bytes) (v : UInt32) : b.push32 v = b ++ word 4 v.toNat :=
  pushWord_eq_append b 4 v.toNat

theorem byteAt_append (a b : Bytes) (pos : Nat) : (a ++ b).byteAt (a.size + pos) = b.byteAt pos := by
  unfold byteAt
  by_cases h : pos < b.size
  · have inside : a.size + pos < (a ++ b).size := by rw [ByteArray.size_append]; omega
    rw [dif_pos inside, dif_pos h, ByteArray.getElem_append_right (by omega)]
    simp
  · have outside : ¬ a.size + pos < (a ++ b).size := by rw [ByteArray.size_append]; omega
    rw [dif_neg outside, dif_neg h]

theorem byteAt_append_left (a b : Bytes) (pos : Nat) (h : pos < a.size) :
    (a ++ b).byteAt pos = a.byteAt pos := by
  unfold byteAt
  have inside : pos < (a ++ b).size := by rw [ByteArray.size_append]; omega
  rw [dif_pos inside, dif_pos h, ByteArray.getElem_append_left h]

theorem wordAt_append (a b : Bytes) (pos w : Nat) :
    (a ++ b).wordAt (a.size + pos) w = b.wordAt pos w := by
  induction w generalizing pos with
  | zero => rfl
  | succ w ih => rw [wordAt, wordAt, byteAt_append, Nat.add_assoc, ih]

theorem byteAt_skip (a b : Bytes) (pos : Nat) (h : a.size ≤ pos) :
    (a ++ b).byteAt pos = b.byteAt (pos - a.size) := by
  rw [← byteAt_append a b, Nat.add_sub_cancel' h]

theorem u16At_skip (a b : Bytes) (pos : Nat) (h : a.size ≤ pos) :
    (a ++ b).u16At pos = b.u16At (pos - a.size) := by
  rw [u16At, u16At, ← wordAt_append a b, Nat.add_sub_cancel' h]

theorem u32At_skip (a b : Bytes) (pos : Nat) (h : a.size ≤ pos) :
    (a ++ b).u32At pos = b.u32At (pos - a.size) := by
  rw [u32At, u32At, ← wordAt_append a b, Nat.add_sub_cancel' h]

theorem byteAt_octet (x : UInt8) (b : Bytes) : (ofOctet x ++ b).byteAt 0 = x := by
  rw [byteAt_append_left _ _ _ (by simp)]
  rfl

/-- Of a number that was written as a word, the part that fits is read back. -/
theorem wordAt_word (w n : Nat) (b : Bytes) : (word w n ++ b).wordAt 0 w = n % 256 ^ w := by
  induction w generalizing n with
  | zero => simp [wordAt, Nat.mod_one]
  | succ w ih =>
    have rest : (word (w + 1) n ++ b).wordAt (0 + 1) w = n / 256 % 256 ^ w := by
      rw [word_succ, ByteArray.append_assoc]
      exact (wordAt_append (ofOctet n.toUInt8) _ 0 w).trans (ih (n / 256))
    have first : (word (w + 1) n ++ b).byteAt 0 = n.toUInt8 := by
      rw [word_succ, ByteArray.append_assoc, byteAt_octet]
    rw [wordAt, rest, first, Nat.pow_succ', Nat.mod_mul, Nat.toUInt8_eq, UInt8.toNat_ofNat']

theorem u16At_word (v : UInt16) (b : Bytes) : (word 2 v.toNat ++ b).u16At 0 = v := by
  have small : v.toNat < 256 ^ 2 := v.toNat_lt
  rw [u16At, wordAt_word, Nat.mod_eq_of_lt small]
  simp

theorem u32At_word (v : UInt32) (b : Bytes) : (word 4 v.toNat ++ b).u32At 0 = v := by
  have small : v.toNat < 256 ^ 4 := v.toNat_lt
  rw [u32At, wordAt_word, Nat.mod_eq_of_lt small]
  simp

theorem u32At_word_self (v : UInt32) : (word 4 v.toNat).u32At 0 = v := by
  have read := u32At_word v .empty
  rwa [ByteArray.append_empty] at read

/-- A word with a byte that is not zero is not zero. -/
theorem u32At_ne_zero {b : Bytes} {pos : Nat} (h : b.byteAt pos ≠ 0) : b.u32At pos ≠ 0 := by
  intro zero
  have value := congrArg UInt32.toNat zero
  have small := (b.byteAt pos).toNat_lt
  rw [u32At, UInt32.toNat_ofNat', wordAt, UInt32.toNat_zero] at value
  apply h
  apply UInt8.toNat_inj.mp
  rw [UInt8.toNat_zero]
  omega

private theorem foldl_append_eq (parts : List Bytes) (b : Bytes) :
    parts.foldl (· ++ ·) b = b ++ concat parts := by
  induction parts generalizing b with
  | nil => simp [concat]
  | cons c rest ih =>
    have tail : concat (c :: rest) = c ++ concat rest := by
      rw [concat, List.foldl_cons, ByteArray.empty_append, ih]
    rw [List.foldl_cons, ih, tail, ByteArray.append_assoc]

@[simp] theorem concat_nil : concat [] = .empty := rfl

@[simp] theorem concat_cons (b : Bytes) (parts : List Bytes) :
    concat (b :: parts) = b ++ concat parts := by
  rw [concat, List.foldl_cons, ByteArray.empty_append, foldl_append_eq]

theorem concat_append (parts more : List Bytes) :
    concat (parts ++ more) = concat parts ++ concat more := by
  induction parts with
  | nil => simp
  | cons b rest ih => simp [ih, ByteArray.append_assoc]

theorem size_concat (parts : List Bytes) : (concat parts).size = (parts.map (·.size)).sum := by
  induction parts with
  | nil => rfl
  | cons b rest ih => simp [ih]

theorem size_concat_map {α : Type} (g : α → Bytes) (l : List α) :
    (concat (l.map g)).size = (l.map fun a => (g a).size).sum := by
  rw [size_concat, List.map_map]
  rfl

theorem size_concat_records {α : Type} (g : α → Bytes) (n : Nat) (h : ∀ a, (g a).size = n) (l : List α) :
    (concat (l.map g)).size = n * l.length := by
  simp [size_concat_map, h, Nat.mul_comm]

theorem size_times (b : Bytes) (n : Nat) : (b.times n).size = n * b.size := by
  fun_induction times b n with
  | case1 => rw [ByteArray.size_empty, Nat.zero_mul]
  | case2 n pos half even ih =>
    rw [ByteArray.size_append, ih, ← Nat.add_mul]
    congr 1
    omega
  | case3 n pos half odd ih =>
    rw [ByteArray.size_append, ByteArray.size_append, ih, ← Nat.add_mul, ← Nat.succ_mul]
    congr 1
    omega

/-- No byte is zero. -/
def NoZero (b : Bytes) : Prop := 0 ∉ b.data

instance : DecidablePred NoZero := fun b => inferInstanceAs (Decidable (0 ∉ b.data))

theorem NoZero.byteAt_ne {b : Bytes} (h : NoZero b) {i : Nat} (hi : i < b.size) : b.byteAt i ≠ 0 := by
  intro zero
  rw [byteAt, dif_pos hi] at zero
  exact h (zero ▸ Array.getElem_mem hi)

/-- The search stops at the first place that it looks for. -/
theorem indexFrom_eq_some {b : Bytes} {x : UInt8} {pos stop : Nat} (inside : stop < b.size)
    (here : b.byteAt stop = x) (le : pos ≤ stop) (before : ∀ i, pos ≤ i → i < stop → b.byteAt i ≠ x) :
    b.indexFrom x pos = some stop := by
  induction hn : stop - pos generalizing pos with
  | zero =>
    obtain rfl : pos = stop := by omega
    rw [byteAt, dif_pos inside] at here
    rw [indexFrom, dif_pos inside, if_pos here]
  | succ n ih =>
    have go : pos < b.size := by omega
    have other := before pos (Nat.le_refl _) (by omega)
    rw [byteAt, dif_pos go] at other
    rw [indexFrom, dif_pos go, if_neg other]
    exact ih (by omega) (fun i hi => before i (by omega)) (by omega)

theorem indexFrom_eq_none {b : Bytes} {x : UInt8} {pos : Nat}
    (h : ∀ i, pos ≤ i → i < b.size → b.byteAt i ≠ x) : b.indexFrom x pos = none := by
  induction hn : b.size - pos generalizing pos with
  | zero => rw [indexFrom, dif_neg (by omega)]
  | succ n ih =>
    have go : pos < b.size := by omega
    have other := h pos (Nat.le_refl _) go
    rw [byteAt, dif_pos go] at other
    rw [indexFrom, dif_pos go, if_neg other]
    exact ih (fun i hi => h i (by omega)) (by omega)

/-- The first zero byte after a part without any is the one that ends it. -/
theorem indexFrom_zero (a n c : Bytes) (h : NoZero n) :
    (a ++ (n ++ (ofOctet 0 ++ c))).indexFrom 0 a.size = some (a.size + n.size) := by
  apply indexFrom_eq_some
  · simp only [ByteArray.size_append, size_ofOctet]
    omega
  · have stop := byteAt_append n (ofOctet 0 ++ c) 0
    rw [byteAt_append, ← Nat.add_zero n.size, stop, byteAt_octet]
  · omega
  · intro i start stop
    obtain ⟨j, rfl⟩ := Nat.exists_eq_add_of_le start
    rw [byteAt_append, byteAt_append_left _ _ _ (by omega)]
    exact h.byteAt_ne (by omega)

end CoffWorks.Bytes

namespace CoffWorks.Field

theorem pad_bytes (n : Nat) (b : Bytes) (h : b.size ≤ n) :
    (pad n b).bytes = b ++ Bytes.zeros (n - b.size) := by
  change (b.take n).pushZeros (n - b.size) = _
  rw [Bytes.take_of_size_le h, Bytes.pushZeros_eq_append]

/-- Text without zero bytes can be told from the zeros that fill its field. -/
theorem untilZero_pad {n : Nat} {b : Bytes} (hb : b.size ≤ n) (h : Bytes.NoZero b) :
    (pad n b).bytes.untilZero = b := by
  rw [pad_bytes n b hb, Bytes.untilZero]
  cases hn : n - b.size with
  | zero =>
    have none : b.indexFrom 0 0 = none := Bytes.indexFrom_eq_none fun i _ hi => h.byteAt_ne hi
    simp [Bytes.zeros, Bytes.pushZeros, none]
  | succ m =>
    have stop := Bytes.indexFrom_zero .empty b (Bytes.zeros m) h
    simp only [ByteArray.empty_append, ByteArray.size_empty, Nat.zero_add] at stop
    rw [Bytes.zeros_succ, stop]
    exact Bytes.take_append b _

theorem pad_bytes_self {n : Nat} (f : Field n) : pad n f.bytes = f := by
  obtain ⟨b, rfl⟩ := f
  simp [pad, Bytes.take_of_size_le, Bytes.pushZeros]

/-- A field that stands after `a` is read back. -/
theorem at_append {n : Nat} (a b : Bytes) (f : Field n) : Field.at n (a ++ (f.bytes ++ b)) a.size = f := by
  have whole : (a ++ (f.bytes ++ b)).slice a.size n = f.bytes := by
    simpa only [f.size_eq] using Bytes.slice_middle a f.bytes b
  rw [Field.at, whole, pad_bytes_self]

end CoffWorks.Field
