import CoffWorks.Proofs.Text.Plain
import CoffWorks.Text.Hex

namespace CoffWorks

namespace Bytes

private theorem foldl_eq {α : Type} (f : α → UInt8 → α) (acc : α) (b : Bytes) :
    b.foldl f acc = b.data.toList.foldl f acc := by
  have loop (n j : Nat) (acc : α) (h : b.size - j = n) :
      ByteArray.foldlM.loop (m := Id) (fun a x => pure (f a x)) b b.size (Nat.le_refl _) n j acc =
        (b.data.toList.drop j).foldl f acc := by
    induction n generalizing j acc with
    | zero =>
      have stop : ¬ j < b.size := by omega
      have none : b.data.toList.drop j = [] := List.drop_eq_nil_of_le (by simp; omega)
      rw [ByteArray.foldlM.loop, dif_neg stop, none]
      rfl
    | succ n ih =>
      have go : j < b.size := by omega
      rw [ByteArray.foldlM.loop, dif_pos go, List.drop_eq_getElem_cons (by simpa using go)]
      exact ih (j + 1) _ (by omega)
  rw [ByteArray.foldl, ByteArray.foldlM, dif_pos (Nat.le_refl _)]
  exact loop b.size 0 acc rfl

end Bytes

namespace Text

open Bytes

theorem IsDigit.isPlain {x : UInt8} (h : IsDigit x) : IsPlain x := by
  unfold IsDigit at h
  unfold IsPlain
  omega

theorem plain_decimal (n : Nat) : Plain (decimal n) := by
  intro x hx
  rw [decimal_eq, List.data_toByteArray] at hx
  exact (isDigit_of_mem_digits hx).isPlain

/-- No number but zero starts with a zero. -/
private theorem digits_cons {n : Nat} (h : 0 < n) : ∃ d rest, digits n = d :: rest ∧ d ≠ 48 := by
  induction n using Nat.strong_induction_on with
  | _ n ih =>
    rcases Nat.lt_or_ge n 10 with small | large
    · refine ⟨_, [], digits_of_lt small, ?_⟩
      interval_cases n <;> decide
    · obtain ⟨d, rest, first, nonzero⟩ := ih (n / 10) (by omega) (by omega)
      exact ⟨d, rest ++ digits (n % 10), by rw [digits_of_ge large, first, List.cons_append], nonzero⟩

theorem literalValue?_of_no_underscore {limit : Nat} {l : List UInt8} (some : l ≠ []) (h : ∀ x ∈ l, x ≠ 95) :
    literalValue? limit l = digitsValue? limit (splitBase l).1 ((splitBase l).2.filter (· ≠ 95)) := by
  have none : ¬ (l.contains 95 ∧ ¬ underscoresFit l) := by
    rintro ⟨mem, -⟩
    exact h 95 (List.contains_iff_mem.mp mem) rfl
  rw [literalValue?, if_neg (by simpa using some), if_neg none]

/-- A decimal number is read back as a literal. -/
theorem literal?_decimal {bits n : Nat} (h : n < 1 <<< bits) : literal? bits (decimal n) = some n := by
  have no_underscore : ∀ x ∈ digits n, x ≠ 95 := by
    rintro x hx rfl
    exact absurd (isDigit_of_mem_digits hx) (by decide)
  have all : (digits n).filter (· ≠ 95) = digits n := by
    rw [List.filter_eq_self]
    simpa using no_underscore
  rw [literal?, decimal_eq, toList_eq, List.data_toByteArray]
  rcases Nat.eq_zero_or_pos n with rfl | pos
  · rfl
  · obtain ⟨d, rest, first, nonzero⟩ := digits_cons pos
    have base : splitBase (digits n) = (10, digits n) := by
      rw [first]
      unfold splitBase
      split <;> simp_all
    rw [literalValue?_of_no_underscore (by simp [first]) no_underscore, base, all, digitsValue?_digits h]

/-- The last `w` digits of `n`, most significant first. -/
def hexDigits : Nat → Nat → List UInt8
  | 0, _ => []
  | w + 1, n => hexDigits w (n / 16) ++ [Hex.digit n]

private theorem length_hexDigits (w n : Nat) : (hexDigits w n).length = w := by
  induction w generalizing n with
  | zero => rfl
  | succ w ih => simp [hexDigits, ih]

/-- The digits that are in use are plain, and count what they should. -/
theorem Hex.digit_spec (n : Nat) : IsPlain (Hex.digit n) ∧ Hex.digit n ≠ 95 ∧
    digitValue? (Hex.digit n) = some (n % 16) := by
  have all : ∀ d < 16, IsPlain (hexDigit d).toNat.toUInt8 ∧ (hexDigit d).toNat.toUInt8 ≠ 95 ∧
      digitValue? (hexDigit d).toNat.toUInt8 = some d := by decide +kernel
  exact all (n % 16) (Nat.mod_lt n (by decide))

theorem exists_digit_of_mem_hexDigits {w n : Nat} {x : UInt8} (h : x ∈ hexDigits w n) :
    ∃ k, x = Hex.digit k := by
  induction w generalizing n with
  | zero => cases h
  | succ w ih =>
    rcases List.mem_append.mp h with before | last
    · exact ih before
    · exact ⟨n, List.mem_singleton.mp last⟩

private theorem hexDigitsWith_eq (w n : Nat) (acc : List Char) :
    (hexDigitsWith hexDigit w n acc).flatMap String.utf8EncodeChar =
      hexDigits w n ++ acc.flatMap String.utf8EncodeChar := by
  induction w generalizing n acc with
  | zero => rfl
  | succ w ih =>
    have all : ∀ d < 16, String.utf8EncodeChar (hexDigit d) = [(hexDigit d).toNat.toUInt8] := by decide +kernel
    have single := all (n % 16) (Nat.mod_lt n (by decide))
    rw [hexDigitsWith, ih, List.flatMap_cons, single, hexDigits, List.append_assoc]
    rfl

/-- A number is filled up with zeros, or takes the digits that it needs. -/
theorem hex_eq (w n : Nat) : hex w n = (hexDigits (max w (hexLength n)) n).toByteArray := by
  have digits := hexDigitsWith_eq (max w (hexLength n)) n []
  rw [List.flatMap_nil, List.append_nil] at digits
  exact congrArg List.toByteArray digits

theorem lt_pow_hexLength (n : Nat) : n < 16 ^ hexLength n := by
  fun_induction hexLength n with
  | case1 n small => simpa using small
  | case2 n large ih =>
    rw [Nat.pow_succ]
    omega

theorem hexLength_pos (n : Nat) : 0 < hexLength n := by
  unfold hexLength
  split <;> omega

theorem digitsValue?_hexDigits {limit w n : Nat} (hw : n < 16 ^ w) (h : n < limit) :
    digitsValue? limit 16 (hexDigits w n) = some n := by
  induction w generalizing n with
  | zero =>
    obtain rfl : n = 0 := by simpa using hw
    rfl
  | succ w ih =>
    have high : n / 16 < 16 ^ w := by
      rw [Nat.pow_succ] at hw
      omega
    rw [hexDigits, digitsValue?_concat_eq_some]
    exact ⟨n / 16, ih high (by omega), n % 16, (Hex.digit_spec n).2.2, ⟨by omega, by omega⟩, by omega⟩

theorem plain_hex (w n : Nat) : Plain ("0x" ++ hex w n) := by
  apply Plain.append (by decide +kernel)
  intro x hx
  rw [hex_eq, List.data_toByteArray] at hx
  obtain ⟨k, rfl⟩ := exists_digit_of_mem_hexDigits hx
  exact (Hex.digit_spec k).1

/-- A hexadecimal number behind its mark is read back as a literal. -/
theorem literal?_hex {bits w n : Nat} (h : n < 1 <<< bits) : literal? bits ("0x" ++ hex w n) = some n := by
  let ds := hexDigits (max w (hexLength n)) n
  have octets : ("0x" ++ hex w n : Bytes).toList = 48 :: 120 :: ds := by
    rw [toList_eq, hex_eq, ByteArray.data_append, Array.toList_append, List.data_toByteArray]
    rfl
  have no_underscore : ∀ x ∈ ds, x ≠ 95 := by
    intro x hx
    obtain ⟨k, rfl⟩ := exists_digit_of_mem_hexDigits hx
    exact (Hex.digit_spec k).2.1
  have all : ds.filter (· ≠ 95) = ds := by
    rw [List.filter_eq_self]
    simpa using no_underscore
  have wide : n < 16 ^ max w (hexLength n) :=
    Nat.lt_of_lt_of_le (lt_pow_hexLength n) (Nat.pow_le_pow_right (by decide) (Nat.le_max_right ..))
  have base : splitBase (48 :: 120 :: ds) = (16, ds) := by
    cases h : ds with
    | nil =>
      -- a mark without a digit behind it would not be read as one, but there is always a digit
      have length := length_hexDigits (max w (hexLength n)) n
      have pos := hexLength_pos n
      simp only [ds] at h
      rw [h, List.length_nil] at length
      omega
    | cons d rest => rfl
  have marked : ∀ x ∈ 48 :: 120 :: ds, x ≠ 95 := by
    simpa using no_underscore
  rw [literal?, octets, literalValue?_of_no_underscore (by simp) marked, base, all,
    digitsValue?_hexDigits wide h]

namespace Hex

/-- The two digits of an octet. -/
def pair (x : UInt8) : List UInt8 := [digit (x.toNat / 16), digit x.toNat]

/-- Each octet takes two digits. -/
theorem encode_eq (b : Bytes) : encode b = (b.data.toList.flatMap pair).toByteArray := by
  have loop (l : List UInt8) (acc : Bytes) :
      l.foldl (fun acc x => (acc.push (digit (x.toNat / 16))).push (digit x.toNat)) acc =
        acc ++ (l.flatMap pair).toByteArray := by
    induction l generalizing acc with
    | nil => exact ByteArray.append_empty.symm
    | cons x rest ih =>
      rw [List.foldl_cons, ih, List.flatMap_cons, List.toByteArray_append, ← ByteArray.append_assoc]
      rw [← foldl_push (pair x)]
      rfl
  rw [encode, foldl_eq, loop, ByteArray.empty_append]

theorem plain_encode (b : Bytes) : Plain (encode b) := by
  intro x hx
  rw [encode_eq, List.data_toByteArray] at hx
  obtain ⟨y, -, hy⟩ := List.mem_flatMap.mp hx
  obtain rfl | rfl : x = digit (y.toNat / 16) ∨ x = digit y.toNat := by simpa [pair] using hy
  · exact (digit_spec _).1
  · exact (digit_spec _).1

theorem size_encode (b : Bytes) : (encode b).size = 2 * b.size := by
  have length (l : List UInt8) : (l.flatMap pair).length = 2 * l.length := by
    induction l with
    | nil => rfl
    | cons x rest ih =>
      rw [List.flatMap_cons, List.length_append, ih, List.length_cons]
      simp only [pair, List.length_cons, List.length_nil]
      omega
  rw [encode_eq, List.size_toByteArray, length, Array.length_toList, ByteArray.size_data]

private theorem value?_digit (n : Nat) : value? (digit n) = some (n % 16) := by
  rw [value?, (digit_spec n).2.2, Option.filter_some, if_pos (by simpa using Nat.mod_lt n (by decide))]

/-- One step of reading. -/
private theorem decodeFrom_pair (a rest acc : Bytes) (x : UInt8) (fuel : Nat) :
    decodeFrom (a ++ (ofOctet (digit (x.toNat / 16)) ++ (ofOctet (digit x.toNat) ++ rest))) (fuel + 1) a.size acc =
      decodeFrom (a ++ (ofOctet (digit (x.toNat / 16)) ++ (ofOctet (digit x.toNat) ++ rest))) fuel
        (a.size + 2) (acc.push x) := by
  let hi := ofOctet (digit (x.toNat / 16))
  have high : (a ++ (hi ++ (ofOctet (digit x.toNat) ++ rest))).byteAt a.size = digit (x.toNat / 16) :=
    (byteAt_append a _ 0).trans (byteAt_octet _ _)
  have low : (a ++ (hi ++ (ofOctet (digit x.toNat) ++ rest))).byteAt (a.size + 1) = digit x.toNat :=
    (byteAt_append a _ 1).trans ((byteAt_append hi _ 0).trans (byteAt_octet _ _))
  have value : (16 * (x.toNat / 16 % 16) + x.toNat % 16).toUInt8 = x := by
    have small := x.toNat_lt
    have whole : 16 * (x.toNat / 16 % 16) + x.toNat % 16 = x.toNat := by omega
    rw [whole]
    exact UInt8.ofNat_toNat
  rw [decodeFrom, if_pos (by simp only [ByteArray.size_append, size_ofOctet]; omega), high, low,
    value?_digit, value?_digit]
  simp only [value]

private theorem decodeFrom_pairs (l : List UInt8) (a acc : Bytes) (fuel : Nat) (h : l.length < fuel) :
    decodeFrom (a ++ (l.flatMap pair).toByteArray) fuel a.size acc = .ok (acc ++ l.toByteArray) := by
  induction l generalizing a acc fuel with
  | nil =>
    obtain ⟨n, rfl⟩ : ∃ n, fuel = n + 1 := Nat.exists_eq_add_one.mpr h
    simp [decodeFrom]
  | cons x rest ih =>
    obtain ⟨n, rfl⟩ : ∃ n, fuel = n + 1 := Nat.exists_eq_add_one.mpr (Nat.zero_lt_of_lt h)
    have next := ih (a ++ (ofOctet (digit (x.toNat / 16)) ++ ofOctet (digit x.toNat))) (acc.push x) n
      (Nat.lt_of_succ_lt_succ h)
    rw [List.flatMap_cons, pair, List.toByteArray_append, toByteArray_cons, toByteArray_cons,
      List.toByteArray_nil, ByteArray.append_empty, ByteArray.append_assoc, decodeFrom_pair, toByteArray_cons,
      ← ByteArray.append_assoc (a := acc), ← push_eq_append]
    simpa only [ByteArray.append_assoc, ByteArray.size_append, size_ofOctet] using next

/-- Bytes are read back from their hexadecimal text. -/
theorem decode_encode (b : Bytes) : decode (encode b) = .ok b := by
  have pairs := decodeFrom_pairs b.data.toList .empty .empty ((encode b).size / 2 + 1)
    (by rw [size_encode]; simp)
  rwa [ByteArray.empty_append, ByteArray.empty_append, ← encode_eq, toByteArray_toList] at pairs

end Hex

end Text

end CoffWorks
