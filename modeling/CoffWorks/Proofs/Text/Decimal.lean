import CoffWorks.Proofs.Bytes.Append
import CoffWorks.Text.Literal
import CoffWorks.Text.Number

namespace CoffWorks.Text

/-- The octets of the digits `0` to `9`. -/
def IsDigit (b : UInt8) : Prop := 48 ≤ b.toNat ∧ b.toNat ≤ 57

instance : DecidablePred IsDigit := fun _ => inferInstanceAs (Decidable (_ ∧ _))

/-- The digits of `n`, most significant first. -/
def digits (n : Nat) : List UInt8 := (Nat.toDigits 10 n).map fun c => c.val.toUInt8

theorem digits_of_lt {n : Nat} (h : n < 10) : digits n = [UInt8.ofNat (48 + n)] := by
  rw [digits, Nat.toDigits_of_lt_base h]
  interval_cases n <;> rfl

theorem digits_of_ge {n : Nat} (h : 10 ≤ n) : digits n = digits (n / 10) ++ digits (n % 10) := by
  rw [digits, digits, digits, Nat.toDigits_of_base_le (by decide) h,
    Nat.toDigits_of_lt_base (Nat.mod_lt n (by decide)), List.map_append]

private theorem length_digits_le {n k : Nat} (hk : 0 < k) (h : n < 10 ^ k) : (digits n).length ≤ k := by
  rw [digits, List.length_map]
  exact (Nat.length_toDigits_le_iff (by decide) hk).mpr h

theorem isDigit_of_mem_digits {n : Nat} {b : UInt8} (h : b ∈ digits n) : IsDigit b := by
  obtain ⟨c, hc, rfl⟩ := List.mem_map.mp h
  have digit := Char.isDigit_iff_toNat.mp (Nat.isDigit_of_mem_toDigits (by decide) (by decide) hc)
  have low : c.val.toUInt8.toNat = c.toNat := by
    rw [UInt32.toNat_toUInt8]
    exact Nat.mod_eq_of_lt (Nat.lt_of_le_of_lt digit.2 (by decide))
  rw [IsDigit, low]
  exact digit

/-- Digits take one octet each. -/
theorem decimal_eq (n : Nat) : decimal n = (digits n).toByteArray := by
  have single (c : Char) (hc : c ∈ Nat.toDigits 10 n) : String.utf8EncodeChar c = [c.val.toUInt8] := by
    have digit := Char.isDigit_iff_toNat.mp (Nat.isDigit_of_mem_toDigits (by decide) (by decide) hc)
    have ascii : c.val ≤ 127 := UInt32.le_iff_toNat_le.mpr (Nat.le_trans digit.2 (by decide))
    exact String.utf8EncodeChar_eq_singleton (Char.utf8Size_eq_one_iff.mpr ascii)
  rw [decimal, Nat.toString_eq_ofList_toDigits]
  change List.toByteArray _ = _
  rw [digits, List.flatMap_congr single, List.map_eq_flatMap]

theorem size_decimal_le {n k : Nat} (hk : 0 < k) (h : n < 10 ^ k) : (decimal n).size ≤ k := by
  rw [decimal_eq, List.size_toByteArray]
  exact length_digits_le hk h

/-- Letters count ten and more. -/
private theorem isDigit_of_digitValue? {b : UInt8} {d : Nat} (h : digitValue? b = some d) (hd : d < 10) :
    IsDigit b := by
  unfold digitValue? at h
  split_ifs at h with digit letter
  · exact ⟨UInt8.le_iff_toNat_le.mp digit.1, UInt8.le_iff_toNat_le.mp digit.2⟩
  · have low : 97 ≤ (lowerByte b).toNat := UInt8.le_iff_toNat_le.mp letter.1
    have value : (lowerByte b).toNat - 87 = d := Option.some.inj h
    omega

theorem digitsValue?_concat_eq_some {limit base v : Nat} {l : List UInt8} {b : UInt8} :
    digitsValue? limit base (l ++ [b]) = some v ↔ ∃ n, digitsValue? limit base l = some n ∧
      ∃ d, digitValue? b = some d ∧ (d < base ∧ n * base + d < limit) ∧ n * base + d = v := by
  simp [digitsValue?, List.foldlM_append, Option.bind_eq_some_iff]

/-- The digits of a number are read as that number. -/
theorem digitsValue?_digits {limit n : Nat} (h : n < limit) :
    digitsValue? limit 10 (digits n) = some n := by
  have last (d : Nat) (hd : d < 10) : digitValue? (UInt8.ofNat (48 + d)) = some d := by
    interval_cases d <;> rfl
  induction n using Nat.strong_induction_on with
  | _ n ih =>
    rcases Nat.lt_or_ge n 10 with small | large
    · rw [digits_of_lt small, ← List.nil_append [_], digitsValue?_concat_eq_some]
      exact ⟨0, rfl, n, last n small, ⟨small, by omega⟩, by omega⟩
    · have digit : n % 10 < 10 := Nat.mod_lt n (by decide)
      rw [digits_of_ge large, digits_of_lt digit, digitsValue?_concat_eq_some]
      exact ⟨n / 10, ih (n / 10) (by omega) (by omega), n % 10, last _ digit, ⟨digit, by omega⟩, by omega⟩

/-- Digits have a value if it is sure to be small enough. -/
private theorem digitsValue?_of_isDigit {limit : Nat} {l : List UInt8} (digits : ∀ b ∈ l, IsDigit b)
    (h : 10 ^ l.length ≤ limit) : ∃ v < 10 ^ l.length, digitsValue? limit 10 l = some v := by
  induction l using List.reverseRecOn with
  | nil => exact ⟨0, Nat.one_pos, rfl⟩
  | append_singleton l b ih =>
    have last := digits b (by simp)
    rw [List.length_append, List.length_singleton, Nat.pow_succ] at h ⊢
    obtain ⟨n, small, front⟩ := ih (fun x hx => digits x (List.mem_append_left [b] hx)) (by omega)
    have digit : digitValue? b = some (b.toNat - 48) :=
      if_pos ⟨UInt8.le_iff_toNat_le.mpr last.1, UInt8.le_iff_toNat_le.mpr last.2⟩
    unfold IsDigit at last
    refine ⟨n * 10 + (b.toNat - 48), by omega, ?_⟩
    exact digitsValue?_concat_eq_some.mpr ⟨n, front, _, digit, ⟨by omega, by omega⟩, rfl⟩

/-- Only digits have a decimal value. -/
private theorem isDigit_of_digitsValue? {limit : Nat} {l : List UInt8} {v : Nat}
    (h : digitsValue? limit 10 l = some v) : ∀ b ∈ l, IsDigit b := by
  induction l using List.reverseRecOn generalizing v with
  | nil => simp
  | append_singleton l b ih =>
    obtain ⟨n, hn, d, hd, ⟨small, -⟩, -⟩ := digitsValue?_concat_eq_some.mp h
    intro x hx
    rcases List.mem_append.mp hx with hx | hx
    · exact ih hn x hx
    · obtain rfl : x = b := List.mem_singleton.mp hx
      exact isDigit_of_digitValue? hd small

/-- A number is read back from its decimal text. -/
theorem decimal?_decimal {bits n : Nat} (h : n < 1 <<< bits) : decimal? bits (decimal n) = some n := by
  have some_digit : (decimal n).isEmpty = false := by
    simp [decimal_eq, ByteArray.isEmpty, digits]
  rw [decimal?, some_digit, decimal_eq, Bytes.toList_eq, List.data_toByteArray, digitsValue?_digits h]
  rfl

theorem decimal?_of_isDigit {bits : Nat} {b : Bytes} (some_digit : b ≠ .empty)
    (digits : ∀ x ∈ b.data.toList, IsDigit x) (h : 10 ^ b.size ≤ 1 <<< bits) :
    ∃ v < 10 ^ b.size, decimal? bits b = some v := by
  have nonempty : b.isEmpty = false := by
    simpa [ByteArray.isEmpty, ByteArray.size_eq_zero_iff] using some_digit
  have length : b.data.toList.length = b.size := by simp
  obtain ⟨v, small, value⟩ := digitsValue?_of_isDigit digits (length ▸ h)
  refine ⟨v, length ▸ small, ?_⟩
  rw [decimal?, nonempty, Bytes.toList_eq, value]
  rfl

theorem isDigit_of_decimal? {bits v : Nat} {b : Bytes} (h : decimal? bits b = some v) :
    b ≠ .empty ∧ ∀ x ∈ b.data.toList, IsDigit x := by
  unfold decimal? at h
  split_ifs at h with empty
  rw [Bytes.toList_eq] at h
  exact ⟨fun none => empty (none ▸ rfl), isDigit_of_digitsValue? h⟩

end CoffWorks.Text
