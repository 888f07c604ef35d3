import CoffWorks.Proofs.Text.Numeral

namespace CoffWorks.Text.Hex

open Bytes

/-- A decimal digit or one of the letters up to `f`, in either case. -/
def IsHexDigit (c : UInt8) : Prop :=
  (48 ≤ c ∧ c ≤ 57) ∨ (97 ≤ c ∧ c ≤ 102) ∨ (65 ≤ c ∧ c ≤ 70)

instance : DecidablePred IsHexDigit := fun _ => inferInstanceAs (Decidable (_ ∨ _ ∨ _))

private theorem value?_isSome (c : UInt8) : (value? c).isSome ↔ IsHexDigit c := by
  have all : ∀ n < 256, (value? (UInt8.ofNat n)).isSome ↔ IsHexDigit (UInt8.ofNat n) := by decide +kernel
  have this := all c.toNat c.toNat_lt
  rwa [UInt8.ofNat_toNat] at this

/-- The digits stand for the octets, two for each. -/
inductive Denotes : List UInt8 → List UInt8 → Prop
  | nil : Denotes [] []
  | pair {c c' : UInt8} {high low : Nat} {digits octets : List UInt8} (first : value? c = some high)
      (second : value? c' = some low) (rest : Denotes digits octets) :
      Denotes (c :: c' :: digits) ((16 * high + low).toUInt8 :: octets)

/-- An even number of digits, and nothing else, stands for octets. -/
theorem exists_denotes : ∀ digits : List UInt8,
    (∃ octets, Denotes digits octets) ↔ Even digits.length ∧ ∀ c ∈ digits, IsHexDigit c
  | [] => iff_of_true ⟨[], .nil⟩ (by simp)
  | [c] => iff_of_false (fun ⟨_, h⟩ => by cases h) (by simp)
  | c :: c' :: digits => by
    have even : Even (c :: c' :: digits).length ↔ Even digits.length := by
      simp [Nat.even_add_one]
    rw [even, List.forall_mem_cons, List.forall_mem_cons, ← value?_isSome, ← value?_isSome,
      Option.isSome_iff_exists, Option.isSome_iff_exists]
    have more := exists_denotes digits
    constructor
    · rintro ⟨_, all⟩
      cases all with
      | pair first second rest =>
        obtain ⟨length, others⟩ := more.mp ⟨_, rest⟩
        exact ⟨length, ⟨_, first⟩, ⟨_, second⟩, others⟩
    · rintro ⟨length, ⟨high, first⟩, ⟨low, second⟩, others⟩
      obtain ⟨octets, rest⟩ := more.mpr ⟨length, others⟩
      exact ⟨_, .pair first second rest⟩

private theorem denotes_nil {octets : List UInt8} : Denotes [] octets ↔ octets = [] :=
  ⟨fun h => by cases h; rfl, fun h => h ▸ .nil⟩

private theorem drop_eq_cons {b : Bytes} {pos : Nat} (h : pos < b.size) :
    b.data.toList.drop pos = b.byteAt pos :: b.data.toList.drop (pos + 1) := by
  rw [List.drop_eq_getElem_cons (by simpa using h), byteAt, dif_pos h]
  rfl

/-- Reading from `pos` on; each round takes two digits. -/
theorem decodeFrom_eq_ok {b : Bytes} {fuel pos : Nat} {acc r : Bytes} (enough : b.size < pos + 2 * fuel) :
    decodeFrom b fuel pos acc = .ok r ↔
      ∃ octets, Denotes (b.data.toList.drop pos) octets ∧ acc ++ octets.toByteArray = r := by
  have done {pos : Nat} {acc : Bytes} (h : b.size ≤ pos) : (.ok acc : Attempt Bytes) = .ok r ↔
      ∃ octets, Denotes (b.data.toList.drop pos) octets ∧ acc ++ octets.toByteArray = r := by
    rw [List.drop_eq_nil_of_le (by simpa using h)]
    simp [denotes_nil]
  induction fuel generalizing pos acc with
  | zero => exact done (by omega)
  | succ fuel ih =>
    rw [decodeFrom]
    split_ifs with two one
    · rw [drop_eq_cons (by omega), drop_eq_cons two]
      cases first : value? (b.byteAt pos) with
      | none =>
        refine iff_of_false (fun h => by cases h) ?_
        rintro ⟨_, denotes, -⟩
        cases denotes with
        | pair first' => simp [first] at first'
      | some high =>
        cases second : value? (b.byteAt (pos + 1)) with
        | none =>
          refine iff_of_false (fun h => by cases h) ?_
          rintro ⟨_, denotes, -⟩
          cases denotes with
          | pair _ second' => simp [second] at second'
        | some low =>
          have more := @ih (pos + 2) (acc.push (16 * high + low).toUInt8) (by omega)
          simp only [more]
          constructor
          · rintro ⟨octets, rest, rfl⟩
            refine ⟨_, .pair first second rest, ?_⟩
            rw [toByteArray_cons, push_eq_append, ByteArray.append_assoc]
          · rintro ⟨_, denotes, rfl⟩
            cases denotes with
            | pair first' second' rest =>
              obtain rfl := Option.some.inj (first.symm.trans first')
              obtain rfl := Option.some.inj (second.symm.trans second')
              exact ⟨_, rest, by rw [toByteArray_cons, push_eq_append, ByteArray.append_assoc]⟩
    · refine iff_of_false (fun h => by cases h) ?_
      rintro ⟨_, denotes, -⟩
      rw [drop_eq_cons one, List.drop_eq_nil_of_le (by simp; omega)] at denotes
      cases denotes
    · exact done (by omega)

/-- A text is decoded to what it stands for. -/
theorem decode_eq_ok {b r : Bytes} : decode b = .ok r ↔ Denotes b.data.toList r.data.toList := by
  rw [decode, decodeFrom_eq_ok (by omega), List.drop_zero]
  constructor
  · rintro ⟨octets, denotes, rfl⟩
    rwa [ByteArray.empty_append, List.data_toByteArray]
  · intro denotes
    exact ⟨_, denotes, by rw [ByteArray.empty_append, toByteArray_toList]⟩

/-- The texts that stand for bytes. -/
theorem exists_decode {b : Bytes} :
    (∃ r, decode b = .ok r) ↔ Even b.size ∧ ∀ c ∈ b.data.toList, IsHexDigit c := by
  have digits := exists_denotes b.data.toList
  rw [Array.length_toList, ByteArray.size_data] at digits
  rw [← digits]
  simp only [decode_eq_ok]
  constructor
  · rintro ⟨r, denotes⟩
    exact ⟨_, denotes⟩
  · rintro ⟨octets, denotes⟩
    exact ⟨octets.toByteArray, by rwa [List.data_toByteArray]⟩

end CoffWorks.Text.Hex
