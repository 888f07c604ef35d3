import CoffWorks.Proofs.Bytes.Bounds

namespace CoffWorks

private theorem two_pow_eight_mul (w : Nat) : 2 ^ (8 * w) = 256 ^ w := Nat.pow_mul 2 8 w

namespace Bytes

/-- The number that the bytes are in two's complement, least significant first. -/
def ofTwosComplement (l : List UInt8) : Int := (ofLittleEndian l : Int).bmod (2 ^ (8 * l.length))

end Bytes

namespace Buffer

open Bytes

/-- An integer to append. -/
inductive Integer where
  | unsigned (v : UInt64)
  | signed (v : Int64)

/-- Integers may have one to eight bytes. -/
def Allowed (width : Int64) : Prop := 1 ≤ width.toInt ∧ width.toInt ≤ 8

namespace Integer

def value : Integer → Int
  | unsigned v => v.toNat
  | signed v => v.toInt

/-- The integer is in the range of `w` bytes. -/
def Fits (w : Nat) : Integer → Prop
  | unsigned v => v.toNat < 2 ^ (8 * w)
  | signed v => -2 ^ (8 * w - 1) ≤ v.toInt ∧ v.toInt < 2 ^ (8 * w - 1)

/-- What bytes are as an integer of this kind. -/
def read : Integer → List UInt8 → Int
  | unsigned _ => fun l => ofLittleEndian l
  | signed _ => ofTwosComplement

/-- The attempt to append the integer in `width` bytes. -/
def attempt (b : Buffer) (width : Int64) : Integer → Attempt Buffer
  | unsigned v => b.appendUInt v width
  | signed v => b.appendInt v width

end Integer

variable {b : Buffer} {width : Int64}

theorem checkWidth_of_allowed (h : Allowed width) : checkWidth width = .ok width.toInt.toNat := by
  have inside : ¬ (width ≤ 0 ∨ width.toInt > maxWidth) := by
    rw [Int64.le_iff_toInt_le, Int64.toInt_zero]
    unfold Allowed at h
    simp only [maxWidth]
    omega
  rw [checkWidth, if_neg inside]

/-- A width that is not allowed is named in the failure. -/
theorem checkWidth_of_not_allowed (h : ¬ Allowed width) :
    ∃ f, checkWidth width = .error (.fault f) ∧ f.phase = .construct ∧ f.kind = .invalidInput ∧
      f.value = .int width.toInt := by
  have outside : width ≤ 0 ∨ width.toInt > maxWidth := by
    rw [Int64.le_iff_toInt_le, Int64.toInt_zero]
    unfold Allowed at h
    simp only [maxWidth]
    omega
  rw [checkWidth, if_pos outside]
  exact ⟨_, rfl, rfl, rfl, rfl⟩

theorem length_lowBytes (w : Nat) (v : UInt64) : (lowBytes w v).1.length = w := by
  induction w generalizing v with
  | zero => rfl
  | succ w ih => exact congrArg Nat.succ (ih (v >>> 8))

private theorem toNat_shiftRight_eight (v : UInt64) : (v >>> 8).toNat = v.toNat / 256 := by
  rw [UInt64.toNat_shiftRight, Nat.shiftRight_eq_div_pow]
  rfl

/-- The bytes that are shifted out are the low part of the number. -/
theorem ofLittleEndian_lowBytes (w : Nat) (v : UInt64) :
    ofLittleEndian (lowBytes w v).1 = v.toNat % 256 ^ w := by
  induction w generalizing v with
  | zero => exact (Nat.mod_one _).symm
  | succ w ih =>
    change v.toUInt8.toNat + 256 * ofLittleEndian (lowBytes w (v >>> 8)).1 = _
    rw [ih, toNat_shiftRight_eight, UInt64.toNat_toUInt8, pow_succ' 256 w, Nat.mod_mul]

/-- What is left when they are out is the high part. -/
theorem toNat_above (w : Nat) (v : UInt64) : (lowBytes w v).2.toNat = v.toNat / 256 ^ w := by
  induction w generalizing v with
  | zero => exact (Nat.div_one _).symm
  | succ w ih =>
    change (lowBytes w (v >>> 8)).2.toNat = _
    rw [ih, toNat_shiftRight_eight, Nat.pow_succ', Nat.div_div_eq_div_mul]

/-- Nothing is left above the low bytes of just the numbers in range. -/
theorem above_eq_zero_iff (w : Nat) (v : UInt64) : (lowBytes w v).2 = 0 ↔ (Integer.unsigned v).Fits w := by
  rw [← UInt64.toNat_inj, UInt64.toNat_zero, toNat_above, Nat.div_eq_zero_iff_lt (Nat.pow_pos (by decide)),
    ← two_pow_eight_mul]
  rfl

theorem ofLittleEndian_of_fits {w : Nat} {v : UInt64} (h : (Integer.unsigned v).Fits w) :
    ofLittleEndian (lowBytes w v).1 = v.toNat := by
  rw [ofLittleEndian_lowBytes, ← two_pow_eight_mul, Nat.mod_eq_of_lt h]

theorem length_lowSignedBytes (w : Nat) (v : Int64) : (lowSignedBytes w v).1.length = w := by
  induction w generalizing v with
  | zero => rfl
  | succ w ih => exact congrArg Nat.succ (ih (v >>> 8))

private theorem toInt_shiftRight_eight (v : Int64) : (v >>> 8).toInt = v.toInt / 256 := by
  change (v.toBitVec.sshiftRight 8).toInt = _
  rw [BitVec.toInt_sshiftRight, Int.shiftRight_eq_div_pow]
  rfl

private theorem toNat_lowByte (v : Int64) : (v.toUInt64.toUInt8.toNat : Int) = v.toInt % 256 := by
  have whole : v.toInt = (v.toUInt64.toNat : Int).bmod (2 ^ 64) := BitVec.toInt_eq_toNat_bmod v.toBitVec
  have small := v.toUInt64.toNat_lt
  rw [UInt64.toNat_toUInt8, whole, Int.bmod_def]
  push_cast
  split_ifs <;> omega

theorem ofLittleEndian_lowSignedBytes (w : Nat) (v : Int64) :
    (ofLittleEndian (lowSignedBytes w v).1 : Int) = v.toInt % 256 ^ w := by
  induction w generalizing v with
  | zero => exact (Int.emod_one _).symm
  | succ w ih =>
    change ((v.toUInt64.toUInt8.toNat + 256 * ofLittleEndian (lowSignedBytes w (v >>> 8)).1 : Nat) : Int) = _
    push_cast
    rw [ih, toInt_shiftRight_eight, toNat_lowByte, Int.emod_def, Int.emod_def, Int.emod_def, Int.pow_succ',
      ← Int.ediv_ediv_of_nonneg (by decide)]
    ring

theorem toInt_above (w : Nat) (v : Int64) : (lowSignedBytes w v).2.toInt = v.toInt / 256 ^ w := by
  induction w generalizing v with
  | zero => exact (Int.ediv_one _).symm
  | succ w ih =>
    change (lowSignedBytes w (v >>> 8)).2.toInt = _
    rw [ih, toInt_shiftRight_eight, Int.pow_succ', Int.ediv_ediv_of_nonneg (by decide)]

/-- The last byte that is shifted out tells by its highest bit what the sign is. -/
private theorem signBit_eq (w : Nat) (v : Int64) :
    (lowSignedBytes (w + 1) v).1.getLast?.any (· ≥ 0x80) = decide (128 ≤ v.toInt / 256 ^ w % 256) := by
  induction w generalizing v with
  | zero =>
    change decide (v.toUInt64.toUInt8 ≥ 0x80) = _
    rw [Int.pow_zero, Int.ediv_one, ← toNat_lowByte]
    apply decide_eq_decide.mpr
    rw [ge_iff_le, UInt8.le_iff_toNat_le]
    exact Int.ofNat_le.symm
  | succ w ih =>
    -- the first byte is not the last
    change (lowSignedBytes (w + 1) (v >>> 8)).1.getLast?.any (· ≥ 0x80) = _
    rw [ih, toInt_shiftRight_eight, Int.pow_succ', Int.ediv_ediv_of_nonneg (by decide)]

/-- Only copies of the sign are left above the bytes, and the last byte shows the sign. -/
def OnlySign (w : Nat) (v : Int64) : Prop :=
  ((lowSignedBytes w v).2 = 0 ∨ (lowSignedBytes w v).2 = -1) ∧
    (lowSignedBytes w v).1.getLast?.any (· ≥ 0x80) = decide (v < 0)

instance (w : Nat) (v : Int64) : Decidable (OnlySign w v) := inferInstanceAs (Decidable ((_ ∨ _) ∧ _))

/-- Nothing but copies of the sign is left of just the numbers in range. -/
theorem onlySign_iff {w : Nat} (hw : 0 < w) (v : Int64) : OnlySign w v ↔ (Integer.signed v).Fits w := by
  obtain ⟨w, rfl⟩ := Nat.exists_eq_add_one.mpr hw
  have pos : (0 : Int) < 256 ^ w := by positivity
  have half : (2 : Int) ^ (8 * (w + 1) - 1) = 128 * 256 ^ w := by
    rw [show 8 * (w + 1) - 1 = 7 + 8 * w by omega, pow_add, pow_mul]
    norm_num
  -- `q` is what the last byte is taken from
  let q := v.toInt / 256 ^ w
  have above : (lowSignedBytes (w + 1) v).2.toInt = q / 256 := by
    rw [toInt_above, Int.pow_succ, Int.ediv_ediv_of_nonneg pos.le]
  have negative : v < 0 ↔ q < 0 := by
    rw [Int64.lt_iff_toInt_lt, Int64.toInt_zero, Int.ediv_lt_iff_lt_mul pos, zero_mul]
  have low : -2 ^ (8 * (w + 1) - 1) ≤ v.toInt ↔ -128 ≤ q := by
    rw [half, ← neg_mul, Int.le_ediv_iff_mul_le pos]
  have high : v.toInt < 2 ^ (8 * (w + 1) - 1) ↔ q < 128 := by
    rw [half, Int.ediv_lt_iff_lt_mul pos]
  change _ ↔ _ ≤ _ ∧ _ < _
  rw [OnlySign, low, high, ← Int64.toInt_inj, ← Int64.toInt_inj, above, signBit_eq, decide_eq_decide, negative,
    Int64.toInt_zero]
  change (_ ∨ _ = -1) ∧ _ ↔ _
  omega

/-- A number in range is what its bytes are in two's complement. -/
theorem ofTwosComplement_of_fits {w : Nat} (hw : 0 < w) {v : Int64} (h : (Integer.signed v).Fits w) :
    ofTwosComplement (lowSignedBytes w v).1 = v.toInt := by
  obtain ⟨low, high⟩ := h
  have whole : (256 : Int) ^ w = (2 ^ (8 * w) : Nat) := by
    rw [two_pow_eight_mul]
    push_cast
    rfl
  have halves : ((2 ^ (8 * w) : Nat) : Int) = 2 * 2 ^ (8 * w - 1) := by
    push_cast
    rw [← pow_succ', Nat.sub_add_cancel (by omega)]
  rw [ofTwosComplement, length_lowSignedBytes, ofLittleEndian_lowSignedBytes, whole, Int.emod_bmod]
  apply Int.bmod_eq_of_le
  · rw [halves]
    omega
  · rw [halves]
    omega

private theorem appendUInt_of_allowed (h : Allowed width) (v : UInt64) :
    b.appendUInt v width =
      if (lowBytes width.toInt.toNat v).2 = 0 then .ok (b.append (lowBytes width.toInt.toNat v).1.toByteArray)
      else reject (.overflow .construct [] (.int v.toNat) ("u" ++ Text.decimal (8 * width.toInt.toNat))) := by
  rw [appendUInt, checkWidth_of_allowed h, Attempt.ok_bind, ← ite_not]

private theorem appendInt_of_allowed (h : Allowed width) (v : Int64) :
    b.appendInt v width =
      if OnlySign width.toInt.toNat v then .ok (b.append (lowSignedBytes width.toInt.toNat v).1.toByteArray)
      else reject (.overflow .construct [] (.int v.toInt) ("s" ++ Text.decimal (8 * width.toInt.toNat))) := by
  rw [appendInt, checkWidth_of_allowed h, Attempt.ok_bind, ← ite_not]
  apply if_congr _ rfl rfl
  rw [OnlySign, not_and_or, not_or]

namespace Integer

/-- What can come of an attempt to append an integer. -/
inductive Outcome (b : Buffer) (width : Int64) (n : Integer) : Attempt Buffer → Prop where
  | appended {l : List UInt8} (allowed : Allowed width) (fits : n.Fits width.toInt.toNat)
      (length : l.length = width.toInt.toNat) (reads : n.read l = n.value) :
      Outcome b width n (.ok (b.append l.toByteArray))
  | wrongWidth {f : Fault} (forbidden : ¬ Allowed width) (phase : f.phase = .construct)
      (kind : f.kind = .invalidInput) (shown : f.value = .int width.toInt) : Outcome b width n (.error (.fault f))
  | overflow {f : Fault} (allowed : Allowed width) (misfit : ¬ n.Fits width.toInt.toNat)
      (phase : f.phase = .construct) (kind : f.kind = .overflow) (shown : f.value = .int n.value) :
      Outcome b width n (.error (.fault f))

private theorem outcome_of_allowed (allowed : Allowed width) (n : Integer) : Outcome b width n (n.attempt b width) := by
  have pos : 0 < width.toInt.toNat := Int.pos_iff_toNat_pos.mp allowed.1
  cases n with
  | unsigned v =>
    rw [attempt, appendUInt_of_allowed allowed]
    by_cases fits : (unsigned v).Fits width.toInt.toNat
    · rw [if_pos ((above_eq_zero_iff _ v).mpr fits)]
      exact .appended allowed fits (length_lowBytes _ v) (congrArg Nat.cast (ofLittleEndian_of_fits fits))
    · rw [if_neg (mt (above_eq_zero_iff _ v).mp fits)]
      exact .overflow allowed fits rfl rfl rfl
  | signed v =>
    rw [attempt, appendInt_of_allowed allowed]
    by_cases fits : (signed v).Fits width.toInt.toNat
    · rw [if_pos ((onlySign_iff pos v).mpr fits)]
      exact .appended allowed fits (length_lowSignedBytes _ v) (ofTwosComplement_of_fits pos fits)
    · rw [if_neg (mt (onlySign_iff pos v).mp fits)]
      exact .overflow allowed fits rfl rfl rfl

theorem outcome (b : Buffer) (width : Int64) (n : Integer) : Outcome b width n (n.attempt b width) := by
  by_cases allowed : Allowed width
  · exact outcome_of_allowed allowed n
  · obtain ⟨f, refused, phase, kind, shown⟩ := checkWidth_of_not_allowed allowed
    have failed : n.attempt b width = .error (.fault f) := by
      cases n with
      | unsigned v => rw [attempt, appendUInt, refused, Attempt.error_bind]
      | signed v => rw [attempt, appendInt, refused, Attempt.error_bind]
    rw [failed]
    exact .wrongWidth allowed phase kind shown

/-- Append the integer in `width` bytes, step by step on a buffer that is changed in place. -/
def steps (width : Int64) : Integer → InPlace Buffer Unit
  | unsigned v => do
    let w ← checkWidth width
    let (bytes, above) := lowBytes w v
    if above ≠ 0 then
      throw (.fault (.overflow .construct [] (.int v.toNat) ("u" ++ Text.decimal (8 * w))))
    modify (·.append bytes.toByteArray)
  | signed v => do
    let w ← checkWidth width
    let (bytes, above) := lowSignedBytes w v
    let signBit := bytes.getLast?.any (· ≥ 0x80)
    if (above ≠ 0 ∧ above ≠ -1) ∨ signBit ≠ decide (v < 0) then
      throw (.fault (.overflow .construct [] (.int v.toInt) ("s" ++ Text.decimal (8 * w))))
    modify (·.append bytes.toByteArray)

/-- The answer to appending the integer in `width` bytes, and the buffer after it. -/
def append (b : Buffer) (width : Int64) (n : Integer) : Attempt Unit × Buffer := (n.steps width).perform b

end Integer

end Buffer

end CoffWorks
