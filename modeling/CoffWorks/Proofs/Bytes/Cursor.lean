import CoffWorks.Proofs.Bytes.Slice
import CoffWorks.Image

namespace CoffWorks

namespace Attempt

variable {α β : Type} {P : Failure → Prop}

/-- If there is no result, then because of a failure as `P` says. -/
def Fails (P : Failure → Prop) (x : Attempt α) : Prop := ∀ e, x = .error e → P e

theorem Fails.of_ok {x : Attempt α} {a : α} (h : x = .ok a) : Fails P x := by
  intro e he
  rw [h] at he
  cases he

/-- A failure of two attempts comes from one of them. -/
theorem Fails.bind {x : Attempt α} {g : α → Attempt β} (hx : Fails P x)
    (hg : ∀ a, x = .ok a → Fails P (g a)) : Fails P (x >>= g) := by
  cases x with
  | error e =>
    intro e' he
    cases he
    exact hx e rfl
  | ok a => exact hg a rfl

theorem Fails.bind_ok {x : Attempt α} {a : α} {g : α → Attempt β} (hx : x = .ok a) (hg : Fails P (g a)) :
    Fails P (x >>= g) := by
  rw [hx]
  exact hg

end Attempt

namespace Cursor

private theorem toInt_ofNat {n : Nat} (h : n < 2 ^ 63) : (Int64.ofNat n).toInt = n :=
  Int64.toInt_ofNat_of_lt h

/-- Below the largest 64-bit number no sum wraps, and bytes are read just if there are enough. -/
theorem bytes_eq (c : Cursor) {n : Nat} (h : c.pos + n < 2 ^ 63) :
    c.bytes (.ofNat n) = if inside : c.pos + n ≤ c.data.size then
      .ok (c.data.slice c.pos n, ⟨c.data, c.pos + n, inside⟩) else .error (c.failure .unexpectedEnd) := by
  have count : (Int64.ofNat n).toInt = n := toInt_ofNat (by omega)
  have stop : (Int64.ofNat c.pos + Int64.ofNat n).toInt = c.pos + n := by
    rw [← Int64.ofNat_add, toInt_ofNat h, Nat.cast_add]
  have refused : Int64.ofNat n < 0 ∨ (Int64.ofNat c.pos + Int64.ofNat n).toInt > c.data.size ↔
      ¬ c.pos + n ≤ c.data.size := by
    rw [Int64.lt_iff_toInt_lt, count, stop, Int64.toInt_zero]
    omega
  simp only [bytes, refused, count, Int.toNat_natCast]
  split_ifs <;> rfl

theorem u32_eq (c : Cursor) (h : c.pos + 4 < 2 ^ 63) :
    c.u32 = if inside : c.pos + 4 ≤ c.data.size then .ok (c.data.u32At c.pos, ⟨c.data, c.pos + 4, inside⟩)
      else .error (c.failure .unexpectedEnd) := by
  change (c.bytes (.ofNat 4) >>= _) = _
  rw [bytes_eq c h]
  split_ifs
  · simp [bind, Except.bind, pure, Except.pure, Bytes.u32At_slice]
  · rfl

theorem seek_eq (c : Cursor) {pos : Nat} (h : pos < 2 ^ 63) :
    c.seek (.ofNat pos) = if inside : pos ≤ c.data.size then .ok ⟨c.data, pos, inside⟩
      else .error (c.failure (.plain ("seek to " ++ Text.signed pos ++ " beyond "
        ++ Text.decimal c.data.size ++ " bytes"))) := by
  have target : (Int64.ofNat pos).toInt = pos := toInt_ofNat h
  simp only [seek, target, Int.natCast_nonneg, true_and, Int.toNat_natCast]

/-- Reading moved the cursor over `part`. -/
structure Passes (c : Cursor) (part : Bytes) (c' : Cursor) : Prop where
  data_eq : c'.data = c.data
  pos_eq : c'.pos = c.pos + part.size
  part_eq : part = c.data.slice c.pos part.size

theorem Passes.refl (c : Cursor) : c.Passes .empty c := ⟨rfl, rfl, (Bytes.slice_zero _ _).symm⟩

theorem Passes.append {c d e : Cursor} {a b : Bytes} (first : c.Passes a d) (second : d.Passes b e) :
    c.Passes (a ++ b) e := by
  refine ⟨second.data_eq.trans first.data_eq, ?_, ?_⟩
  · rw [second.pos_eq, first.pos_eq, ByteArray.size_append, Nat.add_assoc]
  · have later := second.part_eq
    rw [first.data_eq, first.pos_eq] at later
    rw [ByteArray.size_append, Bytes.slice_add, ← first.part_eq, ← later]

theorem Passes.remaining_eq {c c' : Cursor} {part : Bytes} (h : c.Passes part c') :
    c'.remaining + part.size = c.remaining := by
  have inside := c'.pos_le
  rw [h.data_eq, h.pos_eq] at inside
  rw [remaining, remaining, h.data_eq, h.pos_eq]
  omega

/-- A read that succeeds passes over the bytes that it gives. -/
theorem passes_of_bytes {c c' : Cursor} {n : Nat} {b : Bytes} (hn : n < 2 ^ 63)
    (h : c.bytes (.ofNat n) = .ok (b, c')) : b.size = n ∧ c.Passes b c' := by
  have count : (Int64.ofNat n).toInt.toNat = n := by rw [toInt_ofNat hn, Int.toNat_natCast]
  unfold bytes at h
  split at h
  · cases h
  · split at h
    · next inside =>
      rw [count] at inside
      obtain ⟨rfl, rfl⟩ := Prod.mk.inj (Except.ok.inj h)
      have size : (c.data.slice c.pos n).size = n := by
        rw [Bytes.size_slice]
        omega
      simp only [count, size, true_and]
      exact ⟨rfl, by rw [size], by rw [size]⟩
    · cases h

theorem passes_of_u32 {c c' : Cursor} {v : UInt32} (h : c.u32 = .ok (v, c')) :
    ∃ part : Bytes, part.size = 4 ∧ v = c.data.u32At c.pos ∧ c.Passes part c' := by
  simp only [u32, Attempt.bind_eq_ok, Prod.exists] at h
  obtain ⟨part, d, read, made⟩ := h
  cases made
  obtain ⟨size, passes⟩ := passes_of_bytes (by decide) read
  refine ⟨part, size, ?_, passes⟩
  rw [passes.part_eq, size, Bytes.u32At_slice _ _ (Nat.le_refl 4)]

/-- The cursor with `a` before it and `b` behind it. -/
def between (a b : Bytes) : Cursor := ⟨a ++ b, a.size, by rw [ByteArray.size_append]; omega⟩

@[simp] theorem between_data (a b : Bytes) : (between a b).data = a ++ b := rfl

@[simp] theorem between_pos (a b : Bytes) : (between a b).pos = a.size := rfl

@[simp] theorem between_remaining (a b : Bytes) : (between a b).remaining = b.size := by
  simp [remaining]

theorem start_eq_between (b : Bytes) : start b = between .empty b := by
  simp [start, between]

private theorem between_append (a m c : Bytes) :
    between (a ++ m) c = ⟨a ++ (m ++ c), a.size + m.size, by simp only [ByteArray.size_append]; omega⟩ := by
  simp [between, ByteArray.append_assoc]

/-- The bytes that stand behind the cursor are read, whatever else there is before and after them. -/
theorem bytes_between (a m c : Bytes) (h : a.size + m.size < 2 ^ 63) :
    (between a (m ++ c)).bytes (.ofNat m.size) = .ok (m, between (a ++ m) c) := by
  have fits : (between a (m ++ c)).pos + m.size ≤ (between a (m ++ c)).data.size := by
    simp only [between_pos, between_data, ByteArray.size_append]
    omega
  rw [bytes_eq _ h, dif_pos fits, between_append]
  simp only [between_data, between_pos, Bytes.slice_middle]

theorem seek_between (c : Cursor) (a b : Bytes) (hd : c.data = a ++ b) (h : a.size < 2 ^ 63) :
    c.seek (.ofNat a.size) = .ok (between a b) := by
  have inside : a.size ≤ c.data.size := by simp [hd]
  rw [seek_eq c h, dif_pos inside]
  simp [between, hd]

theorem u32_between (a c : Bytes) (v : UInt32) (h : a.size + 4 < 2 ^ 63) :
    (between a (Bytes.word 4 v.toNat ++ c)).u32 = .ok (v, between (a ++ Bytes.word 4 v.toNat) c) := by
  have read := bytes_between a (Bytes.word 4 v.toNat) c (by simpa using h)
  rw [Bytes.size_word] at read
  rw [u32]
  change ((between a _).bytes (.ofNat 4) >>= _) = _
  rw [read]
  simp [bind, Except.bind, pure, Except.pure, Bytes.u32At_word_self]

end Cursor

namespace Image

theorem recordBytes_between (a m c : Bytes) (record : Unit → Bytes) (h : a.size + m.size < 2 ^ 63) :
    recordBytes (.between a (m ++ c)) record m.size = .ok (m, .between (a ++ m) c) := by
  rw [recordBytes, Cursor.reading_eq_ok, Cursor.bytes_between a m c h]

theorem seekTo_between (c : Cursor) (record : Unit → Bytes) (a b : Bytes) (hd : c.data = a ++ b)
    (h : a.size < 2 ^ 63) : seekTo c record a.size = .ok (.between a b) := by
  rw [seekTo, Cursor.reading_eq_ok, Cursor.seek_between c a b hd h]

end Image

end CoffWorks
