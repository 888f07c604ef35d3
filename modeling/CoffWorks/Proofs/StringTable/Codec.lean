import CoffWorks.Proofs.Bytes.Slice
import CoffWorks.Proofs.StringTable.Offsets
import CoffWorks.Sink.Limited

namespace CoffWorks

open Bytes

namespace Writer

/-- Writers that take a limited number of bytes in all. `Holds out b room` says that `out` has taken `b`
and that there is room for `room` more bytes. Of a write it takes what fits, tells how much that was, and
fails if it was not all. -/
structure Bounded {ω : Type} [Writer ω] (Holds : ω → Bytes → Nat → Prop) : Prop where
  write_holds : ∀ {out b room} (p : Bytes), Holds out b room →
    Holds (write out p).out (b ++ p.take room) (room - p.size)
  count_eq : ∀ {out b room} (p : Bytes), Holds out b room → (write out p).count = min room p.size
  failure_iff : ∀ {out b room} (p : Bytes), Holds out b room →
    ((write out p).failure ≠ none ↔ room < p.size)

end Writer

namespace LimitedWriter

/-- The writer has taken `b`, and its limit leaves room for `room` more bytes. -/
def Holds (w : LimitedWriter) (b : Bytes) (room : Nat) : Prop :=
  w.data = b ∧ ∃ limit, w.limit = some limit ∧ (limit.toInt - b.size).toNat = room

theorem write_eq (data : Bytes) (limit : Int64) (p : Bytes) : LimitedWriter.write ⟨data, some limit⟩ p =
    { out := ⟨data ++ p.take (limit.toInt - data.size).toNat, some limit⟩
      count := min (limit.toInt - data.size).toNat p.size
      failure := if (limit.toInt - data.size).toNat < p.size then some .diskFull else none } := by
  rw [write]
  split_ifs with cut
  · rw [Nat.min_eq_left (Nat.le_of_lt cut)]
  · have fits := Nat.not_lt.mp cut
    rw [take_of_size_le fits, Nat.min_eq_right fits]

/-- A writer with a limit takes what fits. -/
theorem bounded : Writer.Bounded LimitedWriter.Holds where
  write_holds := by
    rintro ⟨_, _⟩ b _ p ⟨rfl, limit, rfl, rfl⟩
    change LimitedWriter.Holds (LimitedWriter.write _ p).out _ _
    rw [write_eq]
    refine ⟨rfl, limit, rfl, ?_⟩
    rw [ByteArray.size_append, size_take]
    omega
  count_eq := by
    rintro ⟨_, _⟩ b _ p ⟨rfl, limit, rfl, rfl⟩
    change (LimitedWriter.write _ p).count = _
    rw [write_eq]
  failure_iff := by
    rintro ⟨_, _⟩ b _ p ⟨rfl, limit, rfl, rfl⟩
    change (LimitedWriter.write _ p).failure ≠ none ↔ _
    rw [write_eq]
    simp

end LimitedWriter

namespace StringTable

/-- The table as it is written. -/
def bytes (t : StringTable) : Bytes := (t.writeTo ({} : Staging)).out.data

theorem writeTo_staging (t : StringTable) : t.writeTo ({} : Staging) =
    ⟨⟨t.lengthBytes ++ t.blob⟩, 4 + t.size, none⟩ := by
  have content : .empty ++ t.lengthBytes ++ t.blob = t.lengthBytes ++ t.blob := by rw [ByteArray.empty_append]
  rw [← content, ← t.size_lengthBytes]
  rfl

theorem bytes_eq (t : StringTable) : t.bytes = t.lengthBytes ++ t.blob := by
  rw [bytes, writeTo_staging]

private theorem u32At_bytes (t : StringTable) (x : Bytes) : (t.bytes ++ x).u32At 0 = .ofNat t.size := by
  rw [bytes_eq, ByteArray.append_assoc, u32At_lengthBytes]

/-- Two writes to a writer with an end come to the same as one. -/
theorem writeTo_bounded {ω : Type} [Writer ω] {Holds : ω → Bytes → Nat → Prop} (bounded : Writer.Bounded Holds)
    (t : StringTable) {out : ω} {b : Bytes} {room : Nat} (h : Holds out b room) :
    Holds (t.writeTo out).out (b ++ t.bytes.take room) (room - (4 + t.size)) ∧
      (t.writeTo out).count = min room (4 + t.size) ∧
      ((t.writeTo out).failure ≠ none ↔ room < 4 + t.size) := by
  have held := bounded.write_holds t.lengthBytes h
  have count := bounded.count_eq t.lengthBytes h
  have cut := bounded.failure_iff t.lengthBytes h
  rw [size_lengthBytes] at held count cut
  rw [bytes_eq, writeTo]
  rcases first : Writer.write out t.lengthBytes with ⟨next, n, _ | e⟩
  · rw [first] at held count cut
    have fits : 4 ≤ room := by simpa using cut
    have front : t.lengthBytes.take room = t.lengthBytes := take_of_size_le (by rwa [size_lengthBytes])
    rw [front] at held
    have rest := bounded.write_holds t.blob held
    have more := bounded.count_eq t.blob held
    have fails := bounded.failure_iff t.blob held
    have whole := take_size_add t.lengthBytes t.blob (room - 4)
    rw [size_lengthBytes, Nat.add_sub_cancel' fits] at whole
    rw [ByteArray.append_assoc, ← whole, Nat.sub_sub] at rest
    dsimp only at count ⊢
    refine ⟨rest, ?_, ?_⟩
    · rw [more, count, size]
      omega
    · rw [fails, size]
      omega
  · rw [first] at held count cut
    have short : room < 4 := by simpa using cut
    have front : (t.lengthBytes ++ t.blob).take room = t.lengthBytes.take room :=
      slice_append_left _ _ (by rw [size_lengthBytes]; omega)
    have full : room - (4 + t.size) = room - 4 := by omega
    dsimp only at held count ⊢
    rw [front, full]
    refine ⟨held, ?_, ?_⟩
    · omega
    · simp only [ne_eq, reduceCtorEq, not_false_eq_true, true_iff]
      omega

/-- The bytes begin with a length, and at least as many bytes follow it. -/
def Complete (b : Bytes) : Prop := 4 ≤ b.size ∧ 4 + (b.u32At 0).toNat ≤ b.size

instance : DecidablePred Complete := fun b =>
  inferInstanceAs (Decidable (4 ≤ b.size ∧ 4 + (b.u32At 0).toNat ≤ b.size))

private theorem read_of_complete {b : Bytes} (ending : Failure) (h : Complete b) :
    read ⟨b, ending⟩ = .ok ⟨b.slice 4 (b.u32At 0).toNat⟩ := by
  obtain ⟨length, rest⟩ := h
  have inside : (b.u32At 0).toNat ≤ b.size - 4 := by omega
  rw [read, if_neg (Nat.not_lt.mpr length), if_pos inside]

private theorem read_of_not_complete {b : Bytes} (ending : Failure) (h : ¬ Complete b) : ∃ f cause,
    read ⟨b, ending⟩ = .error (.caused f cause) ∧ f.phase = .decode ∧ f.kind = .outOfBounds := by
  unfold read
  by_cases length : b.size < 4
  · exact ⟨_, _, if_pos length, rfl, rfl⟩
  · have outside : ¬ (b.u32At 0).toNat ≤ b.size - 4 := fun inside =>
      h ⟨Nat.not_lt.mp length, by omega⟩
    rw [if_neg length, if_neg outside]
    dsimp only
    split_ifs with ends
    · exact ⟨_, _, rfl, rfl, rfl⟩
    · exact ⟨_, _, rfl, rfl, rfl⟩

/-- A table is read if as many bytes follow the length as it says. -/
theorem read_eq_ok {b : Bytes} {ending : Failure} {t : StringTable} : read ⟨b, ending⟩ = .ok t ↔
    4 + (b.u32At 0).toNat ≤ b.size ∧ (⟨b.slice 4 (b.u32At 0).toNat⟩ : StringTable) = t := by
  by_cases complete : Complete b
  · rw [read_of_complete ending complete, Except.ok.injEq, and_iff_right complete.2]
  · obtain ⟨f, cause, fails, -⟩ := read_of_not_complete ending complete
    rw [fails]
    simp only [reduceCtorEq, false_iff, not_and]
    intro fits
    exact absurd ⟨Nat.le_of_add_right_le fits, fits⟩ complete

private theorem size_of_read {b : Bytes} {ending : Failure} {t : StringTable} (h : read ⟨b, ending⟩ = .ok t) :
    t.size = (b.u32At 0).toNat := by
  obtain ⟨fits, rfl⟩ := read_eq_ok.mp h
  rw [size, size_slice]
  omega

/-- The length stands before the texts. -/
theorem of_read {b : Bytes} {ending : Failure} {t : StringTable} (h : read ⟨b, ending⟩ = .ok t) :
    4 + t.size ≤ b.size ∧ t.lengthBytes ++ t.blob = b.take (4 + t.size) := by
  have size := size_of_read h
  obtain ⟨fits, rfl⟩ := read_eq_ok.mp h
  refine ⟨by rw [size]; exact fits, ?_⟩
  rw [lengthBytes_eq, size, UInt32.ofNat_toNat, word_u32At b (by omega), take, slice_add]

/-- The part of the table that a length of four bytes covers. -/
def covered (t : StringTable) : StringTable := ⟨t.blob.take (t.size % UInt32.size)⟩

theorem covered_eq {t : StringTable} (h : t.size < UInt32.size) : t.covered = t := by
  rw [covered, Nat.mod_eq_of_lt h, size, take_of_size_le (Nat.le_refl _)]

/-- What was written is read as far as its length covers it, whatever follows. -/
theorem read_bytes_append (t : StringTable) (x : Bytes) (ending : Failure) :
    read ⟨t.bytes ++ x, ending⟩ = .ok t.covered := by
  have length : (UInt32.ofNat t.size).toNat = t.size % UInt32.size := UInt32.toNat_ofNat'
  have inside : t.size % UInt32.size ≤ t.blob.size := Nat.mod_le _ _
  have blob : (t.bytes ++ x).slice 4 (t.size % UInt32.size) = t.covered.blob := by
    rw [bytes_eq, ByteArray.append_assoc, ← size_lengthBytes t, slice_append]
    exact slice_append_left _ _ (by omega)
  rw [read_eq_ok, u32At_bytes, length, blob]
  refine ⟨?_, rfl⟩
  rw [bytes_eq, ByteArray.size_append, ByteArray.size_append, size_lengthBytes]
  omega

/-- A table is read as it was written, also with other bytes behind it. Bytes can be read exactly if they
begin with a length and have room for it, and then writing gives these bytes again. A writer with room
for `L` bytes gets the first `L` bytes of a table. -/
theorem codec_faithful :
    (∀ (t : StringTable) (x : Bytes) (ending : Failure), t.size < 2 ^ 32 → read ⟨t.bytes ++ x, ending⟩ = .ok t) ∧
    (∀ (b : Bytes) (ending : Failure),
      if Complete b then ∃ t, read ⟨b, ending⟩ = .ok t ∧ t.bytes = b.take (4 + (b.u32At 0).toNat)
      else ∃ f cause, read ⟨b, ending⟩ = .error (.caused f cause) ∧ f.phase = .decode ∧ f.kind = .outOfBounds) ∧
    ∀ {ω : Type} [Writer ω] {Holds : ω → Bytes → Nat → Prop}, Writer.Bounded Holds →
      ∀ (t : StringTable) (out : ω) (L : Nat), Holds out .empty L →
        Holds (t.writeTo out).out (t.bytes.take L) (L - (4 + t.size)) ∧
          (t.writeTo out).count = min L (4 + t.size) ∧ ((t.writeTo out).failure ≠ none ↔ L < 4 + t.size) := by
  refine ⟨?_, ?_, ?_⟩
  · intro t x ending small
    rw [read_bytes_append, covered_eq small]
  · intro b ending
    split_ifs with complete
    · have made := read_of_complete ending complete
      have written := (of_read made).2
      rw [← bytes_eq, size_of_read made] at written
      exact ⟨_, made, written⟩
    · exact read_of_not_complete ending complete
  · intro ω _ Holds bounded t out L fresh
    have stored := writeTo_bounded bounded t fresh
    rwa [ByteArray.empty_append] at stored

/-- The last text of this table lacks its zero byte. -/
def openTable : StringTable := ⟨"long_name\x00open".toUTF8⟩

/-- A writer with room for six bytes gets the length and two letters. -/
theorem codec_faithful_openTable : openTable.size < 2 ^ 32 ∧
    read ⟨openTable.bytes ++ "tail".toUTF8, .endOfInput⟩ = .ok openTable ∧
    LimitedWriter.Holds { limit := some 6 } .empty 6 ∧
    (openTable.writeTo ({ limit := some 6 } : LimitedWriter)).out.data = openTable.bytes.take 6 ∧
    (openTable.writeTo ({ limit := some 6 } : LimitedWriter)).count = 6 ∧
    (openTable.writeTo ({ limit := some 6 } : LimitedWriter)).failure ≠ none := by
  have small : openTable.size < 2 ^ 32 := by decide
  have fresh : LimitedWriter.Holds { limit := some 6 } .empty 6 := ⟨rfl, 6, rfl, by decide⟩
  have cut : 6 < 4 + openTable.size := by decide
  obtain ⟨same, -, stores⟩ := codec_faithful
  obtain ⟨⟨stored, -⟩, count, fails⟩ := stores LimitedWriter.bounded openTable _ 6 fresh
  refine ⟨small, same openTable "tail".toUTF8 .endOfInput small, fresh, stored, ?_, fails.mpr cut⟩
  rw [count, Nat.min_eq_left (Nat.le_of_lt cut)]

private theorem toNat_u32At_bytes (t : StringTable) : (t.bytes.u32At 0).toNat = t.size % 2 ^ 32 := by
  have first := u32At_bytes t .empty
  rw [ByteArray.append_empty] at first
  rw [first, UInt32.toNat_ofNat']

namespace Call

/-- A text can make a table as large as it likes, but only at an offset that can be expressed. -/
private theorem size_perform (t : StringTable) (c : Call) : (c.perform t).2.size = t.size ∨ (c.perform t).2.size = 0 ∨
    bias + t.size ≤ Name.maxOffset ∧ (c.perform t).2.size = t.size + c.text.size + 1 := by
  have outcome := perform_outcome t c
  generalize c.perform t = made at outcome ⊢
  cases outcome with
  | refused e => exact .inl rfl
  | short fits => exact .inl rfl
  | stored stores offset reach valid =>
    refine .inr (.inr ⟨reach, ?_⟩)
    rw [size, ByteArray.size_push, ByteArray.size_append, ← size]
  | emptied => exact .inr (.inl rfl)

/-- The last text that was stored is where the table was still small. -/
theorem size_after (calls : List Call) : (after {} calls).size = 0 ∨
    ∃ c ∈ calls, ∃ start, bias + start ≤ Name.maxOffset ∧ (after {} calls).size = start + c.text.size + 1 := by
  induction calls using List.reverseRecOn with
  | nil => exact .inl rfl
  | append_singleton calls c ih =>
    rw [after, List.foldl_append, List.foldl_cons, List.foldl_nil, ← after]
    rcases size_perform (after {} calls) c with same | none | ⟨reach, size⟩
    · rw [same]
      refine ih.imp_right ?_
      rintro ⟨d, mem, found⟩
      exact ⟨d, List.mem_append_left [c] mem, found⟩
    · exact .inl none
    · exact .inr ⟨c, List.mem_append_right calls (List.mem_singleton_self c), _, reach, size⟩

/-- The length before a table that was filled by calls is that of its blob, up to a multiple of 2^32. So it is
right for blobs shorter than that, and they are shorter unless the last text makes up for it alone. -/
theorem length_told (calls : List Call) : ((after {} calls).bytes.u32At 0).toNat = (after {} calls).size % 2 ^ 32 ∧
    (((after {} calls).bytes.u32At 0).toNat = (after {} calls).size ↔ (after {} calls).size < 2 ^ 32) ∧
    ((∀ c ∈ calls, c.text.size + 9999996 < 2 ^ 32) →
      ((after {} calls).bytes.u32At 0).toNat = (after {} calls).size) := by
  rw [toNat_u32At_bytes]
  refine ⟨rfl, Nat.mod_eq_iff_lt (by decide), ?_⟩
  intro short
  apply Nat.mod_eq_of_lt
  have last : Name.maxOffset = 9999999 ∧ bias = 4 := ⟨rfl, rfl⟩
  rcases size_after calls with none | ⟨c, mem, start, reach, size⟩
  · omega
  · have bound := short c mem
    omega

/-- Three calls, the second of which stores nothing. -/
theorem length_told_short : (∀ c ∈ [addLong "first".toUTF8, add "second".toUTF8, add "the third".toUTF8],
      c.text.size + 9999996 < 2 ^ 32) ∧
    ((after {} [addLong "first".toUTF8, add "second".toUTF8, add "the third".toUTF8]).bytes.u32At 0).toNat =
      (after {} [addLong "first".toUTF8, add "second".toUTF8, add "the third".toUTF8]).size := by
  have short : ∀ c ∈ [addLong "first".toUTF8, add "second".toUTF8, add "the third".toUTF8],
      c.text.size + 9999996 < 2 ^ 32 := by decide +kernel
  exact ⟨short, (length_told _).2.2 short⟩

/-- A text of 4 GiB is stored, and the length before the table is 1. -/
theorem length_told_untrue : ∃ t, ({} : StringTable).addLong (times "a".toUTF8 (2 ^ 32)) = .ok (4, t) ∧
    t.size = 2 ^ 32 + 1 ∧ (t.bytes.u32At 0).toNat = 1 := by
  have letter : "a".toUTF8.size = 1 := by decide
  have valid : Text.isValid (times "a".toUTF8 (2 ^ 32)) := Text.isValid_times (by decide +kernel) _
  have size : (⟨(ByteArray.empty ++ times "a".toUTF8 (2 ^ 32)).push 0⟩ : StringTable).size = 2 ^ 32 + 1 := by
    rw [StringTable.size, ByteArray.size_push, ByteArray.size_append, size_times, letter, ByteArray.size_empty,
      Nat.mul_one, Nat.zero_add]
  refine ⟨_, addLong_eq_ok.mpr ⟨⟨valid, by decide⟩, rfl⟩, size, ?_⟩
  rw [toNat_u32At_bytes, size]
  decide

end Call

end StringTable

end CoffWorks
