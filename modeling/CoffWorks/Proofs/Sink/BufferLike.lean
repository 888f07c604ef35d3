import CoffWorks.Proofs.Bytes.Append
import CoffWorks.Sink.Limited
import CoffWorks.Sink.MemoryFile
import CoffWorks.Sink.Seeking

namespace CoffWorks

namespace Sink

/-- A sink is like a buffer of `capacity` bytes. `Holds s b` says that `s` works and holds `b`. Where a
call fails, `Left` tells what is left: a write has stored some first part of its bytes, and a patch has
changed nothing. -/
structure BufferLike {σ : Type} [Sink σ] (Holds Left : σ → Bytes → Prop) (capacity : Nat) : Prop where
  capacity_lt : capacity < 2 ^ 63
  size_le : ∀ {s b}, Holds s b → b.size ≤ capacity
  offset_eq : ∀ {s b}, Holds s b → Sink.offset s = b.size
  write_cases : ∀ {s b} (p : Bytes), Holds s b → b.size + p.size ≤ capacity →
    (∃ s' n, Writer.write s p = ⟨s', n, none⟩ ∧ Holds s' (b ++ p)) ∨
      ∃ s' n e k, Writer.write s p = ⟨s', n, some e⟩ ∧ Left s' (b ++ p.take k)
  patch_cases : ∀ {s b} (p : Bytes) (pos : Nat), Holds s b → pos + p.size ≤ b.size →
    (∃ s', Sink.patchAt s p (.ofNat pos) = (s', none) ∧ Holds s' (b.overwrite pos p)) ∨
      ∃ s' e, Sink.patchAt s p (.ofNat pos) = (s', some e) ∧ Left s' b

/-- Just those writes are refused that would take the sink beyond `limit` bytes, and no patches are. -/
structure Limits {σ : Type} [Sink σ] (Holds : σ → Bytes → Prop) (limit : Nat) : Prop where
  write_iff : ∀ {s b} (p : Bytes), Holds s b →
    ((Writer.write s p).failure = none ↔ b.size + p.size ≤ limit)
  patch_none : ∀ {s b} (p : Bytes) (pos : Nat), Holds s b → pos + p.size ≤ b.size →
    (Sink.patchAt s p (.ofNat pos)).2 = none

end Sink

namespace Staging

/-- A patch inside of what was written is made. -/
theorem patchAt_eq (s : Staging) (p : Bytes) {pos : Nat} (inside : pos + p.size ≤ s.data.size)
    (small : s.data.size < 2 ^ 63) : s.patchAt p (.ofNat pos) = (⟨s.data.overwrite pos p⟩, none) := by
  have start : (Int64.ofNat pos).toInt = pos := Int64.toInt_ofNat_of_lt (by omega)
  have stop : (Int64.ofNat pos + Int64.ofNat p.size).toInt = pos + p.size := by
    rw [← Int64.ofNat_add, Int64.toInt_ofNat_of_lt (by omega), Nat.cast_add]
  have accepted : ¬ (Int64.ofNat pos < 0 ∨ (Int64.ofNat pos + Int64.ofNat p.size).toInt > s.data.size) := by
    rw [Int64.lt_iff_toInt_lt, start, stop, Int64.toInt_zero]
    omega
  rw [patchAt, if_neg accepted, start, Int.toNat_natCast, if_pos inside]

/-- The buffer holds `b`. Lengths are signed 64-bit numbers. -/
def Holds (s : Staging) (b : Bytes) : Prop := s.data = b ∧ b.size < 2 ^ 63

/-- The sink in memory is like a buffer that never fails. -/
theorem bufferLike : Sink.BufferLike Staging.Holds (fun _ _ => False) (2 ^ 63 - 1) where
  capacity_lt := by decide
  size_le := fun h => Nat.le_pred_of_lt h.2
  offset_eq := fun h => congrArg ByteArray.size h.1
  write_cases := by
    rintro s _ p ⟨rfl, -⟩ room
    refine .inl ⟨s.write p, p.size, rfl, rfl, ?_⟩
    rw [ByteArray.size_append]
    omega
  patch_cases := by
    rintro s _ p pos ⟨rfl, small⟩ inside
    refine .inl ⟨⟨s.data.overwrite pos p⟩, patchAt_eq s p inside small, rfl, ?_⟩
    rwa [Bytes.size_overwrite _ _ _ inside]

end Staging

namespace GuardedStaging

/-- The sink holds `b`; it has the limit and will fail at the patch that are given. -/
structure Holds (limit : Option Int64) (failingPatch : Option Nat) (g : GuardedStaging) (b : Bytes) :
    Prop where
  staging_holds : g.staging.Holds b
  limit_eq : g.limit = limit
  failingPatch_eq : g.failingPatch = failingPatch

variable {limit : Option Int64} {failingPatch : Option Nat}

/-- With a limit, it is like one that may fail at the end or at a patch. -/
theorem bufferLike : Sink.BufferLike (GuardedStaging.Holds limit failingPatch)
    (fun g b => g.staging.data = b) (2 ^ 63 - 1) where
  capacity_lt := by decide
  size_le := fun h => Staging.bufferLike.size_le h.staging_holds
  offset_eq := fun h => Staging.bufferLike.offset_eq h.staging_holds
  write_cases := by
    rintro ⟨s, l, failing, patches⟩ _ p ⟨⟨rfl, small⟩, rfl, rfl⟩ room
    change (∃ g n, GuardedStaging.write _ p = ⟨g, n, none⟩ ∧ _) ∨
      ∃ g n e k, GuardedStaging.write _ p = ⟨g, n, some e⟩ ∧ _
    rw [write]
    split_ifs with refused
    · refine .inr ⟨_, _, _, 0, rfl, ?_⟩
      have none : p.take 0 = .empty := ByteArray.size_eq_zero_iff.mp (by simp [Bytes.size_take])
      rw [none, ByteArray.append_empty]
    · refine .inl ⟨_, _, rfl, ⟨rfl, ?_⟩, rfl, rfl⟩
      rw [ByteArray.size_append]
      omega
  patch_cases := by
    rintro ⟨s, l, failing, patches⟩ _ p pos ⟨⟨rfl, small⟩, rfl, rfl⟩ inside
    change (∃ g, GuardedStaging.patchAt _ p _ = (g, none) ∧ _) ∨
      ∃ g e, GuardedStaging.patchAt _ p _ = (g, some e) ∧ _
    rw [patchAt]
    split_ifs with refused
    · exact .inr ⟨_, _, rfl, rfl⟩
    · rw [Staging.patchAt_eq s p inside small]
      refine .inl ⟨_, rfl, ⟨rfl, ?_⟩, rfl, rfl⟩
      rwa [Bytes.size_overwrite _ _ _ inside]

/-- Such a sink refuses just the writes beyond its limit. -/
theorem limits {n : Nat} (hn : n < 2 ^ 63) :
    Sink.Limits (GuardedStaging.Holds (some (.ofNat n)) none) n where
  write_iff := by
    rintro ⟨s, l, failing, patches⟩ _ p ⟨⟨rfl, small⟩, rfl, rfl⟩
    change (GuardedStaging.write _ p).failure = none ↔ _
    have bound : (Int64.ofNat n).toInt = n := Int64.toInt_ofNat_of_lt hn
    rw [write, Option.any_some, bound]
    split_ifs with refused
    · simp only [decide_eq_true_eq] at refused
      simp only [false_iff]
      omega
    · simp only [decide_eq_true_eq] at refused
      simp only [true_iff]
      omega
  patch_none := by
    rintro ⟨s, l, failing, patches⟩ _ p pos ⟨⟨rfl, small⟩, rfl, rfl⟩ inside
    change (GuardedStaging.patchAt _ p _).2 = none
    rw [patchAt, if_neg (by simp), Staging.patchAt_eq s p inside small]

end GuardedStaging

/-- A seekable file that never fails while it has at most `capacity` bytes. -/
class SteadyFile (φ : Type) [SeekableFile φ] where
  capacity : Nat
  /-- The file holds `b` and stands at `pos`. -/
  Holds : φ → Bytes → Nat → Prop
  capacity_lt : capacity < 2 ^ 63
  size_le : ∀ {file b pos}, Holds file b pos → b.size ≤ capacity
  write_eq : ∀ {file b pos} (p : Bytes), Holds file b pos → pos ≤ b.size → pos + p.size ≤ capacity →
    ∃ file', Writer.write file p = ⟨file', p.size, none⟩ ∧ Holds file' (b.overwrite pos p) (pos + p.size)
  seek_start : ∀ {file b pos} (target : Nat), Holds file b pos → target ≤ b.size →
    ∃ file', SeekableFile.seek file (.start (.ofNat target)) = (file', .ok (.ofNat target)) ∧
      Holds file' b target
  seek_current : ∀ {file b pos}, Holds file b pos →
    ∃ file', SeekableFile.seek file (.current 0) = (file', .ok (.ofNat pos)) ∧ Holds file' b pos

namespace SeekSink

section Steps

variable {φ : Type} [SeekableFile φ] {base : Int64} {n : Nat} {p : Bytes}

/-- The counts move by as much as the file has stored. -/
theorem write_eq {file file' : φ} {k : Nat} {e : Option Failure} (stored : Writer.write file p = ⟨file', k, e⟩)
    (small : n + k < 2 ^ 63) :
    write ⟨file, base, .ofNat n, .ofNat n⟩ p = ⟨⟨file', base, .ofNat (n + k), .ofNat (n + k)⟩, k, e⟩ := by
  have largest : (if Int64.ofNat (n + k) > Int64.ofNat n then Int64.ofNat (n + k) else Int64.ofNat n) =
      Int64.ofNat (n + k) := by
    have old : (Int64.ofNat n).toInt = n := Int64.toInt_ofNat_of_lt (by omega)
    have new : (Int64.ofNat (n + k)).toInt = (n + k : Nat) := Int64.toInt_ofNat_of_lt small
    split_ifs with more
    · rfl
    · rw [gt_iff_lt, Int64.lt_iff_toInt_lt, old, new] at more
      apply Int64.toInt_inj.mp
      rw [old, new]
      omega
  simp only [write, stored, ← Int64.ofNat_add, largest]

/-- A patch of what was written is two seeks and a write, if none of them fails. -/
theorem patchAt_eq {file there written back : φ} {pos k : Nat} {x y : Int64} (inside : pos + p.size ≤ n)
    (small : n < 2 ^ 63) (seek : SeekableFile.seek file (.start (base + .ofNat pos)) = (there, .ok x))
    (stored : Writer.write there p = ⟨written, k, none⟩)
    (return' : SeekableFile.seek written (.start (base + .ofNat n)) = (back, .ok y)) :
    patchAt ⟨file, base, .ofNat n, .ofNat n⟩ p (.ofNat pos) = (⟨back, base, .ofNat n, .ofNat n⟩, none) := by
  have accepted : ¬ (Int64.ofNat pos < 0 ∨ Int64.ofNat pos + Int64.ofNat p.size > Int64.ofNat n) := by
    rw [gt_iff_lt, ← Int64.ofNat_add, Int64.lt_iff_toInt_lt, Int64.lt_iff_toInt_lt,
      Int64.toInt_ofNat_of_lt (by omega), Int64.toInt_ofNat_of_lt (by omega),
      Int64.toInt_ofNat_of_lt (by omega), Int64.toInt_zero]
    omega
  rw [patchAt, if_neg accepted]
  simp only [seek, stored, return']

end Steps

variable {φ : Type} [SeekableFile φ] [SteadyFile φ]

/-- The sink was made at the end of a file with `before`, and `b` was written to it since. The file
stands at its end. -/
structure Holds (before : Bytes) (s : SeekSink φ) (b : Bytes) : Prop where
  file_holds : SteadyFile.Holds s.file (before ++ b) (before.size + b.size)
  base_eq : s.base = .ofNat before.size
  pos_eq : s.pos = .ofNat b.size
  size_eq : s.size = .ofNat b.size

variable {before : Bytes}

theorem Holds.size_le {s : SeekSink φ} {b : Bytes} (h : s.Holds before b) :
    before.size + b.size ≤ SteadyFile.capacity φ := by
  simpa using SteadyFile.size_le h.file_holds

theorem create_holds {file : φ} (h : SteadyFile.Holds file before before.size) :
    ∃ opened sink, create file = (opened, .ok sink) ∧ sink.Holds before .empty := by
  obtain ⟨opened, tell, holds⟩ := SteadyFile.seek_current h
  refine ⟨opened, { file := opened, base := .ofNat before.size }, ?_, ?_, rfl, rfl, rfl⟩
  · rw [create, tell]
    rfl
  · simpa using holds

theorem write_holds {s : SeekSink φ} {b : Bytes} (p : Bytes) (h : s.Holds before b)
    (room : before.size + (b.size + p.size) ≤ SteadyFile.capacity φ) :
    ∃ s' n, s.write p = ⟨s', n, none⟩ ∧ s'.Holds before (b ++ p) := by
  obtain ⟨file, base, pos, size⟩ := s
  obtain ⟨holds, rfl, rfl, rfl⟩ := h
  have small := SteadyFile.capacity_lt (φ := φ)
  obtain ⟨file', stored, holds'⟩ := SteadyFile.write_eq p holds (by simp) (by omega)
  have content : (before ++ b).overwrite (before.size + b.size) p = before ++ (b ++ p) := by
    rw [← ByteArray.size_append, Bytes.overwrite_size, ByteArray.append_assoc]
  rw [content, Nat.add_assoc, ← ByteArray.size_append] at holds'
  have counted : Int64.ofNat (b.size + p.size) = Int64.ofNat (b ++ p).size := by rw [ByteArray.size_append]
  exact ⟨_, _, write_eq stored (by omega), holds', rfl, counted, counted⟩

/-- A patch leaves the file at its end again. -/
theorem patchAt_holds {s : SeekSink φ} {b : Bytes} (p : Bytes) {pos : Nat} (h : s.Holds before b)
    (inside : pos + p.size ≤ b.size) :
    ∃ s', s.patchAt p (.ofNat pos) = (s', none) ∧ s'.Holds before (b.overwrite pos p) := by
  have fits := h.size_le
  have small := SteadyFile.capacity_lt (φ := φ)
  obtain ⟨file, base, at', size⟩ := s
  obtain ⟨holds, rfl, rfl, rfl⟩ := h
  have content : (before ++ b).overwrite (before.size + pos) p = before ++ b.overwrite pos p :=
    Bytes.overwrite_append before b p pos
  have size : (b.overwrite pos p).size = b.size := Bytes.size_overwrite b p pos inside
  obtain ⟨there, seek, holds⟩ := SteadyFile.seek_start (before.size + pos) holds (by simp; omega)
  obtain ⟨written, stored, holds⟩ := SteadyFile.write_eq p holds (by simp; omega) (by omega)
  rw [content] at holds
  obtain ⟨back, return', holds⟩ := SteadyFile.seek_start (before.size + b.size) holds (by simp [size])
  rw [Int64.ofNat_add] at seek return'
  have counted : Int64.ofNat b.size = Int64.ofNat (b.overwrite pos p).size := by rw [size]
  rw [← size] at holds
  exact ⟨_, patchAt_eq inside (by omega) seek stored return', holds, rfl, counted, counted⟩

/-- A sink on a file that never fails is like a buffer, whatever the file held before. -/
theorem bufferLike (before : Bytes) : Sink.BufferLike (SeekSink.Holds (φ := φ) before) (fun _ _ => False)
    (SteadyFile.capacity φ - before.size) where
  capacity_lt := Nat.lt_of_le_of_lt (Nat.sub_le _ _) SteadyFile.capacity_lt
  size_le := fun h => Nat.le_sub_of_add_le' h.size_le
  offset_eq := by
    intro s b h
    have fits := h.size_le
    have small := SteadyFile.capacity_lt (φ := φ)
    change s.pos.toInt.toNat = b.size
    rw [h.pos_eq, Int64.toInt_ofNat_of_lt (by omega), Int.toNat_natCast]
  write_cases := by
    intro s b p h room
    have fits := h.size_le
    exact .inl (write_holds p h (by omega))
  patch_cases := fun p _ h inside => .inl (patchAt_holds p h inside)

end SeekSink

theorem Bytes.overwrite_empty {b : Bytes} {pos : Nat} (inside : pos ≤ b.size) : b.overwrite pos .empty = b := by
  have both := ByteArray.extract_eq_extract_append_extract (a := b) pos (Nat.zero_le pos) inside
  rw [overwrite_eq, ByteArray.append_empty, ByteArray.size_empty, Nat.add_zero, ← both, ByteArray.extract_zero_size]

theorem Buffer.maxCapacity_lt : maxCapacity < 2 ^ 63 := by decide

namespace MemoryFile

/-- Neither the device nor a plan makes the file fail. -/
structure Unlimited (f : MemoryFile) : Prop where
  limit_eq : f.limit = none
  failingWrite_eq : f.failingWrite = none
  failingSeek_eq : f.failingSeek = none

/-- What is stored inside of a file or at its end leaves no gap. -/
theorem store_eq (f : MemoryFile) (p : Bytes) {pos : Nat} (hp : f.pos = .ofNat pos)
    (inside : pos ≤ f.data.size) (small : pos < 2 ^ 63) :
    f.store p = { f with data := f.data.overwrite pos p, pos := .ofNat (pos + p.size) } := by
  obtain ⟨data, at', limit, failingWrite, failingSeek, writes, seeks⟩ := f
  obtain rfl : at' = .ofNat pos := hp
  have start : (Int64.ofNat pos).toInt.toNat = pos := by
    rw [Int64.toInt_ofNat_of_lt small, Int.toNat_natCast]
  have gap : pos - data.size = 0 := Nat.sub_eq_zero_of_le inside
  have content : (if p.isEmpty then data else (data.pushZeros (pos - data.size)).overwrite pos p) =
      data.overwrite pos p := by
    split_ifs with none
    · have empty : p = .empty := ByteArray.size_eq_zero_iff.mp (by simpa [ByteArray.isEmpty] using none)
      rw [empty, Bytes.overwrite_empty inside]
    · rw [gap]
      rfl
  simp only [store, start, content, Int64.ofNat_add]

theorem write_eq {f : MemoryFile} (h : f.Unlimited) (p : Bytes) {pos : Nat} (hp : f.pos = .ofNat pos)
    (inside : pos ≤ f.data.size) (hc : pos + p.size ≤ Buffer.maxCapacity) :
    f.write p = ⟨{ f with data := f.data.overwrite pos p, pos := .ofNat (pos + p.size)
                          writes := f.writes + 1 }, p.size, none⟩ := by
  have bound := Buffer.maxCapacity_lt
  have start : f.pos.toInt = pos := by rw [hp, Int64.toInt_ofNat_of_lt (by omega)]
  have fits : ¬ (p.size > 0 ∧ (f.pos < 0 ∨ f.pos.toInt + p.size > Buffer.maxCapacity)) := by
    rw [Int64.lt_iff_toInt_lt, start, Int64.toInt_zero]
    omega
  have stored := store_eq { f with writes := f.writes + 1 } p hp inside (by omega)
  obtain ⟨data, at', limit, failingWrite, failingSeek, writes, seeks⟩ := f
  obtain ⟨rfl, rfl, rfl⟩ := h
  simp only [write, room, reduceCtorEq, fits, Bytes.take_of_size_le (Nat.le_refl _), Nat.lt_irrefl, stored,
    ↓reduceIte]

theorem seek_eq {f : MemoryFile} (h : f.failingSeek = none) (target : SeekTarget) {pos : Int64}
    (hp : (match target with | .start pos => pos | .current distance => f.pos + distance) = pos) :
    f.seek target = ({ f with pos, seeks := f.seeks + 1 }, .ok pos) := by
  obtain ⟨data, at', limit, failingWrite, failingSeek, writes, seeks⟩ := f
  obtain rfl : failingSeek = none := h
  subst hp
  rfl

instance : SteadyFile MemoryFile where
  capacity := Buffer.maxCapacity
  Holds f b pos := f.Unlimited ∧ f.data = b ∧ f.pos = .ofNat pos ∧ b.size ≤ Buffer.maxCapacity
  capacity_lt := Buffer.maxCapacity_lt
  size_le := fun h => h.2.2.2
  write_eq := by
    rintro f _ pos p ⟨free, rfl, hp, fits⟩ inside room
    refine ⟨_, write_eq free p hp inside room, ⟨free.1, free.2, free.3⟩, rfl, rfl, ?_⟩
    rw [Bytes.overwrite_eq]
    simp only [ByteArray.size_append, ByteArray.size_extract]
    omega
  seek_start := by
    rintro f _ pos target ⟨free, rfl, hp, fits⟩ inside
    exact ⟨_, seek_eq free.3 _ rfl, ⟨free.1, free.2, free.3⟩, rfl, rfl, fits⟩
  seek_current := by
    rintro f _ pos ⟨free, rfl, hp, fits⟩
    exact ⟨_, seek_eq free.3 _ (by simpa using hp), ⟨free.1, free.2, free.3⟩, rfl, rfl, fits⟩

theorem holding_holds {b : Bytes} (h : b.size ≤ Buffer.maxCapacity) :
    SteadyFile.Holds (holding b) b b.size :=
  ⟨⟨rfl, rfl, rfl⟩, rfl, rfl, h⟩

end MemoryFile

end CoffWorks
