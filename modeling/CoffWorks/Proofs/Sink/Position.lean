import CoffWorks.Proofs.Bytes.Slice
import CoffWorks.Proofs.Sink.Agreement

namespace CoffWorks

/-- A sum that is too large comes out negative, and then nothing is counted from it on. -/
private theorem toInt_add_add_eq_iff {base off : Int64} {k n : Nat} (hb : 0 ≤ base.toInt) (ho : 0 ≤ off.toInt)
    (small : base.toInt + n < 2 ^ 63) (room : k = 0 ∨ 0 ≤ (base + off).toInt) :
    (base + off).toInt + k = base.toInt + n ↔ off.toInt + k = n := by
  have below := base.toInt_lt
  have below' := off.toInt_lt
  rw [Int64.toInt_add, Int.bmod_def] at room ⊢
  split_ifs at room ⊢ <;> omega

namespace Bytes

/-- `b'` is `b` with `p` laid over it from `pos` on. If `b` ends before, there are zeros between. -/
structure Laid (b : Bytes) (pos : Nat) (p b' : Bytes) : Prop where
  size_eq : b'.size = if p.size = 0 then b.size else max b.size (pos + p.size)
  here : b'.slice pos p.size = p
  elsewhere : ∀ i, i < pos ∨ pos + p.size ≤ i → b'.byteAt i = b.byteAt i

theorem Laid.size_le {b p b' : Bytes} {pos : Nat} (h : b.Laid pos p b') : b.size ≤ b'.size := by
  rw [h.size_eq]
  split_ifs <;> omega

private theorem byteAt_of_size_le {b : Bytes} {i : Nat} (h : b.size ≤ i) : b.byteAt i = 0 := dif_neg (Nat.not_lt.mpr h)

private theorem byteAt_drop (b : Bytes) (pos i : Nat) : (b.drop pos).byteAt i = b.byteAt (pos + i) := by
  rcases Nat.lt_or_ge i (b.size - pos) with inside | past
  · rw [drop, byteAt_slice b pos inside]
  · rw [byteAt_of_size_le, byteAt_of_size_le]
    · omega
    · rw [drop, size_slice]
      omega

private theorem byteAt_pushZeros (b : Bytes) (n i : Nat) : (b.pushZeros n).byteAt i = b.byteAt i := by
  induction n generalizing b with
  | zero => rfl
  | succ n ih =>
    rw [pushZeros, ih, push_eq_append]
    rcases Nat.lt_or_ge i b.size with inside | past
    · exact byteAt_append_left _ _ _ inside
    · rw [byteAt_of_size_le past, byteAt_skip _ _ _ past]
      cases i - b.size with
      | zero => rfl
      | succ j => exact byteAt_of_size_le (by simp)

private theorem laid_empty (b : Bytes) (pos : Nat) : b.Laid pos .empty b := by
  refine ⟨rfl, slice_zero b pos, ?_⟩
  intro i hi
  rfl

/-- Overwriting without a gap lays the new bytes over the old ones. -/
theorem laid_overwrite (b p : Bytes) {pos : Nat} (reach : pos ≤ b.size) : b.Laid pos p (b.overwrite pos p) := by
  have front : (b.take pos).size = pos := by rw [size_take, Nat.min_eq_left reach]
  have after : b.extract (pos + p.size) b.size = b.drop (pos + p.size) := by
    rcases Nat.le_total (pos + p.size) b.size with inside | past
    · rw [drop, slice_eq_extract, Nat.add_sub_cancel' inside]
    · rw [drop, Nat.sub_eq_zero_of_le past, slice_zero, ByteArray.extract_eq_empty_iff]
      omega
  have parts : b.overwrite pos p = b.take pos ++ (p ++ b.drop (pos + p.size)) := by
    rw [overwrite_eq, after, take, slice_eq_extract, Nat.zero_add, ByteArray.append_assoc]
  rw [parts]
  refine ⟨?_, ?_, ?_⟩
  · rw [ByteArray.size_append, ByteArray.size_append, front, drop, size_slice]
    split_ifs <;> omega
  · have middle := slice_middle (b.take pos) p (b.drop (pos + p.size))
    rwa [front] at middle
  · intro i hi
    rcases hi with before | after
    · rw [byteAt_append_left _ _ _ (by omega), byteAt_take b before]
    · rw [byteAt_skip _ _ _ (by omega), byteAt_skip _ _ _ (by omega), byteAt_drop, front]
      congr 1
      omega

/-- The zeros before `pos` are those that a byte string has past its end. -/
private theorem laid_pushZeros (b : Bytes) {p : Bytes} (some : p.size ≠ 0) (pos : Nat) :
    b.Laid pos p ((b.pushZeros (pos - b.size)).overwrite pos p) := by
  have reach : pos ≤ (b.pushZeros (pos - b.size)).size := by
    rw [size_pushZeros]
    omega
  have laid := laid_overwrite (b.pushZeros (pos - b.size)) p reach
  refine ⟨?_, laid.here, ?_⟩
  · rw [laid.size_eq, if_neg some, if_neg some, size_pushZeros]
    omega
  · intro i hi
    rw [laid.elsewhere i hi, byteAt_pushZeros]

end Bytes

/-- A seekable file that can be moved to any place, also behind its end; only a place before its start may be
refused. A write stores some first part of its bytes and tells how much that is. If this is not all it fails. -/
class RandomAccess (φ : Type) [SeekableFile φ] where
  capacity : Nat
  content : φ → Bytes
  position : φ → Int
  /-- The file can be moved. -/
  Works : φ → Prop
  capacity_lt : capacity < 2 ^ 63
  write_stores : ∀ {file} (p : Bytes), Works file → ∃ file' k e, Writer.write file p = ⟨file', k, e⟩ ∧ Works file' ∧
    k ≤ p.size ∧ (e = none → k = p.size) ∧ position file' = position file + k ∧
    (content file).Laid (position file).toNat (p.take k) (content file') ∧
    (k = 0 ∨ 0 ≤ position file ∧ position file + k ≤ capacity)
  seek_start : ∀ {file} (target : Int64), Works file → ∃ file' r, SeekableFile.seek file (.start target) = (file', r) ∧
    Works file' ∧ content file' = content file ∧ ((∃ q, r = .ok q) ∧ position file' = target.toInt ∨
      target.toInt < 0 ∧ (∃ e, r = .error e) ∧ position file' = position file)
  seek_current : ∀ {file}, Works file → ∃ file' r, SeekableFile.seek file (.current 0) = (file', .ok r) ∧
    Works file' ∧ content file' = content file ∧ position file' = position file ∧ r.toInt = position file

namespace MemoryFile

private theorem store_laid (f : MemoryFile) (p : Bytes) : f.data.Laid f.pos.toInt.toNat p (f.store p).data := by
  obtain ⟨data, pos, limit, failingWrite, failingSeek, writes, seeks⟩ := f
  dsimp only [store]
  split_ifs with none
  · obtain rfl : p = .empty := ByteArray.size_eq_zero_iff.mp (by simpa [ByteArray.isEmpty] using none)
    exact Bytes.laid_empty _ _
  · refine Bytes.laid_pushZeros data ?_ _
    simpa [ByteArray.isEmpty] using none

/-- A write that does not go beyond memory moves the file by what it stores. -/
private theorem store_pos (f : MemoryFile) (p : Bytes)
    (fits : ¬ (p.size > 0 ∧ (f.pos < 0 ∨ f.pos.toInt + p.size > Buffer.maxCapacity))) :
    (f.store p).pos.toInt = f.pos.toInt + p.size ∧
      (p.size = 0 ∨ 0 ≤ f.pos.toInt ∧ f.pos.toInt + p.size ≤ Buffer.maxCapacity) := by
  have bound := Buffer.maxCapacity_lt
  change (f.pos + Int64.ofNat p.size).toInt = _ ∧ _
  rw [Int64.lt_iff_toInt_lt, Int64.toInt_zero] at fits
  rcases Nat.eq_zero_or_pos p.size with none | some
  · rw [none]
    simp
  · have count : (Int64.ofNat p.size).toInt = p.size := Int64.toInt_ofNat_of_lt (by omega)
    rw [Int64.toInt_add, count, Int.bmod_eq_of_le (by omega) (by omega)]
    omega

instance : RandomAccess MemoryFile where
  capacity := Buffer.maxCapacity
  content f := f.data
  position f := f.pos.toInt
  Works f := f.failingSeek = none
  capacity_lt := Buffer.maxCapacity_lt
  write_stores := by
    intro f p works
    have nothing : p.take 0 = .empty := Bytes.slice_zero p 0
    have taken : (p.take (f.room p.size)).size = f.room p.size := by
      rw [Bytes.size_take]
      exact Nat.min_eq_left (f.room_le p.size)
    by_cases planned : f.failingWrite = some (f.writes + 1)
    · refine ⟨_, 0, _, if_pos planned, works, Nat.zero_le _, by simp, by simp, ?_, .inl rfl⟩
      rw [nothing]
      exact Bytes.laid_empty _ _
    by_cases beyond : f.room p.size > 0 ∧ (f.pos < 0 ∨ f.pos.toInt + f.room p.size > Buffer.maxCapacity)
    · refine ⟨_, 0, _, (if_neg planned).trans (if_pos beyond), works, Nat.zero_le _, by simp, by simp, ?_, .inl rfl⟩
      rw [nothing]
      exact Bytes.laid_empty _ _
    · have stored := store_laid { f with writes := f.writes + 1 } (p.take (f.room p.size))
      have moved := store_pos { f with writes := f.writes + 1 } (p.take (f.room p.size)) (by rwa [taken])
      rw [taken] at moved
      refine ⟨_, f.room p.size, if f.room p.size < p.size then some .diskFull else none,
        (if_neg planned).trans (if_neg beyond), works, f.room_le p.size, ?_, moved.1, stored, moved.2⟩
      intro unfailing
      have part := f.room_le p.size
      by_contra less
      rw [if_pos (Nat.lt_of_le_of_ne part less)] at unfailing
      cases unfailing
  seek_start := by
    intro f target works
    exact ⟨_, _, seek_eq works _ rfl, works, rfl, .inl ⟨⟨_, rfl⟩, rfl⟩⟩
  seek_current := by
    intro f works
    exact ⟨_, _, seek_eq works _ rfl, works, rfl, by simp, by simp⟩

end MemoryFile

/-- The sink after the calls. -/
def Sink.Call.after {σ : Type} [Sink σ] (s : σ) (calls : List Call) : σ := calls.foldl (fun s c => (c.run s).out) s

namespace SeekSink

open Sink RandomAccess

section Attempts

variable {φ : Type} [SeekableFile φ] {s : SeekSink φ}

/-- The write that a patch makes, unless it is refused or the file cannot be moved there. -/
def attempt (s : SeekSink φ) (p : Bytes) (off : Int64) : Option (Stored φ) :=
  if off < 0 ∨ off + .ofNat p.size > s.size then none
  else
    match SeekableFile.seek s.file (.start (s.base + off)) with
    | (there, .ok _) => some (Writer.write there p)
    | (_, .error _) => none

theorem of_mem_attempt {p : Bytes} {off : Int64} {w : Stored φ} (made : w ∈ s.attempt p off) :
    ¬ (off < 0 ∨ off + .ofNat p.size > s.size) ∧
      w = Writer.write (SeekableFile.seek s.file (.start (s.base + off))).1 p := by
  rw [attempt] at made
  split_ifs at made with outside
  · cases made
  · refine ⟨outside, ?_⟩
    rcases seek : SeekableFile.seek s.file (.start (s.base + off)) with ⟨there, e | q⟩
    · simp [seek] at made
    · simpa [seek] using made.symm

/-- If the write of a patch fails, it has come just to the end of what was written, and so the file is back. -/
def Returns (s : SeekSink φ) : Call → Prop
  | .write _ => True
  | .patchAt p off => ∀ w ∈ s.attempt p off, w.failure ≠ none → off.toInt + w.count = s.pos.toInt

instance (s : SeekSink φ) : DecidablePred s.Returns
  | .write _ => isTrue trivial
  | .patchAt p off => inferInstanceAs (Decidable (∀ w ∈ s.attempt p off, _ → _))

end Attempts

section Steps

variable {φ : Type} [SeekableFile φ] [RandomAccess φ] {s : SeekSink φ} {start n : Nat}

/-- The sink was made where the file stood at `start`. It has written `n` bytes since, and the file holds them and
stands behind them. -/
structure Placed (start n : Nat) (s : SeekSink φ) : Prop where
  works : Works s.file
  base_eq : s.base = .ofNat start
  pos_eq : s.pos = .ofNat n
  size_eq : s.size = .ofNat n
  position_eq : position s.file = start + n
  reach : start + n ≤ capacity φ
  covers : n = 0 ∨ start + n ≤ (content s.file).size

theorem Placed.reach_lt (h : s.Placed start n) : start + n < 2 ^ 63 :=
  Nat.lt_of_le_of_lt h.reach (capacity_lt (φ := φ))

theorem Placed.offset_eq (h : s.Placed start n) : Sink.offset s = n := by
  have small := h.reach_lt
  change s.pos.toInt.toNat = n
  rw [h.pos_eq, Int64.toInt_ofNat_of_lt (by omega), Int.toNat_natCast]

theorem create_placed {file : φ} (works : Works file) (here : position file = start) (room : start ≤ capacity φ) :
    ∃ opened sink, create file = (opened, .ok sink) ∧ sink.Placed start 0 := by
  obtain ⟨opened, base, tell, works', -, same, base_eq⟩ := seek_current works
  have small := capacity_lt (φ := φ)
  refine ⟨opened, { file := opened, base }, ?_, works', ?_, rfl, rfl, ?_, room, .inl rfl⟩
  · rw [create, tell]
    rfl
  · apply Int64.toInt_inj.mp
    rw [Int64.toInt_ofNat_of_lt (by omega), base_eq, here]
  · rw [same, here]
    simp

/-- A write goes on behind what was written, as far as the file stores it. -/
theorem Placed.write (h : s.Placed start n) (p : Bytes) : ∃ s' k e, Writer.write s p = ⟨s', k, e⟩ ∧
    s'.Placed start (n + k) ∧ (content s.file).Laid (start + n) (p.take k) (content s'.file) := by
  obtain ⟨file, base, pos, size⟩ := s
  have small := h.reach_lt
  obtain ⟨works, rfl, rfl, rfl, position_eq, reach, covers⟩ := h
  obtain ⟨file', k, e, stored, works', part, -, moved, laid, room⟩ := write_stores p works
  dsimp only at position_eq covers moved laid room
  rw [position_eq] at moved laid room
  have within : start + (n + k) ≤ capacity φ := by omega
  have bound := capacity_lt (φ := φ)
  have taken : (p.take k).size = k := by
    rw [Bytes.size_take]
    exact Nat.min_eq_left part
  refine ⟨⟨file', .ofNat start, .ofNat (n + k), .ofNat (n + k)⟩, k, e, write_eq stored (by omega),
    ⟨works', rfl, rfl, rfl, ?_, within, ?_⟩, laid⟩
  · rw [moved]
    push_cast
    omega
  · rw [laid.size_eq, taken]
    split_ifs <;> omega

/-- What a patch can do to the file, beside the write that it makes: leave it where it is, break off where a write has
failed, or take it back. -/
inductive Patched (s : SeekSink φ) (p : Bytes) (off : Int64) (file : φ) : Option (Stored φ) → Option Failure → Prop
  | unmoved {e : Failure} (outside : off.toInt < 0 ∨ off + .ofNat p.size > s.size ∨ (s.base + off).toInt < 0)
      (kept : content file = content s.file) (still : position file = position s.file) :
      Patched s p off file none (some e)
  | stranded {k : Nat} {e : Failure} (accepted : 0 ≤ off.toInt) (moved : position file = (s.base + off).toInt + k)
      (laid : (content s.file).Laid (s.base + off).toInt.toNat (p.take k) (content file))
      (room : k = 0 ∨ 0 ≤ (s.base + off).toInt) :
      Patched s p off file (some ⟨file, k, some e⟩) (some e)
  | back {written : φ} (moved : position file = position s.file)
      (laid : (content s.file).Laid (s.base + off).toInt.toNat p (content file))
      (room : p.size = 0 ∨ 0 ≤ (s.base + off).toInt ∧ (s.base + off).toInt + p.size ≤ capacity φ) :
      Patched s p off file (some ⟨written, p.size, none⟩) none

/-- A patch changes nothing of the sink but its file. -/
theorem Placed.patchAt (h : s.Placed start n) (p : Bytes) (off : Int64) : ∃ file e,
    Sink.patchAt s p off = ({ s with file }, e) ∧ Works file ∧ s.Patched p off file (s.attempt p off) e := by
  have small := h.reach_lt
  obtain ⟨file, base, pos, size⟩ := s
  have finish : (base + pos).toInt = position file := by
    obtain ⟨-, rfl, rfl, -, position_eq, -, -⟩ := h
    rw [← Int64.ofNat_add, Int64.toInt_ofNat_of_lt small, position_eq, Nat.cast_add]
  change ∃ _ _, SeekSink.patchAt _ _ _ = _ ∧ _
  unfold SeekSink.patchAt attempt
  dsimp only
  split_ifs with outside
  · rw [Int64.lt_iff_toInt_lt, Int64.toInt_zero] at outside
    exact ⟨file, _, rfl, h.works, .unmoved (outside.imp_right .inl) rfl rfl⟩
  rw [not_or, Int64.lt_iff_toInt_lt, Int64.toInt_zero, not_lt] at outside
  obtain ⟨there, r, seek, works, same, ⟨⟨q, rfl⟩, moved⟩ | ⟨before, ⟨e, rfl⟩, still⟩⟩ := seek_start (base + off) h.works
  · obtain ⟨written, k, e, stored, works, -, whole, onward, laid, room⟩ := write_stores p works
    rw [moved] at onward laid room
    rw [same] at laid
    cases e with
    | some e =>
      simp only [seek, stored]
      exact ⟨written, _, rfl, works, .stranded outside.1 onward laid (room.imp_right And.left)⟩
    | none =>
      obtain rfl := whole rfl
      rw [Bytes.take_of_size_le (Nat.le_refl _)] at laid
      obtain ⟨back, r, return', works, same, ⟨⟨q, rfl⟩, moved⟩ | ⟨negative, -, -⟩⟩ := seek_start (base + pos) works
      · simp only [seek, stored, return']
        refine ⟨back, _, rfl, works, .back (moved.trans finish) ?_ room⟩
        rwa [same]
      · -- the end of what was written is not before the start of the file
        have here : position file = start + n := h.position_eq
        omega
  · simp only [seek]
    exact ⟨there, _, rfl, works, .unmoved (.inr (.inr before)) same still⟩

theorem Patched.position_eq_iff {p : Bytes} {off : Int64} {file : φ} {e : Option Failure} (h : s.Placed start n)
    (step : s.Patched p off file (s.attempt p off) e) : position file = start + n ↔ s.Returns (.patchAt p off) := by
  have small := h.reach_lt
  have base_eq : s.base.toInt = start := by rw [h.base_eq, Int64.toInt_ofNat_of_lt (by omega)]
  have pos_eq : s.pos.toInt = n := by rw [h.pos_eq, Int64.toInt_ofNat_of_lt (by omega)]
  rw [Returns]
  generalize s.attempt p off = made at step
  cases step with
  | unmoved outside kept still => simp [still.trans h.position_eq]
  | stranded accepted moved laid room =>
    rw [moved, ← base_eq, toInt_add_add_eq_iff (by omega) accepted (by omega) room]
    simp [pos_eq]
  | back moved laid room => simp [moved.trans h.position_eq]

theorem Patched.covers {p : Bytes} {off : Int64} {file : φ} {made : Option (Stored φ)} {e : Option Failure}
    (h : s.Placed start n) (step : s.Patched p off file made e) : n = 0 ∨ start + n ≤ (content file).size := by
  have longer : (content s.file).size ≤ (content file).size := by
    cases step with
    | unmoved outside kept still => rw [kept]
    | stranded accepted moved laid room => exact laid.size_le
    | back moved laid room => exact laid.size_le
  exact h.covers.imp_right fun covered => Nat.le_trans covered longer

/-- After a patch the file stands where it stood just if the write did not fail elsewhere, and then the sink goes on
as before. -/
theorem Placed.patchAt_returns (h : s.Placed start n) (p : Bytes) (off : Int64) : ∃ s' e,
    Sink.patchAt s p off = (s', e) ∧ Sink.offset s' = n ∧
    (position s'.file = start + n ↔ s.Returns (.patchAt p off)) ∧
    (position s'.file = start + n → s'.Placed start n) := by
  obtain ⟨file, e, patched, works, step⟩ := h.patchAt p off
  refine ⟨_, e, patched, h.offset_eq, step.position_eq_iff h, ?_⟩
  intro here
  exact ⟨works, h.base_eq, h.pos_eq, h.size_eq, here, h.reach, step.covers h⟩

/-- The file stands as far behind `start` as the offset says. -/
def Stands (start : Nat) (s : SeekSink φ) : Prop := position s.file = start + Sink.offset s

instance (s : SeekSink φ) : Decidable (s.Stands start) := inferInstanceAs (Decidable (_ = _))

theorem Placed.stands (h : s.Placed start n) : s.Stands start := by
  rw [Stands, h.offset_eq]
  exact h.position_eq

/-- A call leaves the sink placed just if the file is back where it stood. -/
theorem Placed.run (h : s.Placed start n) (c : Call) : ((c.run s).out.Stands start ↔ s.Returns c) ∧
    ((c.run s).out.Stands start → (c.run s).out.Placed start (n + (c.run s).count)) := by
  cases c with
  | write p =>
    obtain ⟨s', k, e, written, placed, -⟩ := h.write p
    rw [Call.run, written]
    exact ⟨iff_of_true placed.stands trivial, fun _ => placed⟩
  | patchAt p off =>
    obtain ⟨s', e, patched, offset, iff, placed⟩ := h.patchAt_returns p off
    rw [Call.run, patched, Stands, offset]
    exact ⟨iff, placed⟩

/-- The bytes that a write accepts are put right behind those that the offset counts, and are counted. -/
def Lands (start : Nat) (s : SeekSink φ) : Call → Prop
  | .write p =>
    (content s.file).Laid (start + Sink.offset s) (p.take (Writer.write s p).count)
        (content (Writer.write s p).out.file) ∧
      Sink.offset (Writer.write s p).out = Sink.offset s + (Writer.write s p).count
  | .patchAt .. => True

private theorem Placed.lands (h : s.Placed start n) (c : Call) : s.Lands start c := by
  cases c with
  | write p =>
    obtain ⟨s', k, e, written, placed, laid⟩ := h.write p
    rw [Lands, written, h.offset_eq, placed.offset_eq]
    exact ⟨laid, rfl⟩
  | patchAt p off => trivial

end Steps

section Runs

variable {φ : Type} [SeekableFile φ] [RandomAccess φ] {s : SeekSink φ} {start n : Nat}

/-- The file stands where the offset says before, between and after the calls. -/
def Standing (start : Nat) : SeekSink φ → List Call → Prop
  | s, [] => s.Stands start
  | s, c :: rest => s.Stands start ∧ Standing start (c.run s).out rest

instance decidableStanding : (s : SeekSink φ) → DecidablePred (Standing start s)
  | s, [] => inferInstanceAs (Decidable (s.Stands start))
  | s, c :: rest =>
    have := decidableStanding (c.run s).out rest
    inferInstanceAs (Decidable (s.Stands start ∧ Standing start (c.run s).out rest))

theorem Standing.stands {calls : List Call} (h : Standing start s calls) : s.Stands start := by
  cases calls with
  | nil => exact h
  | cons c rest => exact h.1

/-- The file stands right all along just if every patch returns, by induction on the calls. -/
theorem standing_iff {calls : List Call} (h : s.Placed start n) : Standing start s calls ↔ Along Returns s calls := by
  induction calls generalizing s n with
  | nil => exact iff_of_true h.stands trivial
  | cons c rest ih =>
    obtain ⟨iff, placed⟩ := h.run c
    rw [Standing, Along, and_iff_right h.stands, ← iff]
    constructor
    · intro standing
      exact ⟨standing.stands, (ih (placed standing.stands)).mp standing⟩
    · intro returned
      exact (ih (placed returned.1)).mpr returned.2

/-- As long as the file stands right, each write lands where it should. -/
theorem lands_of_standing {calls : List Call} (h : s.Placed start n) (standing : Standing start s calls) :
    Along (Lands start) s calls := by
  induction calls generalizing s n with
  | nil => trivial
  | cons c rest ih =>
    have placed := (h.run c).2 standing.2.stands
    exact ⟨h.lands c, ih placed standing.2⟩

/-- The file of a sink stands where the offset says before, between and after any calls, just if each patch with a write
that fails has come to the end of what was written. As long as it does, writes go on behind what was written. -/
theorem create_standing {file : φ} (works : Works file) (here : position file = start) (room : start ≤ capacity φ) :
    ∃ opened sink, create file = (opened, .ok sink) ∧ ∀ calls : List Call,
      (Standing start sink calls ↔ Along Returns sink calls) ∧
      (Standing start sink calls → Along (Lands start) sink calls) := by
  obtain ⟨opened, sink, created, placed⟩ := create_placed works here room
  refine ⟨opened, sink, created, ?_⟩
  intro calls
  exact ⟨standing_iff placed, lands_of_standing placed⟩

/-- As `narrowFile`, but the third write fails. -/
def faultyFile : MemoryFile := { narrowFile with failingWrite := some 3 }

/-- A patch of nothing at the end fails, and of the last write two bytes fit on the device. -/
theorem create_standing_faultyFile : ∃ opened sink, create faultyFile = (opened, .ok sink) ∧
    Standing 2 sink [.write "hello", .patchAt "J" 0, .patchAt "" 5, .write "more"] := by
  have works : Works faultyFile := rfl
  obtain ⟨opened, sink, created, standing⟩ := create_standing works rfl (by decide +kernel)
  have same : create faultyFile = (_, .ok ⟨{ faultyFile with seeks := 1 }, 2, 0, 0⟩) := rfl
  obtain ⟨-, made⟩ := Prod.mk.inj (created.symm.trans same)
  obtain rfl := Except.ok.inj made
  exact ⟨opened, _, created, (standing _).1.mpr (by decide +kernel)⟩

/-- A patch in the middle fails. The next write puts its byte over one of those before, but counts it as one more. -/
theorem faultyFile_overwritten : ∃ opened sink, create faultyFile = (opened, .ok sink) ∧
    ¬ Standing 2 sink [.write "hello", .patchAt "J" 0, .patchAt "L" 3] ∧
    (Call.after sink [.write "hello", .patchAt "J" 0, .patchAt "L" 3, .write "!"]).file.data = "abJel!o" ∧
    Sink.offset (Call.after sink [.write "hello", .patchAt "J" 0, .patchAt "L" 3, .write "!"]) = 6 := by
  exact ⟨_, ⟨{ faultyFile with seeks := 1 }, 2, 0, 0⟩, rfl, by decide +kernel,
    ByteArray.ext (by decide +kernel), by decide +kernel⟩

end Runs

end SeekSink

end CoffWorks
