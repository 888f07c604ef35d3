import CoffWorks.Proofs.Sink.BufferLike

namespace CoffWorks

namespace Sink

inductive Call where
  | write (p : Bytes)
  | patchAt (p : Bytes) (off : Int64)

namespace Call

/-- The range of a patch can be counted in 64 bits. -/
def Bounded : Call → Prop
  | write _ => True
  | patchAt p off => off.toInt + p.size ≤ 2 ^ 63 - 1

instance : DecidablePred Bounded
  | write _ => isTrue trivial
  | patchAt .. => inferInstanceAs (Decidable (_ ≤ _))

/-- Make the call; a patch has no count. -/
def run {σ : Type} [Sink σ] (s : σ) : Call → Stored σ
  | write p => Writer.write s p
  | patchAt p off => { out := (Sink.patchAt s p off).1, count := 0, failure := (Sink.patchAt s p off).2 }

/-- The same call succeeds on both sinks and counts the same, or it fails on both and changes neither. -/
def SameOutcome {σ τ : Type} [Sink σ] [Sink τ] (c : Call) (s : σ) (t : τ) : Prop :=
  ((c.run s).failure = none ∧ (c.run t).failure = none ∧ (c.run s).count = (c.run t).count) ∨
    ((c.run s).failure ≠ none ∧ (c.run t).failure ≠ none ∧ (c.run s).out = s ∧ (c.run t).out = t)

end Call

end Sink

/-- A seekable file that can be moved within its content, and whose writes tell how much they have
stored. A write that stores less than it was given fails. -/
class HonestFile (φ : Type) [SeekableFile φ] where
  capacity : Nat
  /-- The file holds `b` and stands at `pos`. -/
  Holds : φ → Bytes → Nat → Prop
  capacity_lt : capacity < 2 ^ 63
  size_le : ∀ {file b pos}, Holds file b pos → b.size ≤ capacity
  write_stores : ∀ {file b pos} (p : Bytes), Holds file b pos → pos ≤ b.size →
    ∃ file' k e, Writer.write file p = ⟨file', k, e⟩ ∧ k ≤ p.size ∧ (e = none → k = p.size) ∧
      Holds file' (b.overwrite pos (p.take k)) (pos + k)
  seek_start : ∀ {file b pos} (target : Nat), Holds file b pos → target ≤ b.size →
    ∃ file', SeekableFile.seek file (.start (.ofNat target)) = (file', .ok (.ofNat target)) ∧
      Holds file' b target
  seek_current : ∀ {file b pos}, Holds file b pos →
    ∃ file', SeekableFile.seek file (.current 0) = (file', .ok (.ofNat pos)) ∧ Holds file' b pos

namespace SeekSink

open Sink

section Calls

variable {φ : Type} [SeekableFile φ]

/-- What the call writes to the file is stored. A patch outside of the written bytes writes nothing. -/
def Stores (s : SeekSink φ) : Call → Prop
  | .write p => (Writer.write s.file p).failure = none
  | .patchAt p off => 0 ≤ off.toInt → off.toInt + p.size ≤ s.size.toInt →
    (Writer.write (SeekableFile.seek s.file (.start (s.base + off))).1 p).failure = none

/-- As `Stores`, but only for patches. -/
def PatchStores (s : SeekSink φ) : Call → Prop
  | .write _ => True
  | .patchAt p off => s.Stores (.patchAt p off)

/-- The condition holds for each of the calls when it is made. -/
def Along (condition : SeekSink φ → Call → Prop) : SeekSink φ → List Call → Prop
  | _, [] => True
  | s, c :: rest => condition s c ∧ Along condition (c.run s).out rest

instance (s : SeekSink φ) : DecidablePred s.Stores
  | .write _ => inferInstanceAs (Decidable (_ = none))
  | .patchAt .. => inferInstanceAs (Decidable (_ → _ → _ = none))

instance (s : SeekSink φ) : DecidablePred s.PatchStores
  | .write _ => isTrue trivial
  | .patchAt p off => inferInstanceAs (Decidable (s.Stores (.patchAt p off)))

instance decidableAlong (condition : SeekSink φ → Call → Prop) [∀ s, DecidablePred (condition s)] :
    (s : SeekSink φ) → DecidablePred (Along condition s)
  | _, [] => isTrue trivial
  | s, c :: rest =>
    have := decidableAlong condition (c.run s).out rest
    inferInstanceAs (Decidable (condition s c ∧ Along condition (c.run s).out rest))

/-- What the file stores of a call. -/
def received (s : SeekSink φ) : Call → Call
  | .write p => .write (p.take (Writer.write s.file p).count)
  | .patchAt p off => .patchAt p off

end Calls

section Agreement

variable {φ : Type} [SeekableFile φ] [HonestFile φ]

/-- Both sinks have the same offset. The file holds `before` and then the bytes of the sink in memory, and
it stands behind as many of these as the offset says. -/
structure Agrees (before : Bytes) (s : SeekSink φ) (t : Staging) : Prop where
  offset_eq : Sink.offset s = Sink.offset t
  file_holds : HonestFile.Holds s.file (before ++ t.data) (before.size + Sink.offset s)

/-- The sinks agree before, between and after the calls, and each call has the same outcome. -/
def InStep (before : Bytes) : SeekSink φ → Staging → List Call → Prop
  | s, t, [] => Agrees before s t
  | s, t, c :: rest => Agrees before s t ∧ c.SameOutcome s t ∧ InStep before (c.run s).out (c.run t).out rest

/-- The sinks agree before, between and after the calls, where the one in memory is given what the file
has stored. -/
def InStepStored (before : Bytes) : SeekSink φ → Staging → List Call → Prop
  | s, t, [] => Agrees before s t
  | s, t, c :: rest => Agrees before s t ∧ InStepStored before (c.run s).out ((s.received c).run t).out rest

/-- The sinks agree, and the counts of the one on the file are right. -/
structure Tracks (before : Bytes) (s : SeekSink φ) (t : Staging) : Prop where
  file_holds : HonestFile.Holds s.file (before ++ t.data) (before.size + t.data.size)
  base_eq : s.base = .ofNat before.size
  pos_eq : s.pos = .ofNat t.data.size
  size_eq : s.size = .ofNat t.data.size

variable {before : Bytes} {s : SeekSink φ} {t : Staging}

theorem Tracks.size_lt (h : Tracks before s t) : before.size + t.data.size < 2 ^ 63 := by
  have fits := HonestFile.size_le h.file_holds
  rw [ByteArray.size_append] at fits
  exact Nat.lt_of_le_of_lt fits HonestFile.capacity_lt

theorem Tracks.agrees (h : Tracks before s t) : Agrees before s t := by
  have small := h.size_lt
  have offset : Sink.offset s = t.data.size := by
    change s.pos.toInt.toNat = t.data.size
    rw [h.pos_eq, Int64.toInt_ofNat_of_lt (by omega), Int.toNat_natCast]
  refine ⟨offset, ?_⟩
  rw [offset]
  exact h.file_holds

private theorem create_tracks {file : φ} (h : HonestFile.Holds file before before.size) :
    ∃ opened sink, create file = (opened, .ok sink) ∧ Tracks before sink {} := by
  obtain ⟨opened, tell, holds⟩ := HonestFile.seek_current h
  refine ⟨opened, { file := opened, base := .ofNat before.size }, ?_, ?_, rfl, rfl, rfl⟩
  · rw [create, tell]
    rfl
  · simpa using holds

/-- A write moves on by what the file has stored. -/
theorem Tracks.write (h : Tracks before s t) (p : Bytes) : ∃ s' k e, Writer.write s p = ⟨s', k, e⟩ ∧
    (Writer.write s.file p).count = k ∧ (Writer.write s.file p).failure = e ∧ (e = none → k = p.size) ∧
      Tracks before s' (t.write (p.take k)) := by
  obtain ⟨file, base, pos, size⟩ := s
  obtain ⟨holds, rfl, rfl, rfl⟩ := h
  obtain ⟨file', k, e, stored, part, whole, holds'⟩ := HonestFile.write_stores p holds (by simp)
  have taken : (p.take k).size = k := by
    rw [Bytes.size_take]
    exact Nat.min_eq_left part
  have content : (before ++ t.data).overwrite (before.size + t.data.size) (p.take k) =
      before ++ (t.write (p.take k)).data := by
    rw [← ByteArray.size_append, Bytes.overwrite_size, ByteArray.append_assoc]
    rfl
  have counted : t.data.size + k = (t.write (p.take k)).data.size := by
    rw [Staging.write, ByteArray.size_append, taken]
  rw [content, Nat.add_assoc, counted] at holds'
  have small : t.data.size + k < 2 ^ 63 := by
    have fits := HonestFile.size_le holds'
    have capacity := HonestFile.capacity_lt (φ := φ)
    rw [ByteArray.size_append, ← counted] at fits
    omega
  have same := congrArg Int64.ofNat counted
  refine ⟨_, k, e, write_eq stored small, ?_, ?_, whole, holds', rfl, same, same⟩
  · rw [stored]
  · rw [stored]

/-- A patch is inside of the `n` bytes that were written, or refused by the check of either sink. -/
theorem patch_cases {p : Bytes} {off : Int64} (bounded : (Call.patchAt p off).Bounded) (n : Nat) :
    (∃ pos : Nat, off = .ofNat pos ∧ pos + p.size ≤ n) ∨ off < 0 ∨ (off + .ofNat p.size).toInt > n := by
  by_cases negative : off < 0
  · exact .inr (.inl negative)
  · rw [Int64.lt_iff_toInt_lt, Int64.toInt_zero, not_lt] at negative
    have below := off.toInt_lt
    obtain ⟨pos, start⟩ := Int.eq_ofNat_of_zero_le negative
    have same : off = .ofNat pos := by
      apply Int64.toInt_inj.mp
      rw [Int64.toInt_ofNat_of_lt (by omega), start]
    rw [Call.Bounded, start] at bounded
    by_cases inside : pos + p.size ≤ n
    · exact .inl ⟨pos, same, inside⟩
    · refine .inr (.inr ?_)
      rw [same, ← Int64.ofNat_add, Int64.toInt_ofNat_of_lt (by omega)]
      omega

/-- A patch inside of what was written changes both sinks alike. -/
theorem Tracks.patchAt_inside (h : Tracks before s t) {p : Bytes} {pos : Nat} (inside : pos + p.size ≤ t.data.size)
    (stores : s.Stores (.patchAt p (.ofNat pos))) : ∃ s', Sink.patchAt s p (.ofNat pos) = (s', none) ∧
      Tracks before s' ⟨t.data.overwrite pos p⟩ := by
  have small := h.size_lt
  obtain ⟨file, base, at', size⟩ := s
  obtain ⟨holds, rfl, rfl, rfl⟩ := h
  have kept : (t.data.overwrite pos p).size = t.data.size := Bytes.size_overwrite t.data p pos inside
  have content : (before ++ t.data).overwrite (before.size + pos) p = before ++ t.data.overwrite pos p :=
    Bytes.overwrite_append before t.data p pos
  obtain ⟨there, seek, holds⟩ := HonestFile.seek_start (before.size + pos) holds (by simp; omega)
  obtain ⟨written, k, e, stored, -, whole, holds⟩ := HonestFile.write_stores p holds (by simp; omega)
  rw [Int64.ofNat_add] at seek
  have unfailing : e = none := by
    have condition := stores (by rw [Int64.toInt_ofNat_of_lt (by omega)]; omega)
      (by rw [Int64.toInt_ofNat_of_lt (by omega), Int64.toInt_ofNat_of_lt (by omega)]; omega)
    simpa only [seek, stored] using condition
  subst unfailing
  rw [Bytes.take_of_size_le (Nat.le_of_eq (whole rfl).symm), content] at holds
  obtain ⟨back, return', holds⟩ := HonestFile.seek_start (before.size + t.data.size) holds (by simp [kept])
  rw [Int64.ofNat_add] at return'
  rw [← kept] at holds
  have counted : Int64.ofNat t.data.size = Int64.ofNat (t.data.overwrite pos p).size := by rw [kept]
  exact ⟨_, patchAt_eq inside (by omega) seek stored return', holds, rfl, counted, counted⟩

/-- A patch that is outside is refused by both sinks. -/
theorem Tracks.patchAt_outside (h : Tracks before s t) {p : Bytes} {off : Int64}
    (outside : off < 0 ∨ (off + .ofNat p.size).toInt > t.data.size) :
    ∃ e e', Sink.patchAt s p off = (s, some e) ∧ Sink.patchAt t p off = (t, some e') := by
  have small := h.size_lt
  have refused : off < 0 ∨ off + .ofNat p.size > s.size := by
    rwa [h.size_eq, gt_iff_lt, Int64.lt_iff_toInt_lt, Int64.lt_iff_toInt_lt, Int64.toInt_ofNat_of_lt (by omega),
      ← Int64.lt_iff_toInt_lt]
  exact ⟨_, _, if_pos refused, if_pos outside⟩

/-- A patch has the same outcome on both sinks. -/
theorem Tracks.patchAt (h : Tracks before s t) {p : Bytes} {off : Int64} (bounded : (Call.patchAt p off).Bounded)
    (stores : s.Stores (.patchAt p off)) : (Call.patchAt p off).SameOutcome s t ∧
      Tracks before ((Call.patchAt p off).run s).out ((Call.patchAt p off).run t).out := by
  have small := h.size_lt
  rcases patch_cases bounded t.data.size with ⟨pos, rfl, inside⟩ | outside
  · obtain ⟨s', patched, tracks⟩ := h.patchAt_inside inside stores
    have patched' : Sink.patchAt t p (.ofNat pos) = (⟨t.data.overwrite pos p⟩, none) :=
      Staging.patchAt_eq t p inside (by omega)
    refine ⟨.inl ?_, ?_⟩
    · simp [Call.run, patched, patched']
    · simpa only [Call.run, patched, patched'] using tracks
  · obtain ⟨e, e', refused, refused'⟩ := h.patchAt_outside outside
    refine ⟨.inr ?_, ?_⟩
    · simp [Call.run, refused, refused']
    · simpa only [Call.run, refused, refused'] using h

/-- A write has the same outcome on both sinks if all of it is stored. -/
theorem Tracks.write_whole (h : Tracks before s t) {p : Bytes} (stores : s.Stores (.write p)) :
    (Call.write p).SameOutcome s t ∧ Tracks before ((Call.write p).run s).out ((Call.write p).run t).out := by
  obtain ⟨s', k, e, written, -, failure, whole, tracks⟩ := h.write p
  have unfailing : e = none := failure.symm.trans stores
  subst unfailing
  obtain rfl := whole rfl
  rw [Bytes.take_of_size_le (Nat.le_refl _)] at tracks
  refine ⟨.inl ?_, ?_⟩
  · rw [Call.run, written]
    exact ⟨rfl, rfl, rfl⟩
  · rw [Call.run, written]
    exact tracks

/-- Sinks that agree stay in step, by induction on the calls. -/
private theorem inStep_of_tracks {calls : List Call} (h : Tracks before s t) (bounded : ∀ c ∈ calls, c.Bounded)
    (stores : Along Stores s calls) : InStep before s t calls := by
  induction calls generalizing s t with
  | nil => exact h.agrees
  | cons c rest ih =>
    obtain ⟨stored, others⟩ := stores
    rw [List.forall_mem_cons] at bounded
    have step : c.SameOutcome s t ∧ Tracks before (c.run s).out (c.run t).out := by
      cases c with
      | write p => exact h.write_whole stored
      | patchAt p off => exact h.patchAt bounded.1 stored
    exact ⟨h.agrees, step.1, ih step.2 bounded.2 others⟩

private theorem inStepStored_of_tracks {calls : List Call} (h : Tracks before s t) (bounded : ∀ c ∈ calls, c.Bounded)
    (stores : Along PatchStores s calls) : InStepStored before s t calls := by
  induction calls generalizing s t with
  | nil => exact h.agrees
  | cons c rest ih =>
    obtain ⟨stored, others⟩ := stores
    rw [List.forall_mem_cons] at bounded
    have step : Tracks before (c.run s).out ((s.received c).run t).out := by
      cases c with
      | write p =>
        obtain ⟨s', k, e, written, count, -, -, tracks⟩ := h.write p
        simp only [Call.run, received, written, count]
        exact tracks
      | patchAt p off => exact (h.patchAt bounded.1 stored).2
    exact ⟨h.agrees, ih step bounded.2 others⟩

/-- A sink at the end of a file is the same as the sink in memory: for any calls of which all that they
write is stored, and for any calls at all if the sink in memory is given what the file has stored of each
write. -/
theorem create_inStep {file : φ} (h : HonestFile.Holds file before before.size) :
    ∃ opened sink, create file = (opened, .ok sink) ∧ ∀ calls : List Call, (∀ c ∈ calls, c.Bounded) →
      (Along Stores sink calls → InStep before sink {} calls) ∧
      (Along PatchStores sink calls → InStepStored before sink {} calls) := by
  obtain ⟨opened, sink, created, tracks⟩ := create_tracks h
  refine ⟨opened, sink, created, ?_⟩
  intro calls bounded
  exact ⟨inStep_of_tracks tracks bounded, inStepStored_of_tracks tracks bounded⟩

end Agreement

end SeekSink

namespace MemoryFile

theorem room_le (f : MemoryFile) (n : Nat) : f.room n ≤ n := by
  unfold room
  cases f.limit with
  | none => exact Nat.le_refl n
  | some l => exact Nat.min_le_left ..

/-- Some first part of a write is stored, all of it unless the write fails. -/
theorem write_stores {f : MemoryFile} (p : Bytes) {pos : Nat} (hp : f.pos = .ofNat pos) (inside : pos ≤ f.data.size)
    (fits : f.data.size ≤ Buffer.maxCapacity) : ∃ k e,
      f.write p = ⟨{ f with data := f.data.overwrite pos (p.take k), pos := .ofNat (pos + k)
                            writes := f.writes + 1 }, k, e⟩ ∧
        k ≤ p.size ∧ (e = none → k = p.size) ∧ (k = 0 ∨ pos + k ≤ Buffer.maxCapacity) := by
  have bound := Buffer.maxCapacity_lt
  have start : f.pos.toInt = pos := by rw [hp, Int64.toInt_ofNat_of_lt (by omega)]
  have nothing : p.take 0 = .empty := ByteArray.size_eq_zero_iff.mp (by simp [Bytes.size_take])
  have unchanged : { f with writes := f.writes + 1 } =
      { f with data := f.data.overwrite pos (p.take 0), pos := .ofNat (pos + 0), writes := f.writes + 1 } := by
    rw [nothing, Bytes.overwrite_empty inside, hp]
    rfl
  have part := f.room_le p.size
  by_cases planned : f.failingWrite = some (f.writes + 1)
  · refine ⟨0, some .diskFull, (if_pos planned).trans ?_, Nat.zero_le _, by simp, .inl rfl⟩
    rw [unchanged]
  · by_cases beyond : f.room p.size > 0 ∧ (f.pos < 0 ∨ f.pos.toInt + f.room p.size > Buffer.maxCapacity)
    · refine ⟨0, some .trap, (if_neg planned).trans ((if_pos beyond).trans ?_), Nat.zero_le _, by simp, .inl rfl⟩
      rw [unchanged]
    · have stored := store_eq { f with writes := f.writes + 1 } (p.take (f.room p.size)) hp inside (by omega)
      have taken : (p.take (f.room p.size)).size = f.room p.size := by
        rw [Bytes.size_take]
        exact Nat.min_eq_left part
      rw [taken] at stored
      refine ⟨f.room p.size, if f.room p.size < p.size then some .diskFull else none,
        (if_neg planned).trans ((if_neg beyond).trans ?_), part, ?_, ?_⟩
      · rw [← stored]
        rfl
      · intro none
        rw [ite_eq_right_iff] at none
        by_contra less
        exact absurd (none (by omega)) (by simp)
      · rw [start] at beyond
        omega

instance : HonestFile MemoryFile where
  capacity := Buffer.maxCapacity
  Holds f b pos := f.failingSeek = none ∧ f.data = b ∧ f.pos = .ofNat pos ∧ b.size ≤ Buffer.maxCapacity
  capacity_lt := Buffer.maxCapacity_lt
  size_le := fun h => h.2.2.2
  write_stores := by
    intro f b pos p h inside
    obtain ⟨seeks, rfl, hp, fits⟩ := h
    obtain ⟨k, e, stored, part, whole, room⟩ := write_stores p hp inside fits
    refine ⟨_, k, e, stored, part, whole, seeks, rfl, rfl, ?_⟩
    rw [Bytes.overwrite_eq]
    simp only [ByteArray.size_append, ByteArray.size_extract, Bytes.size_take]
    omega
  seek_start := by
    intro f b pos target h inside
    obtain ⟨seeks, rfl, hp, fits⟩ := h
    exact ⟨_, seek_eq seeks _ rfl, seeks, rfl, rfl, fits⟩
  seek_current := by
    intro f b pos h
    obtain ⟨seeks, rfl, hp, fits⟩ := h
    exact ⟨_, seek_eq seeks _ (by simpa using hp), seeks, rfl, rfl, fits⟩

end MemoryFile

namespace SeekSink

open Sink

/-- A file with two bytes on a device for nine. -/
def narrowFile : MemoryFile := { data := "ab", pos := 2, limit := some 9 }

/-- Patches at the start, across the end and of nothing at the end. -/
def fittingCalls : List Call := [.write "hello", .patchAt "J" 0, .patchAt "zz" 4, .patchAt "" 5, .patchAt "q" (-1)]

/-- Only two of the four bytes fit on the device, and these are overwritten. -/
def overfullCalls : List Call := fittingCalls ++ [.write "more", .patchAt "MO" 5, .patchAt "MORE" 5]

/-- The sinks hold the same while everything fits, and also when only a part of a write does. -/
theorem create_inStep_narrowFile : ∃ opened sink, create narrowFile = (opened, .ok sink) ∧
    InStep "ab" sink {} fittingCalls ∧ InStepStored "ab" sink {} overfullCalls := by
  have holds : HonestFile.Holds narrowFile "ab" 2 := ⟨rfl, rfl, rfl, by decide +kernel⟩
  obtain ⟨opened, sink, created, inStep⟩ := create_inStep holds
  have same : create narrowFile = ({ narrowFile with seeks := 1 }, .ok ⟨{ narrowFile with seeks := 1 }, 2, 0, 0⟩) := rfl
  obtain ⟨-, made⟩ := Prod.mk.inj (created.symm.trans same)
  obtain rfl := Except.ok.inj made
  exact ⟨opened, _, created, (inStep fittingCalls (by decide +kernel)).1 (by decide +kernel),
    (inStep overfullCalls (by decide +kernel)).2 (by decide +kernel)⟩

end SeekSink

end CoffWorks
