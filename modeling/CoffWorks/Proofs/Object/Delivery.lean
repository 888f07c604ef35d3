import CoffWorks.Proofs.Bytes.Slice
import CoffWorks.Proofs.Object.Acceptance
import CoffWorks.Proofs.Sink.BufferLike

namespace CoffWorks

open Bytes

namespace Step

variable {σ : Type} [Sink σ] {Holds Left : σ → Bytes → Prop} {capacity : Nat}

/-- Performed one after the other, the steps come to one that fails with the given failure. -/
inductive FailsAt (base : Nat) : σ → List Step → σ → Failure → Prop
  | here {sink after : σ} {step : Step} {e : Failure} (rest : List Step)
      (fails : step.run base sink = (after, some e)) : FailsAt base sink (step :: rest) after e
  | later {sink next after : σ} {step : Step} {rest : List Step} {e : Failure}
      (runs : step.run base sink = (next, none)) (fails : FailsAt base next rest after e) :
      FailsAt base sink (step :: rest) after e

theorem FailsAt.runAll_eq {base : Nat} {sink after : σ} {steps : List Step} {e : Failure}
    (h : FailsAt base sink steps after e) : runAll base sink steps = (after, some e) := by
  induction h with
  | here rest fails => rw [runAll, fails]
  | later runs _ ih =>
    rw [runAll, runs]
    exact ih

/-- Some first part of the steps makes `c` of `b`. -/
def Reaches (b : Bytes) (steps : List Step) (c : Bytes) : Prop :=
  ∃ done rest, steps = done ++ rest ∧ done.foldlM apply b = some c

theorem Reaches.refl (b : Bytes) (steps : List Step) : Reaches b steps b := ⟨[], steps, rfl, rfl⟩

theorem Reaches.cons {step : Step} {steps : List Step} {b c d : Bytes} (hs : step.apply b = some c)
    (h : Reaches c steps d) : Reaches b (step :: steps) d := by
  obtain ⟨done, rest, rfl, hd⟩ := h
  refine ⟨step :: done, rest, rfl, ?_⟩
  rw [List.foldlM_cons, hs]
  exact hd

theorem foldlM_cons_eq_some {step : Step} {rest : List Step} {b d : Bytes} :
    (step :: rest).foldlM apply b = some d ↔ ∃ c, step.apply b = some c ∧ rest.foldlM apply c = some d := by
  simp [Option.bind_eq_some_iff]

theorem apply_append {data b c : Bytes} : (append data).apply b = some c ↔ b ++ data = c := by
  simp [apply]

theorem apply_patch {position : Nat} {data b c : Bytes} : (patch position data).apply b = some c ↔
    (position + data.size ≤ b.size ∧ b.size < UInt32.size) ∧ b.overwrite position data = c := by
  simp [apply]

private theorem size_le_of_apply {step : Step} {b c : Bytes} (h : step.apply b = some c) : b.size ≤ c.size := by
  cases step with
  | append data =>
    obtain rfl := apply_append.mp h
    simp
  | patch position data =>
    obtain ⟨⟨inside, -⟩, rfl⟩ := apply_patch.mp h
    rw [size_overwrite _ _ _ inside]

theorem size_le_of_foldlM {steps : List Step} {b d : Bytes} (h : steps.foldlM apply b = some d) :
    b.size ≤ d.size := by
  induction steps generalizing b with
  | nil =>
    obtain rfl : b = d := by simpa using h
    exact Nat.le_refl _
  | cons step rest ih =>
    obtain ⟨c, hc, hd⟩ := foldlM_cons_eq_some.mp h
    exact Nat.le_trans (size_le_of_apply hc) (ih hd)

/-- Pieces written one after the other. -/
theorem foldlM_append (chunks : List Bytes) (b : Bytes) :
    (chunks.map append).foldlM apply b = some (b ++ concat chunks) := by
  induction chunks generalizing b with
  | nil => simp
  | cons chunk rest ih =>
    rw [List.map_cons, foldlM_cons_eq_some]
    refine ⟨b ++ chunk, rfl, ?_⟩
    rw [ih, concat_cons, ByteArray.append_assoc]

/-- A step that fails leaves what was there, or a first part of what there would have been. -/
theorem run_cases (like : Sink.BufferLike Holds Left capacity) {sink : σ} {before b c : Bytes} {step : Step}
    (h : Holds sink (before ++ b)) (hs : step.apply b = some c) (room : before.size + c.size ≤ capacity) :
    (∃ after, step.run before.size sink = (after, none) ∧ Holds after (before ++ c)) ∨
      ∃ after e q k, step.run before.size sink = (after, some e) ∧ (q = b ∨ q = c) ∧
        Left after (before ++ q.take k) := by
  cases step with
  | append data =>
    obtain rfl := apply_append.mp hs
    rw [ByteArray.size_append] at room
    have fits : (before ++ b).size + data.size ≤ capacity := by
      rw [ByteArray.size_append]
      omega
    rcases like.write_cases data h fits with ⟨after, n, stored, holds⟩ | ⟨after, n, e, k, stored, left⟩
    · refine .inl ⟨after, by rw [run, stored], ?_⟩
      rwa [ByteArray.append_assoc] at holds
    · refine .inr ⟨after, e, b ++ data, b.size + k, by rw [run, stored], .inr rfl, ?_⟩
      rwa [take_size_add, ← ByteArray.append_assoc]
  | patch position data =>
    obtain ⟨⟨inside, -⟩, rfl⟩ := apply_patch.mp hs
    have fits : before.size + position + data.size ≤ (before ++ b).size := by
      rw [ByteArray.size_append]
      omega
    have place : (before ++ b).overwrite (before.size + position) data =
        before ++ b.overwrite position data := overwrite_append before b data position
    have cases := like.patch_cases data (before.size + position) h fits
    rw [Int64.ofNat_add, place] at cases
    rcases cases with patched | ⟨after, e, refused, left⟩
    · exact .inl patched
    · refine .inr ⟨after, e, b, b.size, refused, .inl rfl, ?_⟩
      rwa [take_of_size_le (Nat.le_refl _)]

/-- A script does to a sink what the steps say, up to the first call that fails. -/
theorem runAll_cases (like : Sink.BufferLike Holds Left capacity) {sink : σ} {before b d : Bytes}
    {steps : List Step} (h : Holds sink (before ++ b)) (hs : steps.foldlM apply b = some d)
    (room : before.size + d.size ≤ capacity) :
    (∃ after, runAll before.size sink steps = (after, none) ∧ Holds after (before ++ d)) ∨
      ∃ after e q k, FailsAt before.size sink steps after e ∧ Reaches b steps q ∧
        Left after (before ++ q.take k) := by
  induction steps generalizing sink b with
  | nil =>
    obtain rfl : b = d := by simpa using hs
    exact .inl ⟨sink, rfl, h⟩
  | cons step rest ih =>
    obtain ⟨c, hc, hd⟩ := foldlM_cons_eq_some.mp hs
    have grown := size_le_of_foldlM hd
    rcases run_cases like h hc (by omega) with ⟨next, runs, holds⟩ | ⟨after, e, q, k, fails, which, left⟩
    · rcases ih holds hd with ⟨after, all, holds⟩ | ⟨after, e, q, k, fails, reached, left⟩
      · refine .inl ⟨after, ?_, holds⟩
        rw [runAll, runs]
        exact all
      · exact .inr ⟨after, e, q, k, .later runs fails, reached.cons hc, left⟩
    · refine .inr ⟨after, e, q, k, .here rest fails, ?_, left⟩
      rcases which with rfl | rfl
      · exact .refl q _
      · exact (Reaches.refl q rest).cons hc

/-- On a sink that never fails, all steps are performed. -/
theorem runAll_steady (like : Sink.BufferLike Holds (fun _ _ => False) capacity) {sink : σ} {before d : Bytes}
    {steps : List Step} (h : Holds sink before) (hs : steps.foldlM apply .empty = some d)
    (room : before.size + d.size ≤ capacity) :
    ∃ after, runAll before.size sink steps = (after, none) ∧ Holds after (before ++ d) := by
  have start : Holds sink (before ++ .empty) := by rwa [ByteArray.append_empty]
  rcases runAll_cases like start hs room with done | ⟨_, _, _, _, _, _, impossible⟩
  · exact done
  · exact impossible.elim

end Step

namespace Script

variable {σ : Type} [Sink σ] {Holds Left : σ → Bytes → Prop} {capacity : Nat}

theorem run_of_runAll {s : Script} {sink after : σ}
    (h : Step.runAll (Sink.offset sink) sink s.steps.toList = (after, none)) :
    s.run sink = (after, s.failure) := by
  rw [run, h]

theorem run_of_failsAt {s : Script} {sink after : σ} {e : Failure}
    (h : Step.FailsAt (Sink.offset sink) sink s.steps.toList after e) : s.run sink = (after, some e) := by
  rw [run, h.runAll_eq]

theorem run_steady (like : Sink.BufferLike Holds (fun _ _ => False) capacity) {s : Script} {sink : σ}
    {before d : Bytes} (h : Holds sink before) (hs : s.steps.toList.foldlM Step.apply .empty = some d)
    (room : before.size + d.size ≤ capacity) :
    ∃ after, s.run sink = (after, s.failure) ∧ Holds after (before ++ d) := by
  obtain ⟨after, all, holds⟩ := Step.runAll_steady like h hs room
  rw [← like.offset_eq h] at all
  exact ⟨after, run_of_runAll all, holds⟩

end Script

namespace ObjectFile

/-- What a run comes to: the bytes that it wrote, or why it failed. -/
def outcome (written : Bytes) : Option Failure → Attempt Bytes
  | none => .ok written
  | some e => .error e

variable {f : ObjectFile} {p : Pool} {written : Bytes}

/-- In memory nothing fails but the script itself. -/
theorem bytes_eq_outcome (h : (Encode.script p f).steps.toList.foldlM Step.apply .empty = some written) :
    f.bytes p = outcome written (Encode.script p f).failure := by
  have all := Step.runAll_staging .empty .empty written _ h (by decide)
  have run : f.encode p ({} : Staging) = (⟨.empty ++ written⟩, (Encode.script p f).failure) :=
    Script.run_of_runAll all
  rw [ByteArray.empty_append] at run
  rw [bytes, bytes?, encode?, run]
  cases (Encode.script p f).failure <;> rfl

private theorem encode_staging_eq (h : (Encode.script p f).steps.toList.foldlM Step.apply .empty = some written)
    {before : Bytes} (small : before.size + written.size < 2 ^ 63) :
    f.encode p (⟨before⟩ : Staging) = (⟨before ++ written⟩, (Encode.script p f).failure) := by
  have start : (⟨before⟩ : Staging).Holds before := ⟨rfl, by omega⟩
  obtain ⟨⟨_⟩, run, rfl, -⟩ := Script.run_steady Staging.bufferLike start h (by omega)
  exact run

private theorem encode_seekSink_eq (h : (Encode.script p f).steps.toList.foldlM Step.apply .empty = some written)
    {φ : Type} [SeekableFile φ] [SteadyFile φ] {file : φ} {before : Bytes} {chunks : List Bytes}
    (holds : SteadyFile.Holds file before before.size)
    (room : before.size + ((concat chunks).size + written.size) ≤ SteadyFile.capacity φ) :
    ∃ opened sink ready after, SeekSink.create file = (opened, .ok sink) ∧
      Step.runAll 0 sink (chunks.map .append) = (ready, none) ∧
      f.encode p ready = (after, (Encode.script p f).failure) ∧
      SteadyFile.Holds after.file (before ++ (concat chunks ++ written))
        (before.size + ((concat chunks).size + written.size)) := by
  have like := SeekSink.bufferLike (φ := φ) before
  obtain ⟨opened, sink, created, fresh⟩ := SeekSink.create_holds holds
  have pieces := Step.foldlM_append chunks .empty
  rw [ByteArray.empty_append] at pieces
  obtain ⟨ready, all, holds⟩ := Step.runAll_steady like fresh pieces (by rw [ByteArray.size_empty]; omega)
  rw [ByteArray.empty_append] at holds
  obtain ⟨after, run, holds⟩ := Script.run_steady like holds h (by omega)
  refine ⟨opened, sink, ready, after, created, all, run, ?_⟩
  have final := holds.file_holds
  rwa [ByteArray.size_append] at final

/-- The encoder does not depend on where it writes to. There are bytes and perhaps a failure, those that
also result in memory, such that on every buffer and every file that never fails, these bytes follow what
was there before, which is kept, and the failure is returned. The file is at its end then. `chunks` are
written to the sink before the encoder starts. -/
theorem encode_anywhere (f : ObjectFile) (p : Pool) : ∃ written failure, f.bytes p = outcome written failure ∧
    (∀ before : Bytes, before.size + written.size < 2 ^ 63 →
      f.encode p (⟨before⟩ : Staging) = (⟨before ++ written⟩, failure)) ∧
    ∀ {φ : Type} [SeekableFile φ] [SteadyFile φ] (file : φ) (before : Bytes) (chunks : List Bytes),
      SteadyFile.Holds file before before.size →
      before.size + ((concat chunks).size + written.size) ≤ SteadyFile.capacity φ →
      ∃ opened sink ready after, SeekSink.create file = (opened, .ok sink) ∧
        Step.runAll 0 sink (chunks.map .append) = (ready, none) ∧
        f.encode p ready = (after, failure) ∧
        SteadyFile.Holds after.file (before ++ (concat chunks ++ written))
          (before.size + ((concat chunks).size + written.size)) := by
  obtain ⟨written, content, -⟩ := (Encode.script_runs p f).content
  refine ⟨written, (Encode.script p f).failure, bytes_eq_outcome content, ?_, ?_⟩
  · intro before small
    exact encode_staging_eq content small
  · intro φ _ _ file before chunks holds room
    exact encode_seekSink_eq content holds room

private theorem size_layout_sampleFile : (sampleFile.layout samplePool).size < 1000 := by decide +kernel

/-- The sample after other bytes in a buffer, and in a file to which something else was written by the
same sink. -/
theorem encode_sampleFile_anywhere :
    sampleFile.encode samplePool (⟨"older".toUTF8⟩ : Staging) =
      (⟨"older".toUTF8 ++ sampleFile.layout samplePool⟩, none) ∧
    ∃ opened sink ready after, SeekSink.create (MemoryFile.holding "older".toUTF8) = (opened, .ok sink) ∧
      Step.runAll 0 sink [.append "newer".toUTF8] = (ready, none) ∧
      sampleFile.encode samplePool ready = (after, none) ∧
      after.file.data = "older".toUTF8 ++ ("newer".toUTF8 ++ sampleFile.layout samplePool) := by
  have small := size_layout_sampleFile
  obtain ⟨written, failure, inMemory, staged, sunk⟩ := encode_anywhere sampleFile samplePool
  rw [sampleFile_bytes] at inMemory
  cases failure with
  | some e => cases inMemory
  | none =>
    obtain rfl : sampleFile.layout samplePool = written := Except.ok.inj inMemory
    have older : "older".toUTF8.size = 5 := rfl
    have newer : (concat ["newer".toUTF8]).size = 5 := rfl
    have capacity : SteadyFile.capacity MemoryFile = 0x1000000000000 := rfl
    refine ⟨staged _ (by omega), ?_⟩
    obtain ⟨opened, sink, ready, after, created, wrote, encoded, -, content, -⟩ :=
      sunk (MemoryFile.holding "older".toUTF8) _ ["newer".toUTF8] (MemoryFile.holding_holds (by decide))
        (by omega)
    exact ⟨opened, sink, ready, after, created, wrote, encoded, content⟩

end ObjectFile

end CoffWorks
