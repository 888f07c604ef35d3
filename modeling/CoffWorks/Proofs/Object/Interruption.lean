import CoffWorks.Proofs.Object.Draft

namespace CoffWorks

open Bytes

namespace Step

variable {σ : Type} [Sink σ] {Holds Left : σ → Bytes → Prop} {capacity limit : Nat} {sink : σ}
  {before b c d : Bytes}

private theorem run_of_fits (limits : Sink.Limits Holds limit) {step : Step} (h : Holds sink (before ++ b))
    (hs : step.apply b = some c) (fits : before.size + c.size ≤ limit) :
    (step.run before.size sink).2 = none := by
  cases step with
  | append data =>
    obtain rfl := apply_append.mp hs
    apply (limits.write_iff data h).mpr
    rw [ByteArray.size_append] at fits ⊢
    omega
  | patch position data =>
    obtain ⟨⟨inside, -⟩, rfl⟩ := apply_patch.mp hs
    have place : before.size + position + data.size ≤ (before ++ b).size := by
      rw [ByteArray.size_append]
      omega
    have accepted := limits.patch_none data (before.size + position) h place
    rw [Int64.ofNat_add] at accepted
    exact accepted

private theorem fits_of_run (limits : Sink.Limits Holds limit) {step : Step} (h : Holds sink (before ++ b))
    (hs : step.apply b = some c) (grows : b.size < c.size) (runs : (step.run before.size sink).2 = none) :
    before.size + c.size ≤ limit := by
  cases step with
  | append data =>
    obtain rfl := apply_append.mp hs
    have accepted := (limits.write_iff data h).mp runs
    rw [ByteArray.size_append] at accepted ⊢
    omega
  | patch position data =>
    obtain ⟨⟨inside, -⟩, rfl⟩ := apply_patch.mp hs
    rw [size_overwrite _ _ _ inside] at grows
    omega

/-- All steps are performed if what they make in the end is within the limit. -/
private theorem runAll_of_fits (like : Sink.BufferLike Holds Left capacity) (limits : Sink.Limits Holds limit)
    {steps : List Step} (h : Holds sink (before ++ b)) (hs : steps.foldlM apply b = some d)
    (room : before.size + d.size ≤ capacity) (fits : before.size + d.size ≤ limit) :
    (runAll before.size sink steps).2 = none := by
  induction steps generalizing sink b with
  | nil => rfl
  | cons step rest ih =>
    obtain ⟨c, hc, hd⟩ := foldlM_cons_eq_some.mp hs
    have le := size_le_of_foldlM hd
    have runs := run_of_fits limits h hc (by omega)
    rcases run_cases like h hc (by omega) with ⟨next, done, holds⟩ | ⟨_, _, _, _, failed, -⟩
    · rw [runAll, done]
      exact ih holds hd
    · rw [failed] at runs
      cases runs

/-- If something is appended at all, then the last time to the full size. -/
private theorem fits_of_runAll (like : Sink.BufferLike Holds Left capacity) (limits : Sink.Limits Holds limit)
    {steps : List Step} (h : Holds sink (before ++ b)) (hs : steps.foldlM apply b = some d)
    (room : before.size + d.size ≤ capacity) (grows : b.size < d.size)
    (runs : (runAll before.size sink steps).2 = none) : before.size + d.size ≤ limit := by
  induction steps generalizing sink b with
  | nil =>
    obtain rfl : b = d := by simpa using hs
    omega
  | cons step rest ih =>
    obtain ⟨c, hc, hd⟩ := foldlM_cons_eq_some.mp hs
    have le := size_le_of_foldlM hd
    rcases run_cases like h hc (by omega) with ⟨next, done, holds⟩ | ⟨after, e, _, _, failed, -⟩
    · rw [runAll, done] at runs
      by_cases more : c.size < d.size
      · exact ih holds hd more runs
      · have last := fits_of_run limits h hc (by omega) (by rw [done])
        omega
    · rw [runAll, failed] at runs
      cases runs

end Step

namespace ObjectFile

variable {σ : Type} [Sink σ] {Holds Left : σ → Bytes → Prop} {capacity limit : Nat} {sink : σ}
  {f : ObjectFile} {p : Pool} {before d : Bytes}

private theorem script_of_bytes (hd : f.bytes p = .ok d) : (Encode.script p f).failure = none ∧
    Step.MakesDrafts f.pointerFields (Encode.script p f).steps.toList d := by
  obtain ⟨c, rfl⟩ := bytes_eq_ok.mp hd
  have written := (Encode.script_produces p f).writes c
  obtain ⟨b, drafts, -⟩ := (Encode.script_drafts p f).content
  obtain rfl : f.layout p = b := Option.some.inj (written.content_eq.symm.trans drafts.1)
  exact ⟨written.failure_eq, drafts⟩

theorem encode_cases (like : Sink.BufferLike Holds Left capacity) (hd : f.bytes p = .ok d)
    (h : Holds sink before) (room : before.size + d.size ≤ capacity) :
    (∃ after, f.encode p sink = (after, none) ∧ Holds after (before ++ d)) ∨
      ∃ after e q, Step.FailsAt before.size sink (Encode.script p f).steps.toList after e ∧
        f.encode p sink = (after, some e) ∧ Left after (before ++ q) ∧ Draft f.pointerFields q d := by
  obtain ⟨success, content, drafts⟩ := script_of_bytes hd
  have start : Holds sink (before ++ .empty) := by rwa [ByteArray.append_empty]
  have base := like.offset_eq h
  rcases Step.runAll_cases like start content room with
    ⟨after, all, holds⟩ | ⟨after, e, q, k, fails, reached, left⟩
  · refine .inl ⟨after, ?_, holds⟩
    rw [← success]
    rw [← base] at all
    exact Script.run_of_runAll all
  · refine .inr ⟨after, e, q.take k, fails, ?_, left, (drafts q reached).take k⟩
    rw [← base] at fails
    exact Script.run_of_failsAt fails

/-- A sink with a limit fails just if the file does not fit. -/
private theorem encode_limited (like : Sink.BufferLike Holds Left capacity) (limits : Sink.Limits Holds limit)
    (hd : f.bytes p = .ok d) (h : Holds sink before) (room : before.size + d.size ≤ capacity) :
    (f.encode p sink).2 = none ↔ before.size + d.size ≤ limit := by
  obtain ⟨success, content, -⟩ := script_of_bytes hd
  have start : Holds sink (before ++ .empty) := by rwa [ByteArray.append_empty]
  have base := like.offset_eq h
  have result : (f.encode p sink).2 = none ↔
      (Step.runAll before.size sink (Encode.script p f).steps.toList).2 = none := by
    rw [encode, Script.run, base, success]
    rcases Step.runAll before.size sink (Encode.script p f).steps.toList with ⟨after, _ | e⟩ <;> simp
  rw [result]
  constructor
  · apply Step.fits_of_runAll like limits start content room
    -- a file has a header at least
    obtain ⟨-, rfl⟩ := bytes_eq_ok.mp hd
    rw [layout, ByteArray.size_append, FileHeader.size_encode, ByteArray.size_empty]
    exact Nat.lt_of_lt_of_le (by decide) (Nat.le_add_right _ _)
  · exact Step.runAll_of_fits like limits start content room

/-- A file that can be encoded is sent to a sink that is like a buffer. It gets there whole, or there is
a call that fails: its failure is returned, and what was in the sink before is followed by a draft of
the file. With a limit on its size, the sink takes the file exactly if it fits. -/
theorem encode_interrupted (like : Sink.BufferLike Holds Left capacity) (hd : f.bytes p = .ok d)
    (h : Holds sink before) (room : before.size + d.size ≤ capacity) :
    ((∃ after, f.encode p sink = (after, none) ∧ Holds after (before ++ d)) ∨
      ∃ after e q, Step.FailsAt before.size sink (Encode.script p f).steps.toList after e ∧
        f.encode p sink = (after, some e) ∧ Left after (before ++ q) ∧ Draft f.pointerFields q d) ∧
    ∀ limit, Sink.Limits Holds limit → ((f.encode p sink).2 = none ↔ before.size + d.size ≤ limit) := by
  refine ⟨encode_cases like hd h room, ?_⟩
  intro limit limits
  exact encode_limited like limits hd h room

/-- A buffer of 100 bytes is too small for the sample, and one of 1000 is not. -/
theorem encode_sampleFile_interrupted :
    (∃ after e q, sampleFile.encode samplePool
        ({ staging := ⟨"older".toUTF8⟩, limit := some 100 } : GuardedStaging) = (after, some e) ∧
      after.staging.data = "older".toUTF8 ++ q ∧
      Draft sampleFile.pointerFields q (sampleFile.layout samplePool)) ∧
    (sampleFile.encode samplePool
      ({ staging := ⟨"older".toUTF8⟩, limit := some 1000 } : GuardedStaging)).2 = none := by
  have older : "older".toUTF8.size = 5 := rfl
  have bounds : 100 < (sampleFile.layout samplePool).size ∧ (sampleFile.layout samplePool).size < 900 := by
    decide +kernel
  have holds (n : Int64) : GuardedStaging.Holds (some n) none
      { staging := ⟨"older".toUTF8⟩, limit := some n } "older".toUTF8 := ⟨⟨rfl, by decide⟩, rfl, rfl⟩
  have small := encode_interrupted GuardedStaging.bufferLike sampleFile_bytes (holds 100) (by omega)
  have large := encode_interrupted GuardedStaging.bufferLike sampleFile_bytes (holds 1000) (by omega)
  refine ⟨?_, ?_⟩
  · rcases small.1 with ⟨after, done, -⟩ | ⟨after, e, q, -, failed, left, draft⟩
    · have fits := (small.2 100 (GuardedStaging.limits (by decide))).mp (by rw [done])
      omega
    · exact ⟨after, e, q, failed, left, draft⟩
  · exact (large.2 1000 (GuardedStaging.limits (by decide))).mpr (by omega)

end ObjectFile

end CoffWorks
