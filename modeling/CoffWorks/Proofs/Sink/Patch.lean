import CoffWorks.Proofs.Bytes.Bounds
import CoffWorks.Proofs.Sink.Position

namespace CoffWorks

namespace Sink

variable {σ : Type}

/-- How many bytes the writes among the calls have accepted. -/
def Call.written [Sink σ] : σ → List Call → Nat
  | _, [] => 0
  | s, c :: rest => (c.run s).count + written (c.run s).out rest

/-- The range of a patch is inside of `n` bytes. -/
def Within (p : Bytes) (off : Int64) (n : Nat) : Prop := 0 ≤ off.toInt ∧ off.toInt + p.size ≤ n

instance (p : Bytes) (off : Int64) (n : Nat) : Decidable (Within p off n) := inferInstanceAs (Decidable (_ ∧ _))

/-- A patch is made just if it is inside of bounds. Otherwise it is refused, and then nothing is changed. -/
structure Atomic (s : σ) (inside : Prop) (Done : σ → Prop) (r : σ × Option Failure) : Prop where
  none_iff : r.2 = none ↔ inside
  done : r.2 = none → Done r.1
  kept : ∀ e, r.2 = some e → r.1 = s ∧ e ≠ .trap

private theorem atomic_made {s s' : σ} {inside : Prop} {Done : σ → Prop} (within : inside) (done : Done s') :
    Atomic s inside Done (s', none) :=
  ⟨iff_of_true rfl within, fun _ => done, by simp⟩

private theorem atomic_refused {s : σ} {inside : Prop} {Done : σ → Prop} {e : Failure} (outside : ¬ inside)
    (error : e ≠ .trap) : Atomic s inside Done (s, some e) := by
  refine ⟨iff_of_false (by simp) outside, by simp, ?_⟩
  intro e' same
  obtain rfl := Option.some.inj same
  exact ⟨rfl, error⟩

variable {p : Bytes} {off : Int64}

private theorem Call.Bounded.toInt_end (bounded : (Call.patchAt p off).Bounded) (start : 0 ≤ off.toInt) :
    (off + .ofNat p.size).toInt = off.toInt + p.size := by
  rw [Call.Bounded] at bounded
  rw [Int64.toInt_add, Int64.toInt_ofNat_of_lt (by omega), Int.bmod_eq_of_le (by omega) (by omega)]

theorem Call.Bounded.not_within (bounded : (Call.patchAt p off).Bounded) {n : Nat}
    (outside : off < 0 ∨ (off + .ofNat p.size).toInt > n) : ¬ Within p off n := by
  intro within
  obtain ⟨start, inside⟩ := within
  rw [bounded.toInt_end start, Int64.lt_iff_toInt_lt, Int64.toInt_zero] at outside
  omega

end Sink

namespace Staging

open Sink

/-- The bytes from `off` on are those of `p`, and all others are as before. -/
def Overlaid (p : Bytes) (off : Int64) (s s' : Staging) : Prop :=
  s.data.Laid off.toInt.toNat p s'.data ∧ s'.data.size = s.data.size

variable {s : Staging}

private theorem size_run (s : Staging) (c : Call) : (c.run s).out.data.size = s.data.size + (c.run s).count := by
  cases c with
  | write p => exact ByteArray.size_append
  | patchAt p off =>
    change (s.patchAt p off).1.data.size = s.data.size
    rw [patchAt]
    split_ifs with outside inside
    · rfl
    · exact Bytes.size_overwrite _ _ _ inside
    · rfl

/-- A sink in memory holds as many bytes as were accepted. -/
theorem size_after (s : Staging) (calls : List Call) :
    (Call.after s calls).data.size = s.data.size + Call.written s calls := by
  induction calls generalizing s with
  | nil => rfl
  | cons c rest ih =>
    have later := ih (c.run s).out
    rw [size_run] at later
    rw [Call.written, ← Nat.add_assoc]
    exact later

theorem patchAt_atomic (small : s.data.size < 2 ^ 63) {p : Bytes} {off : Int64}
    (bounded : (Call.patchAt p off).Bounded) :
    Atomic s (Within p off s.data.size) (s.Overlaid p off) (Sink.patchAt s p off) := by
  rcases SeekSink.patch_cases bounded s.data.size with ⟨pos, rfl, inside⟩ | outside
  · have start : (Int64.ofNat pos).toInt = pos := Int64.toInt_ofNat_of_lt (by omega)
    have patched : Sink.patchAt s p (.ofNat pos) = (⟨s.data.overwrite pos p⟩, none) := patchAt_eq s p inside small
    rw [patched]
    apply atomic_made
    · rw [Within, start]
      omega
    · rw [Overlaid, start, Int.toNat_natCast]
      exact ⟨Bytes.laid_overwrite _ _ (by omega), Bytes.size_overwrite _ _ _ inside⟩
  · have refused : Sink.patchAt s p off = (s, some (.plain _)) := if_pos outside
    rw [refused]
    exact atomic_refused (bounded.not_within outside) (by simp)

/-- The end of the range comes out negative, and so it is not found to be beyond what was written. -/
theorem patchAt_unbounded {p : Bytes} {off : Int64} (short : p.size < 2 ^ 63) (beyond : s.data.size < off.toInt)
    (unbounded : ¬ (Call.patchAt p off).Bounded) : Sink.patchAt s p off = (s, some .trap) := by
  rw [Call.Bounded] at unbounded
  have count : (Int64.ofNat p.size).toInt = p.size := Int64.toInt_ofNat_of_lt short
  have sum := lt_toInt_add_iff (a := off) (b := .ofNat p.size) s.data.size (by omega) (by omega)
  change s.patchAt p off = _
  unfold patchAt
  simp only [Int64.lt_iff_toInt_lt, Int64.toInt_zero]
  split_ifs with refused fits
  · omega
  · omega
  · rfl

end Staging

namespace SeekSink

open Sink RandomAccess

variable {φ : Type} [SeekableFile φ] {s : SeekSink φ}

/-- The write of a patch is tried only inside of what was written, if the end of its range can be counted. -/
theorem returns_of_stores {c : Call} (bounded : c.Bounded) (stores : s.Stores c) : s.Returns c := by
  cases c with
  | write p => trivial
  | patchAt p off =>
    intro w made failed
    obtain ⟨accepted, rfl⟩ := of_mem_attempt made
    rw [gt_iff_lt, Int64.lt_iff_toInt_lt, Int64.lt_iff_toInt_lt, Int64.toInt_zero, not_or, not_lt, not_lt] at accepted
    rw [bounded.toInt_end accepted.1] at accepted
    exact absurd (stores accepted.1 accepted.2) failed

theorem along_returns {calls : List Call} (bounded : ∀ c ∈ calls, c.Bounded) (stores : Along Stores s calls) :
    Along Returns s calls := by
  induction calls generalizing s with
  | nil => trivial
  | cons c rest ih =>
    rw [List.forall_mem_cons] at bounded
    exact ⟨returns_of_stores bounded.1 stores.1, ih bounded.2 stores.2⟩

variable [RandomAccess φ] {start n : Nat}

/-- The bytes of the file from `off` on, counted from `start`, are those of `p`. All else is as before, and the file
stands where it stood. -/
structure Overlaid (start : Nat) (p : Bytes) (off : Int64) (s s' : SeekSink φ) : Prop where
  laid : (content s.file).Laid (start + off.toInt.toNat) p (content s'.file)
  size_eq : (content s'.file).size = (content s.file).size
  offset_eq : Sink.offset s' = Sink.offset s
  position_eq : position s'.file = position s.file

theorem Placed.after {calls : List Call} (h : s.Placed start n) (standing : Standing start s calls) :
    (Call.after s calls).Placed start (n + Call.written s calls) := by
  induction calls generalizing s n with
  | nil => exact h
  | cons c rest ih =>
    have placed := (h.run c).2 standing.2.stands
    rw [Call.written, ← Nat.add_assoc]
    exact ih placed standing.2

variable {p : Bytes} {off : Int64}

private theorem Placed.toInt_target (h : s.Placed start n) (within : Within p off n) :
    (s.base + off).toInt = start + off.toInt := by
  have small := h.reach_lt
  obtain ⟨accepted, inside⟩ := within
  rw [h.base_eq, Int64.toInt_add, Int64.toInt_ofNat_of_lt (by omega), Int.bmod_eq_of_le (by omega) (by omega)]

/-- The sink on a file refuses just the patches that are outside, if their end can be counted. -/
private theorem Placed.outside_iff (h : s.Placed start n) (bounded : (Call.patchAt p off).Bounded) :
    off < 0 ∨ off + .ofNat p.size > s.size ↔ ¬ Within p off n := by
  have small := h.reach_lt
  rw [h.size_eq, gt_iff_lt, Int64.lt_iff_toInt_lt, Int64.lt_iff_toInt_lt, Int64.toInt_zero,
    Int64.toInt_ofNat_of_lt (by omega), Within]
  by_cases negative : off.toInt < 0
  · omega
  · rw [bounded.toInt_end (by omega)]
    omega

theorem Placed.patchAt_inside (h : s.Placed start n) (bounded : (Call.patchAt p off).Bounded)
    (stores : s.Stores (.patchAt p off)) (within : Within p off n) :
    ∃ s', Sink.patchAt s p off = (s', none) ∧ s.Overlaid start p off s' := by
  have small := h.reach_lt
  have target := h.toInt_target within
  have accepted := (h.outside_iff bounded).not_left.mpr within
  obtain ⟨file, e, patched, -, step⟩ := h.patchAt p off
  rw [patched]
  generalize made : s.attempt p off = attempt at step
  cases step with
  | unmoved outside kept still =>
    have nonneg := within.1
    rcases outside with negative | beyond | before
    · omega
    · exact absurd (.inr beyond) accepted
    · omega
  | stranded nonneg moved laid room =>
    obtain ⟨-, same⟩ := of_mem_attempt made
    have written : off.toInt + p.size ≤ s.size.toInt := by
      rw [h.size_eq, Int64.toInt_ofNat_of_lt (by omega)]
      exact within.2
    have stored := stores nonneg written
    rw [← same] at stored
    cases stored
  | back moved laid room =>
    have place : (s.base + off).toInt.toNat = start + off.toInt.toNat := by
      have nonneg := within.1
      omega
    rw [place] at laid
    refine ⟨_, rfl, laid, ?_, rfl, moved⟩
    have inside := within.2
    have covers := h.covers
    rw [laid.size_eq]
    split_ifs <;> omega

theorem Placed.patchAt_atomic (h : s.Placed start n) (bounded : (Call.patchAt p off).Bounded)
    (stores : s.Stores (.patchAt p off)) :
    Atomic s (Within p off n) (s.Overlaid start p off) (Sink.patchAt s p off) := by
  by_cases within : Within p off n
  · obtain ⟨s', patched, overlaid⟩ := h.patchAt_inside bounded stores within
    rw [patched]
    exact atomic_made within overlaid
  · have refused : Sink.patchAt s p off = (s, some (.plain _)) := if_pos ((h.outside_iff bounded).mpr within)
    rw [refused]
    exact atomic_refused within (by simp)

/-- A patch with an end that cannot be counted fails, and the file is left where its write has failed. -/
theorem Placed.patchAt_unbounded (h : s.Placed start n) (unbounded : ¬ (Call.patchAt p off).Bounded) :
    ∃ file e, Sink.patchAt s p off = ({ s with file }, some e) ∧ ∀ w ∈ s.attempt p off, file = w.out := by
  have small := h.reach_lt
  obtain ⟨file, e, patched, -, step⟩ := h.patchAt p off
  rw [patched]
  generalize s.attempt p off = made at step
  cases step with
  | unmoved outside kept still => exact ⟨file, _, rfl, by simp⟩
  | stranded accepted moved laid room => exact ⟨file, _, rfl, by simp⟩
  | back moved laid room =>
    -- all of the range would be on the file
    have below := off.toInt_lt
    rw [Call.Bounded] at unbounded
    rw [h.base_eq, Int64.toInt_add, Int64.toInt_ofNat_of_lt (by omega), Int.bmod_def] at room
    have bound := capacity_lt (φ := φ)
    split_ifs at room <;> omega

end SeekSink

open Sink SeekSink RandomAccess in
/-- After any calls a patch with a range that can be counted is made just if the range is inside of what was written,
and otherwise it is refused and changes nothing. Other ranges are outside, but in memory the patch breaks off, and on a
file it is tried. -/
theorem patches_atomic (calls : List Call) (p : Bytes) (off : Int64) :
    (∀ (s : Staging) (n : Nat), Call.after {} calls = s → Call.written ({} : Staging) calls = n → n < 2 ^ 63 →
      p.size < 2 ^ 63 →
        ((Call.patchAt p off).Bounded → Atomic s (Within p off n) (s.Overlaid p off) (Sink.patchAt s p off)) ∧
        (¬ (Call.patchAt p off).Bounded → n < off.toInt → Sink.patchAt s p off = (s, some .trap))) ∧
    ∀ (φ : Type) [SeekableFile φ] [RandomAccess φ] (file : φ) (start : Nat), Works file → position file = start →
      start ≤ capacity φ → ∃ opened sink, create file = (opened, .ok sink) ∧
        ∀ (s : SeekSink φ) (n : Nat), Call.after sink calls = s → Call.written sink calls = n →
          ((∀ c ∈ calls, c.Bounded) → Along Stores sink calls → Standing start sink calls) ∧
          (Standing start sink calls →
            ((Call.patchAt p off).Bounded → s.Stores (.patchAt p off) →
              Atomic s (Within p off n) (s.Overlaid start p off) (Sink.patchAt s p off)) ∧
            (¬ (Call.patchAt p off).Bounded → ∃ file e, Sink.patchAt s p off = ({ s with file }, some e) ∧
              ∀ w ∈ s.attempt p off, file = w.out)) := by
  constructor
  · intro s n reached written small short
    have size := Staging.size_after {} calls
    rw [reached, written, ByteArray.size_empty, Nat.zero_add] at size
    subst size
    exact ⟨Staging.patchAt_atomic small, fun unbounded beyond => Staging.patchAt_unbounded short beyond unbounded⟩
  · intro φ _ _ file start works here room
    obtain ⟨opened, sink, created, placed⟩ := create_placed works here room
    refine ⟨opened, sink, created, ?_⟩
    intro s n reached written
    constructor
    · intro bounded stores
      exact (standing_iff placed).mpr (along_returns bounded stores)
    · intro standing
      have later := placed.after standing
      rw [reached, written, Nat.zero_add] at later
      exact ⟨later.patchAt_atomic, later.patchAt_unbounded⟩

open Sink SeekSink RandomAccess in
/-- Up to the end of what was written, and one byte further. -/
theorem patches_atomic_end :
    (Sink.patchAt (Call.after ({} : Staging) fittingCalls) "o!" 3).2 = none ∧
    (Sink.patchAt (Call.after ({} : Staging) fittingCalls) "o!" 4).2 ≠ none ∧
    ∃ opened sink, create narrowFile = (opened, .ok sink) ∧
      (Sink.patchAt (Call.after sink overfullCalls) "MO" 5).2 = none := by
  have upto := (patches_atomic fittingCalls "o!" 3).1 _ _ rfl rfl (by decide +kernel) (by decide)
  have further := (patches_atomic fittingCalls "o!" 4).1 _ _ rfl rfl (by decide +kernel) (by decide)
  have works : Works narrowFile := rfl
  obtain ⟨opened, sink, created, file⟩ :=
    (patches_atomic overfullCalls "MO" 5).2 MemoryFile narrowFile 2 works rfl (by decide +kernel)
  have same : create narrowFile = (_, .ok ⟨{ narrowFile with seeks := 1 }, 2, 0, 0⟩) := rfl
  obtain ⟨-, made⟩ := Prod.mk.inj (created.symm.trans same)
  obtain rfl := Except.ok.inj made
  have patch := ((file _ _ rfl rfl).2 (by decide +kernel)).1 (by decide) (by decide +kernel)
  refine ⟨?_, ?_, opened, _, created, ?_⟩
  · exact (upto.1 (by decide)).none_iff.mpr (by decide +kernel)
  · rw [Ne, (further.1 (by decide)).none_iff]
    decide +kernel
  · exact patch.none_iff.mpr (by decide +kernel)

open Sink SeekSink in
/-- At the largest number neither sink refuses a byte, and the file is left where it was moved to. -/
theorem patchAt_largest_unrefused :
    Sink.patchAt (⟨"ab"⟩ : Staging) "z" 9223372036854775807 = (⟨"ab"⟩, some .trap) ∧
    ∃ opened sink s', create narrowFile = (opened, .ok sink) ∧
      Sink.patchAt sink "z" 9223372036854775807 = (s', some .trap) ∧ s'.file.pos = -9223372036854775807 := by
  refine ⟨rfl, _, ⟨{ narrowFile with seeks := 1 }, 2, 0, 0⟩, _, rfl, rfl, rfl⟩

end CoffWorks
