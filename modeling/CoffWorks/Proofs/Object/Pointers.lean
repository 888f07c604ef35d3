import CoffWorks.Proofs.Object.Draft

namespace CoffWorks

open Bytes

namespace Step

/-- How much the steps add to a file. -/
def appended : List Step → Nat
  | [] => 0
  | append data :: rest => data.size + appended rest
  | patch _ _ :: rest => appended rest

theorem appended_append (first second : List Step) :
    appended (first ++ second) = appended first + appended second := by
  induction first with
  | nil => exact (Nat.zero_add _).symm
  | cons step rest ih =>
    cases step with
    | append data => rw [List.cons_append, appended, appended, ih, Nat.add_assoc]
    | patch position data => exact ih

/-- A file grows by what is appended; pointers are filled in within it. -/
theorem size_of_foldlM {steps : List Step} {b d : Bytes} (h : steps.foldlM apply b = some d) :
    d.size = b.size + appended steps := by
  induction steps generalizing b with
  | nil =>
    obtain rfl : b = d := by simpa using h
    rfl
  | cons step rest ih =>
    obtain ⟨c, hc, hd⟩ := foldlM_cons_eq_some.mp h
    rw [ih hd]
    cases step with
    | append data =>
      obtain rfl := apply_append.mp hc
      rw [appended, ByteArray.size_append, Nat.add_assoc]
    | patch position data =>
      obtain ⟨⟨inside, -⟩, rfl⟩ := apply_patch.mp hc
      rw [appended, size_overwrite _ _ _ inside]

/-- What is filled in tells how much was added before. -/
def Points (steps : List Step) : Prop := ∀ done rest position data,
  steps = done ++ patch position data :: rest → data = word 4 (appended done)

theorem Points.concat {steps : List Step} {step : Step} (h : Points steps)
    (last : ∀ position data, step = patch position data → data = word 4 (appended steps)) :
    Points (steps ++ [step]) := by
  intro done rest position data same
  rcases List.eq_nil_or_concat rest with rfl | ⟨rest, final, rfl⟩
  · obtain ⟨rfl, rfl⟩ := List.append_inj' same rfl |>.imp_right List.singleton_inj.mp
    exact last position data rfl
  · rw [List.concat_eq_append, ← List.cons_append, ← List.append_assoc] at same
    exact h done rest position data (List.append_inj' same rfl).1

section Sinks

variable {σ : Type} [Sink σ] {Holds Left : σ → Bytes → Prop} {capacity : Nat} {sink reached : σ}

/-- The offset of a sink moves by as much as was added. -/
theorem offset_of_runAll (like : Sink.BufferLike Holds Left capacity) {before d : Bytes} {steps : List Step}
    (h : Holds sink before) (hs : steps.foldlM apply .empty = some d) (room : before.size + d.size ≤ capacity)
    (runs : runAll (Sink.offset sink) sink steps = (reached, none)) :
    Sink.offset reached = Sink.offset sink + appended steps := by
  have start : Holds sink (before ++ .empty) := by rwa [ByteArray.append_empty]
  rw [like.offset_eq h] at runs ⊢
  rcases runAll_cases like start hs room with ⟨after, all, holds⟩ | ⟨after, e, _, _, fails, -⟩
  · obtain rfl : after = reached := congrArg Prod.fst (all.symm.trans runs)
    rw [like.offset_eq holds, ByteArray.size_append, size_of_foldlM hs, ByteArray.size_empty, Nat.zero_add]
  · cases fails.runAll_eq.symm.trans runs

end Sinks

end Step

namespace Script

private theorem runAll_of_run {σ : Type} [Sink σ] {s : Script} {sink reached : σ} (h : s.run sink = (reached, none)) :
    Step.runAll (Sink.offset sink) sink s.steps.toList = (reached, none) := by
  unfold run at h
  split at h
  · cases h
  · next runs => rw [runs, (Prod.mk.inj h).1]

/-- The script knows how much its steps add, and fills in just that. -/
structure Counts (s : Script) : Prop where
  size_eq : s.size = Step.appended s.steps.toList
  points : Step.Points s.steps.toList

private theorem counts_empty (failure : Option Failure) : Counts { failure } :=
  ⟨rfl, fun _ _ _ _ same => by simp at same⟩

namespace Counts

variable {s : Script}

theorem append (h : s.Counts) (data : Bytes) : (s.append data).Counts := by
  obtain ⟨steps, size, strings, _ | e⟩ := s
  · refine ⟨?_, ?_⟩
    · rw [Script.append, Array.toList_push, Step.appended_append, ← h.size_eq]
      rfl
    · rw [Script.append, Array.toList_push]
      exact h.points.concat fun _ _ other => by cases other
  · exact h

/-- Only a size that fits in the field is filled in. -/
theorem point (h : s.Counts) (position : Nat) (field : Bytes) : (s.point position field).Counts := by
  obtain ⟨steps, size, strings, _ | e⟩ := s
  · rw [Script.point]
    split_ifs with small
    · have pointer : push32 .empty (UInt32.ofNat size) = word 4 (Step.appended steps.toList) := by
        rw [push32_eq_append, ByteArray.empty_append, UInt32.toNat_ofNat_of_lt' small, ← h.size_eq]
      refine ⟨?_, ?_⟩
      · rw [Array.toList_push, Step.appended_append, ← h.size_eq]
        rfl
      · rw [Array.toList_push]
        exact h.points.concat fun _ _ same => (Step.patch.inj same).2 ▸ pointer
    · exact ⟨h.size_eq, h.points⟩
  · exact h

theorem emit (h : s.Counts) (bytes : Unit → Attempt Bytes) : (s.emit bytes).Counts := by
  obtain ⟨steps, size, strings, _ | e⟩ := s
  · rw [Script.emit]
    cases bytes () with
    | ok data =>
      dsimp only
      split_ifs
      · exact h
      · exact h.append data
    | error e => exact ⟨h.size_eq, h.points⟩
  · exact h

theorem emitNamed (h : s.Counts) (bytes : StringTable → Attempt (Bytes × StringTable)) :
    (s.emitNamed bytes).Counts := by
  obtain ⟨steps, size, strings, _ | e⟩ := s
  · rw [Script.emitNamed]
    cases bytes strings with
    | ok r =>
      have renamed : Counts ⟨steps, size, r.2, none⟩ := ⟨h.size_eq, h.points⟩
      exact renamed.append r.1
    | error e => exact ⟨h.size_eq, h.points⟩
  · exact h

end Counts

end Script

namespace Encode

variable {s : Script}

private theorem each_counts {α : Type} {step : Nat → α → Script → Script}
    (next : ∀ i a s, Script.Counts s → (step i a s).Counts) (l : List α) (h : s.Counts) :
    (each step 0 l s).Counts :=
  each_induction (I := fun _ s => s.Counts) (fun i a s _ h => next i a s h) h

theorem sectionBody_counts (slots : Slots) (i : Nat) (x : Section) (h : s.Counts) :
    (sectionBody slots i x s).Counts :=
  ((((h.point _ _).append _).point _ _).emit _).point _ _ |>.append _

/-- The encoder counts right all along, whether it comes to an end or not. -/
theorem script_counts (p : Pool) (f : ObjectFile) : (script p f).Counts := by
  unfold script
  split
  · next e _ => exact Script.counts_empty (some e)
  · next slots _ =>
    have header : (fileHeader p f {}).Counts := (Script.counts_empty none).emit _
    have headers := each_counts (fun i x _ h => (h.emitNamed _ : (sectionHeader i (p.getSection x) _).Counts))
      f.sections.toList header
    have bodies := each_counts (fun i x _ h => sectionBody_counts slots i (p.getSection x) h)
      f.sections.toList headers
    have symbols := each_counts (fun i x _ h => (h.emitNamed _ : (symbol p f i (p.getSymbol x) _).Counts))
      f.symbols.toList (bodies.point FileHeader.symbolTableField "PointerToSymbolTable")
    exact (symbols.append _).append _

end Encode

namespace ObjectFile

variable {σ : Type} [Sink σ] {Holds Left : σ → Bytes → Prop} {capacity : Nat} {sink reached : σ}
  {f : ObjectFile} {p : Pool} {before : Bytes}

/-- As far as the encoder gets, the sink moves on by as much as the script counts. -/
theorem offset_of_steps (like : Sink.BufferLike Holds Left capacity) (h : Holds sink before)
    (room : before.size + (Encode.script p f).size ≤ capacity) {done rest : List Step}
    (steps_eq : (Encode.script p f).steps.toList = done ++ rest)
    (runs : Step.runAll (Sink.offset sink) sink done = (reached, none)) :
    Sink.offset reached = Sink.offset sink + Step.appended done := by
  obtain ⟨d, drafts, -⟩ := (Encode.script_drafts p f).content
  have content := drafts.1
  rw [steps_eq, List.foldlM_append] at content
  obtain ⟨c, made, -⟩ := Option.bind_eq_some_iff.mp content
  have count := Step.size_of_foldlM made
  have total := (Encode.script_counts p f).size_eq
  rw [steps_eq, Step.appended_append] at total
  rw [ByteArray.size_empty] at count
  exact Step.offset_of_runAll like h made (by omega) runs

/-- A pointer is filled in with the way that the sink has come since the encoder began. -/
theorem pointer_eq_offset (like : Sink.BufferLike Holds Left capacity) (h : Holds sink before)
    (room : before.size + (Encode.script p f).size ≤ capacity) {done rest : List Step} {position : Nat} {data : Bytes}
    (steps_eq : (Encode.script p f).steps.toList = done ++ .patch position data :: rest)
    (runs : Step.runAll (Sink.offset sink) sink done = (reached, none)) :
    data = word 4 (Sink.offset reached - Sink.offset sink) := by
  rw [offset_of_steps like h room steps_eq runs, Nat.add_sub_cancel_left]
  exact (Encode.script_counts p f).points done rest position data steps_eq

/-- The script's size is the way that the sink has come at the end. -/
theorem size_eq_offset (like : Sink.BufferLike Holds Left capacity) (h : Holds sink before)
    (room : before.size + (Encode.script p f).size ≤ capacity) (encoded : f.encode p sink = (reached, none)) :
    (Encode.script p f).size = Sink.offset reached - Sink.offset sink := by
  rw [offset_of_steps like h room (List.append_nil _).symm (Script.runAll_of_run encoded), Nat.add_sub_cancel_left]
  exact (Encode.script_counts p f).size_eq

end ObjectFile

end CoffWorks
