import CoffWorks.Proofs.Bytes.Append
import CoffWorks.Object.Encode

namespace CoffWorks

namespace Step

/-- What a file holds after a step. Pointers are filled in within the file, while it is small enough
to be pointed into. -/
def apply (b : Bytes) : Step → Option Bytes
  | append data => some (b ++ data)
  | patch position data =>
    if position + data.size ≤ b.size ∧ b.size < UInt32.size then some (b.overwrite position data)
    else none

/-- A buffer does just what a step says, behind what it held before. -/
theorem run_staging (before b c : Bytes) (step : Step) (h : step.apply b = some c)
    (hb : before.size + UInt32.size ≤ 2 ^ 63) :
    step.run before.size (⟨before ++ b⟩ : Staging) = (⟨before ++ c⟩, none) := by
  cases step with
  | append data =>
    obtain rfl : b ++ data = c := by simpa [apply] using h
    change ((⟨before ++ b ++ data⟩ : Staging), none) = _
    rw [ByteArray.append_assoc]
  | patch position data =>
    obtain ⟨hp, rfl⟩ : (position + data.size ≤ b.size ∧ b.size < UInt32.size) ∧
        b.overwrite position data = c := by simpa [apply] using h
    have start : (Int64.ofNat before.size + Int64.ofNat position).toInt = before.size + position := by
      rw [← Int64.ofNat_add, Int64.toInt_ofNat_of_lt (by omega), Nat.cast_add]
    have stop : (Int64.ofNat before.size + Int64.ofNat position + Int64.ofNat data.size).toInt =
        before.size + position + data.size := by
      rw [← Int64.ofNat_add, ← Int64.ofNat_add, Int64.toInt_ofNat_of_lt (by omega)]
      push_cast
      rfl
    have inside : ¬ (Int64.ofNat before.size + Int64.ofNat position < 0 ∨
        (Int64.ofNat before.size + Int64.ofNat position + Int64.ofNat data.size).toInt >
          (before ++ b).size) := by
      rw [Int64.lt_iff_toInt_lt, start, stop, ByteArray.size_append, Int64.toInt_zero]
      omega
    have fits : (Int64.ofNat before.size + Int64.ofNat position).toInt.toNat + data.size ≤
        (before ++ b).size := by
      rw [start, ByteArray.size_append]
      omega
    have place : (before ++ b).overwrite (before.size + position) data =
        before ++ b.overwrite position data :=
      Bytes.overwrite_append before b data position
    change Staging.patchAt _ _ _ = _
    rw [Staging.patchAt, if_neg inside, if_pos fits, start]
    simp only [← Nat.cast_add, Int.toNat_natCast, place]

/-- So it does with all steps, by induction on them. -/
theorem runAll_staging (before b c : Bytes) (steps : List Step) (h : steps.foldlM apply b = some c)
    (hb : before.size + UInt32.size ≤ 2 ^ 63) :
    runAll before.size (⟨before ++ b⟩ : Staging) steps = (⟨before ++ c⟩, none) := by
  induction steps generalizing b with
  | nil =>
    obtain rfl : b = c := by simpa using h
    rfl
  | cons step rest ih =>
    obtain ⟨d, hd, hc⟩ : ∃ d, step.apply b = some d ∧ rest.foldlM apply d = some c := by
      simpa [Option.bind_eq_some_iff] using h
    rw [runAll, run_staging before b d step hd hb]
    exact ih d hc

end Step

namespace Script

/-- The script has not failed so far, its steps make `b` of an empty file, and `t` holds the names
stored on the way. -/
structure Writes (s : Script) (b : Bytes) (t : StringTable) : Prop where
  failure_eq : s.failure = none
  strings_eq : s.strings = t
  size_eq : s.size = b.size
  content_eq : s.steps.toList.foldlM Step.apply .empty = some b

theorem run_eq_of_writes {s : Script} {b : Bytes} {t : StringTable} (hw : s.Writes b t) (before : Bytes)
    (hb : before.size + UInt32.size ≤ 2 ^ 63) : s.run (⟨before⟩ : Staging) = (⟨before ++ b⟩, none) := by
  have h := Step.runAll_staging before .empty b s.steps.toList hw.content_eq hb
  have start : Sink.offset (⟨before⟩ : Staging) = before.size := rfl
  rw [ByteArray.append_empty] at h
  rw [run, start, h, hw.failure_eq]

theorem failure_of_run {σ : Type} [Sink σ] {s : Script} {sink after : σ}
    (h : s.run sink = (after, none)) : s.failure = none := by
  unfold run at h
  split at h
  · cases h
  · exact congrArg Prod.snd h

/-- The script has not failed exactly if `C` holds, and then it writes `b` and stores `t`. -/
structure Produces (s : Script) (C : Prop) (b : Bytes) (t : StringTable) : Prop where
  failure_iff : s.failure = none ↔ C
  writes : C → s.Writes b t

theorem produces_empty : Produces {} True .empty {} :=
  ⟨iff_true_intro rfl, fun _ => ⟨rfl, rfl, rfl, rfl⟩⟩

namespace Produces

variable {s : Script} {C : Prop} {b : Bytes} {t : StringTable}

private theorem of_writes (hC : C) (hw : s.Writes b t) : s.Produces C b t :=
  ⟨iff_of_true hw.failure_eq hC, fun _ => hw⟩

theorem of_not {e : Failure} (he : s.failure = some e) (hC : ¬ C) : s.Produces C b t :=
  ⟨iff_of_false (by simp [he]) hC, fun c => absurd c hC⟩

private theorem not_of_failure {e : Failure} (h : s.Produces C b t) (he : s.failure = some e) : ¬ C := by
  intro c
  have none := h.failure_iff.mpr c
  simp [he] at none

theorem congr {D : Prop} (h : s.Produces C b t) (hCD : C ↔ D) : s.Produces D b t :=
  ⟨h.failure_iff.trans hCD, fun d => h.writes (hCD.mpr d)⟩

/-- Each way to go on adds its own condition; appending has none. A script that has failed stays as it is. -/
theorem append (h : s.Produces C b t) (data : Bytes) : (s.append data).Produces C (b ++ data) t := by
  obtain ⟨steps, size, strings, _ | e⟩ := s
  · have c : C := h.failure_iff.mp rfl
    have hw := h.writes c
    refine of_writes c ⟨rfl, hw.strings_eq, ?_, ?_⟩
    · rw [ByteArray.size_append]
      exact congrArg (· + data.size) hw.size_eq
    · simp [Script.append, List.foldlM_append, hw.content_eq, Step.apply]
  · exact of_not rfl (h.not_of_failure rfl)

/-- A pointer is filled in if the file is small enough to be pointed into. -/
theorem point (h : s.Produces C b t) (position : Nat) (field : Bytes) (hp : position + 4 ≤ b.size) :
    (s.point position field).Produces (C ∧ b.size < UInt32.size)
      (b.overwrite position (Bytes.word 4 b.size)) t := by
  obtain ⟨steps, size, strings, _ | e⟩ := s
  · have c : C := h.failure_iff.mp rfl
    have hw := h.writes c
    obtain rfl : size = b.size := hw.size_eq
    by_cases hb : b.size < UInt32.size
    · have pointer : Bytes.push32 .empty (UInt32.ofNat b.size) = Bytes.word 4 b.size := by
        rw [Bytes.push32_eq_append, ByteArray.empty_append, UInt32.toNat_ofNat_of_lt' hb]
      rw [Script.point, if_pos hb, pointer]
      refine of_writes ⟨c, hb⟩ ⟨rfl, hw.strings_eq, ?_, ?_⟩
      · exact (Bytes.size_overwrite b _ position (by simpa using hp)).symm
      · simp [List.foldlM_append, hw.content_eq, Step.apply, hp, hb]
    · rw [Script.point, if_neg hb]
      exact of_not rfl (fun both => hb both.2)
  · exact of_not rfl (fun both => h.not_of_failure rfl both.1)

/-- No step is made for no bytes. -/
theorem emit (h : s.Produces C b t) (bytes : Unit → Attempt Bytes) {D : Prop} {data : Bytes}
    (hd : ∀ r, bytes () = .ok r ↔ D ∧ data = r) : (s.emit bytes).Produces (C ∧ D) (b ++ data) t := by
  obtain ⟨steps, size, strings, _ | e⟩ := s
  · have c : C := h.failure_iff.mp rfl
    rw [Script.emit]
    cases result : bytes () with
    | ok r =>
      obtain ⟨d, rfl⟩ := (hd r).mp result
      have both : C ↔ C ∧ D := (and_iff_left d).symm
      cases none : data.isEmpty with
      | false => simpa [none] using (h.append data).congr both
      | true =>
        have empty : data = .empty :=
          ByteArray.size_eq_zero_iff.mp (by simpa [ByteArray.isEmpty] using none)
        simp only [none, ↓reduceIte]
        rw [empty, ByteArray.append_empty]
        exact h.congr both
    | error e =>
      have d : ¬ D := fun d => by simpa [result] using (hd data).mpr ⟨d, rfl⟩
      exact of_not rfl (fun both => d both.2)
  · exact of_not rfl (fun both => h.not_of_failure rfl both.1)

theorem emitNamed (h : s.Produces C b t) (bytes : StringTable → Attempt (Bytes × StringTable))
    {D : Prop} {data : Bytes} {u : StringTable} (hd : ∀ r, bytes t = .ok r ↔ D ∧ (data, u) = r) :
    (s.emitNamed bytes).Produces (C ∧ D) (b ++ data) u := by
  obtain ⟨steps, size, strings, _ | e⟩ := s
  · have c : C := h.failure_iff.mp rfl
    have hw := h.writes c
    obtain rfl : strings = t := hw.strings_eq
    rw [Script.emitNamed]
    cases result : bytes strings with
    | ok r =>
      obtain ⟨d, rfl⟩ := (hd r).mp result
      have renamed : Writes ⟨steps, size, u, none⟩ b u := ⟨rfl, rfl, hw.size_eq, hw.content_eq⟩
      exact (of_writes ⟨c, d⟩ renamed).append data
    | error e =>
      have d : ¬ D := fun d => by simpa [result] using (hd (data, u)).mpr ⟨d, rfl⟩
      exact of_not rfl (fun both => d both.2)
  · exact of_not rfl (fun both => h.not_of_failure rfl both.1)

end Produces

end Script

namespace Encode

variable {α : Type}

/-- It makes no difference whether items are looked up before a pass or during it. -/
theorem each_map {β : Type} (step : Nat → α → Script → Script) (g : β → α) (i : Nat) (l : List β)
    (s : Script) : each (fun i x s => step i (g x) s) i l s = each step i (l.map g) s := by
  induction l generalizing i s with
  | nil => rfl
  | cons x rest ih => exact ih (i + 1) (step i (g x) s)

/-- What each item of a list makes hold of the script, one more each time, holds after all of them. -/
theorem each_induction {step : Nat → α → Script → Script} {l : List α} {I : Nat → Script → Prop}
    (next : ∀ i a s, l[i]? = some a → I i s → I (i + 1) (step i a s)) {s : Script} (h : I 0 s) :
    I l.length (each step 0 l s) := by
  -- `before` are the items that are done; they no longer matter but for their number.
  have go (rest before : List α) (s : Script) (hl : before ++ rest = l) (h : I before.length s) :
      I l.length (each step before.length rest s) := by
    induction rest generalizing before s with
    | nil =>
      obtain rfl : before = l := by simpa using hl
      exact h
    | cons a rest ih =>
      have here : l[before.length]? = some a := by simp [← hl]
      have after := ih (before ++ [a]) (step before.length a s) (by simpa using hl)
      rw [List.length_append, List.length_singleton] at after
      exact after (next before.length a s here h)
  exact go l [] s rfl h

/-- A pass over a list: if number `i` takes the file from `b i` and `t i` to the next, the pass goes
from the first to the last, and it succeeds if each of its steps does. -/
theorem each_produces {step : Nat → α → Script → Script} {l : List α} {b : Nat → Bytes}
    {t : Nat → StringTable} {Ok : Nat → α → Prop}
    (next : ∀ i a s C, l[i]? = some a → Script.Produces s C (b i) (t i) →
      (step i a s).Produces (C ∧ Ok i a) (b (i + 1)) (t (i + 1)))
    {s : Script} {C : Prop} (h : s.Produces C (b 0) (t 0)) :
    (each step 0 l s).Produces (C ∧ ∀ i a, l[i]? = some a → Ok i a) (b l.length) (t l.length) := by
  have pass := each_induction
    (I := fun i s => s.Produces (C ∧ ∀ j a, j < i → l[j]? = some a → Ok j a) (b i) (t i))
    (fun i a s here made => (next i a s _ here made).congr (by
      constructor
      · rintro ⟨⟨c, done⟩, ok⟩
        refine ⟨c, ?_⟩
        intro j x hj hx
        rcases Nat.lt_succ_iff_lt_or_eq.mp hj with earlier | rfl
        · exact done j x earlier hx
        · obtain rfl : a = x := Option.some.inj (here.symm.trans hx)
          exact ok
      · rintro ⟨c, done⟩
        exact ⟨⟨c, fun j x hj hx => done j x (Nat.lt_succ_of_lt hj) hx⟩, done i a (Nat.lt_succ_self i) here⟩))
    (h.congr (by simp))
  refine pass.congr ⟨fun ⟨c, done⟩ => ⟨c, ?_⟩, fun ⟨c, all⟩ => ⟨c, fun j a _ hj => all j a hj⟩⟩
  intro i a hi
  exact done i a (List.getElem?_eq_some_iff.mp hi).1 hi

end Encode

end CoffWorks
