import CoffWorks.Proofs.Object.Acceptance

namespace CoffWorks

open Attempt

private theorem StringTable.size_ofNames (names : List Bytes) : (ofNames names).size =
    ((names.filter fun n => Name.fieldSize < n.size).map fun n => n.size + 1).sum := by
  rw [size, ofNames, Bytes.size_concat_map]
  simp

namespace ObjectFile

/-- The record describes a section of the file, or it is a piece of a file name. -/
inductive AuxClosed (f : ObjectFile) : Aux → Prop
  | definition {s : SectionId} (mem : s ∈ f.sections) (number : UInt16) :
      AuxClosed f (.definition (some s) number)
  | fileName (piece : FileName) : AuxClosed f (.fileName piece)

/-- All that the file refers to is in the file. -/
structure Closed (f : ObjectFile) (p : Pool) : Prop where
  relocation_mem : ∀ x ∈ f.sectionList p, ∀ r ∈ x.relocations, r.symbol ∈ f.symbols
  owner_mem : ∀ x ∈ f.symbolList p, ∀ o ∈ x.owner, o ∈ f.sections
  aux_closed : ∀ x ∈ f.symbolList p, ∀ a ∈ x.aux, f.AuxClosed a
  aux_le : ∀ x ∈ f.symbolList p, x.aux.length ≤ maxAux

/-- The bytes that the long names take, each with a zero byte. -/
def longNamesSize (f : ObjectFile) (p : Pool) : Nat :=
  (((f.names p).filter fun n => 8 < n.size).map fun n => n.size + 1).sum

structure WithinLimits (f : ObjectFile) (p : Pool) : Prop where
  sections_le : f.sections.size ≤ 65535
  relocations_le : ∀ x ∈ f.sectionList p, x.relocations.size ≤ 65535
  slots_le : f.slotCount p ≤ 2 ^ 32 - 1
  longNames_le : f.longNamesSize p ≤ 9999996
  symbolTable_lt : f.symbolTablePosition p < 2 ^ 32

instance (f : ObjectFile) (p : Pool) : Decidable (f.WithinLimits p) :=
  decidable_of_iff (f.sections.size ≤ 65535 ∧ (∀ x ∈ f.sectionList p, x.relocations.size ≤ 65535) ∧
      f.slotCount p ≤ 2 ^ 32 - 1 ∧ f.longNamesSize p ≤ 9999996 ∧ f.symbolTablePosition p < 2 ^ 32)
    ⟨fun ⟨a, b, c, d, e⟩ => ⟨a, b, c, d, e⟩, fun ⟨a, b, c, d, e⟩ => ⟨a, b, c, d, e⟩⟩

/-- The fault is that a name of the file is not a text. -/
structure BlamesName (f : ObjectFile) (p : Pool) (fault : Fault) : Prop where
  phase_eq : fault.phase = .construct
  kind_eq : fault.kind = .invalidInput
  invalid : ∃ n ∈ f.names p, ¬ Text.isValid n

namespace WithinLimits

variable {f : ObjectFile} {p : Pool} (limits : f.WithinLimits p)
include limits

/-- Within the limits, long names are at offsets that a section can express. -/
theorem reaches {k : Nat} {n : Bytes} (hn : (f.names p)[k]? = some n) : Name.Reaches (f.nameOffset p k) n := by
  intro long
  have total := limits.longNames_le
  have next : (f.stringsAt p (k + 1)).size = (f.stringsAt p k).size + n.size + 1 := by
    rw [stringsAt_succ hn, StringTable.extend, if_neg (Nat.not_le.mpr long)]
    simp [StringTable.size]
  have part : (f.stringsAt p (k + 1)).size ≤ f.longNamesSize p := by
    rw [stringsAt, StringTable.size_ofNames]
    exact (((List.take_sublist (k + 1) (f.names p)).filter _).map _).sum_le_sum (by simp)
  rw [Name.fieldSize] at long
  rw [nameOffset, StringTable.bias, Name.maxOffset]
  omega

theorem fits {x : Section} (hx : x ∈ f.sectionList p) : x.Fits := by
  obtain ⟨i, hi⟩ := List.getElem?_of_mem hx
  have stop := bodyPosition_le_symbolTablePosition (f := f) (p := p) (i + 1)
  have table := limits.symbolTable_lt
  rw [bodyPosition_succ hi, Section.bodySize] at stop
  refine ⟨?_, Nat.lt_succ_of_le (limits.relocations_le x hx)⟩
  rw [UInt32.size]
  omega

theorem encodable {a : Aux} (closed : f.AuxClosed a) : a.Encodable p := by
  cases closed with
  | definition mem number => exact limits.fits (List.mem_map_of_mem (Array.mem_toList_iff.mpr mem))
  | fileName piece => trivial

end WithinLimits

end ObjectFile

namespace Script

/-- The script has made `b` and stored `t`, or it has failed for a reason as `P` says. -/
structure Explained (s : Script) (P : Fault → Prop) (b : Bytes) (t : StringTable) : Prop where
  writes : s.failure = none → s.Writes b t
  blames : ∀ e, s.failure = some e → ∃ fault, e = .fault fault ∧ P fault

private theorem point_of_failed {s : Script} {position : Nat} {field : Bytes} (failed : s.failure ≠ none) :
    s.point position field = s := by
  obtain ⟨steps, size, strings, _ | e⟩ := s
  · exact (failed rfl).elim
  · rfl

private theorem failure_append (s : Script) (data : Bytes) : (s.append data).failure = s.failure := by
  obtain ⟨steps, size, strings, _ | e⟩ := s <;> rfl

namespace Explained

variable {s s' : Script} {P : Fault → Prop} {D : Prop} {b b' : Bytes} {t t' : StringTable}

theorem empty : Explained {} P .empty {} :=
  ⟨fun _ => produces_empty.writes trivial, nofun⟩

theorem produces (h : s.Explained P b t) : s.Produces (s.failure = none) b t :=
  ⟨Iff.rfl, h.writes⟩

/-- A part that can be written adds no reason to fail. -/
theorem proceed (h : s.Explained P b t) (next : s'.Produces (s.failure = none ∧ D) b' t') (hd : D)
    (kept : s.failure ≠ none → s' = s) : s'.Explained P b' t' where
  writes going := next.writes (next.failure_iff.mp going)
  blames e failed := by
    by_cases going : s.failure = none
    · have still : s'.failure = none := next.failure_iff.mpr ⟨going, hd⟩
      rw [still] at failed
      cases failed
    · rw [kept going] at failed
      exact h.blames e failed

theorem emitNamed (h : s.Explained P b t) {bytes : StringTable → Attempt (Bytes × StringTable)}
    (next : (s.emitNamed bytes).Produces (s.failure = none ∧ D) b' t') (hb : FailsWith P (bytes t)) :
    (s.emitNamed bytes).Explained P b' t' where
  writes going := next.writes (next.failure_iff.mp going)
  blames e failed := by
    obtain ⟨steps, size, strings, _ | e⟩ := s
    · obtain rfl : strings = t := (h.writes rfl).strings_eq
      rw [Script.emitNamed] at failed
      cases result : bytes strings with
      | ok r => simp [result, Script.append] at failed
      | error e =>
        simp only [result, Option.some.injEq] at failed
        exact failed ▸ hb e result
    · exact h.blames _ failed

end Explained

end Script

private theorem Attempt.failsWith_of_ok {α : Type} {P : Fault → Prop} {x : Attempt α} {a : α} (h : x = .ok a) :
    FailsWith P x :=
  h ▸ failsWith_ok a

namespace Encode

open ObjectFile

variable {f : ObjectFile} {p : Pool} {s : Script}

/-- A name for which there is room is only refused if it is not a text. -/
private theorem add_blamesName {n : Bytes} (hn : n ∈ f.names p) {t : StringTable}
    (reach : Name.Reaches (StringTable.bias + t.size) n) : FailsWith (f.BlamesName p) (t.add n) := by
  by_cases valid : Text.isValid n
  · exact failsWith_of_ok (StringTable.add_eq_ok.mpr ⟨⟨valid, reach⟩, rfl⟩)
  · have check : StringTable.checkText n = reject _ := if_neg valid
    rw [StringTable.add, check]
    exact FailsWith.bind (failsWith_reject ⟨rfl, rfl, n, hn, valid⟩) fun _ h => by cases h

section Passes

variable (limits : f.WithinLimits p)
include limits

theorem fileHeader_explained :
    (fileHeader p f {}).Explained (f.BlamesName p) (f.afterHeaders p 0) (f.stringsAt p 0) := by
  have start : Script.Explained {} (f.BlamesName p) .empty {} := .empty
  have next := fileHeader_produces (p := p) (f := f) start.produces
  rw [ByteArray.empty_append, ← afterHeaders_zero, ← stringsAt_zero (f := f) (p := p)] at next
  exact start.proceed next
    ⟨Nat.lt_succ_of_le limits.sections_le, Nat.lt_succ_of_le limits.slots_le⟩ fun failed => (failed rfl).elim

/-- Within the limits, a section header is only refused for its name. -/
theorem sectionHeader_explained {i : Nat} {x : Section} (hx : (f.sectionList p)[i]? = some x)
    (h : s.Explained (f.BlamesName p) (f.afterHeaders p i) (f.stringsAt p i)) :
    (sectionHeader i x s).Explained (f.BlamesName p) (f.afterHeaders p (i + 1)) (f.stringsAt p (i + 1)) := by
  refine h.emitNamed (sectionHeader_pass hx h.produces) ?_
  have reach := limits.reaches (names_section hx)
  have fits := limits.fits (List.mem_of_getElem? hx)
  refine (add_blamesName (List.mem_of_getElem? (names_section hx)) reach).bind fun stored added => ?_
  obtain ⟨-, rfl⟩ := StringTable.add_eq_ok.mp added
  refine (failsWith_of_ok (Name.sectionField_stored reach)).bind fun field _ => ?_
  refine (failsWith_of_ok (narrow32_eq_ok.mpr ⟨fits.1, rfl⟩)).bind fun size _ => ?_
  refine (failsWith_of_ok (narrow16_eq_ok.mpr ⟨fits.2, rfl⟩)).bind fun count _ => ?_
  exact failsWith_ok _

variable (closed : f.Closed p)
include closed

theorem sectionBody_explained {slots : Slots} (hs : Locates f p slots) {t : StringTable} {i : Nat} {x : Section}
    (hx : (f.sectionList p)[i]? = some x) (h : s.Explained (f.BlamesName p) (f.afterBodies p i) t) :
    (sectionBody slots i x s).Explained (f.BlamesName p) (f.afterBodies p (i + 1)) t := by
  have stop := bodyPosition_le_symbolTablePosition (f := f) (p := p) (i + 1)
  have table : f.symbolTablePosition p < UInt32.size := limits.symbolTable_lt
  rw [bodyPosition_succ hx, Section.bodySize] at stop
  refine h.proceed (sectionBody_pass hs hx h.produces)
    ⟨by omega, closed.relocation_mem x (List.mem_of_getElem? hx)⟩ ?_
  intro failed
  obtain ⟨steps, size, strings, _ | e⟩ := s
  · exact (failed rfl).elim
  · rfl

theorem symbol_explained {k : Nat} {x : Symbol} (hx : (f.symbolList p)[k]? = some x)
    (h : s.Explained (f.BlamesName p) (f.afterSymbols p k) (f.stringsAt p (f.sections.size + k))) :
    (symbol p f k x s).Explained (f.BlamesName p) (f.afterSymbols p (k + 1))
      (f.stringsAt p (f.sections.size + (k + 1))) := by
  refine h.emitNamed (symbol_pass hx h.produces) ?_
  have mem := List.mem_of_getElem? hx
  have number : f.ownerNumber x < UInt16.size :=
    Nat.lt_of_le_of_lt (ownerNumber_le x) (Nat.lt_succ_of_le limits.sections_le)
  have count : x.aux.length < UInt8.size := Nat.lt_succ_of_le (closed.aux_le x mem)
  refine (failsWith_of_ok (sectionNumber_eq_ok.mpr ⟨⟨closed.owner_mem x mem, number⟩, rfl⟩)).bind fun _ _ => ?_
  refine (failsWith_of_ok (narrow8_eq_ok.mpr ⟨count, rfl⟩)).bind fun _ _ => ?_
  refine (add_blamesName (List.mem_of_getElem? (names_symbol hx)) (limits.reaches (names_symbol hx))).bind
    fun _ _ => ?_
  refine (failsWith_of_ok (auxRecords_eq_ok.mpr ⟨?_, rfl⟩)).bind fun _ _ => failsWith_ok _
  exact fun a ha => limits.encodable (closed.aux_closed x mem a ha)

/-- The encoder fails on a name that is not a text, or not at all. -/
theorem script_explained {e : Failure} (failed : (script p f).failure = some e) :
    ∃ fault, e = .fault fault ∧ f.BlamesName p fault := by
  obtain ⟨slots, assigned⟩ := assignSlots_eq_ok (Nat.lt_succ_of_le limits.slots_le)
  have headers := each_induction (l := f.sectionList p)
    (I := fun i s => s.Explained (f.BlamesName p) (f.afterHeaders p i) (f.stringsAt p i))
    (fun i x s hx h => sectionHeader_explained limits hx h) (fileHeader_explained limits)
  rw [length_sectionList, afterHeaders_size] at headers
  have bodies := each_induction (l := f.sectionList p)
    (I := fun i s => s.Explained (f.BlamesName p) (f.afterBodies p i) (f.stringsAt p f.sections.size))
    (fun i x s hx h => sectionBody_explained limits closed (locates_of_assignSlots assigned) hx h) headers
  rw [length_sectionList] at bodies
  have table := bodies.proceed (symbolTable_pass bodies.produces) limits.symbolTable_lt Script.point_of_failed
  have symbols := each_induction (l := f.symbolList p)
    (I := fun k s => s.Explained (f.BlamesName p) (f.afterSymbols p k) (f.stringsAt p (f.sections.size + k)))
    (fun k x s hx h => symbol_explained limits closed hx h) table
  rw [script, assigned] at failed
  simp only [each_map] at failed
  rw [stringTable, Script.failure_append, Script.failure_append] at failed
  exact symbols.blames e failed

end Passes

end Encode

namespace ObjectFile

variable {f : ObjectFile} {p : Pool}

private theorem failure_of_bytes {e : Failure} (h : f.bytes p = .error e) : (Encode.script p f).failure = some e := by
  have run : (f.encode p ({} : Staging)).2 = (Encode.script p f).failure :=
    (Encode.script_runs p f).run_staging .empty (by decide)
  rw [← run]
  rw [bytes, bytes?, encode?] at h
  rcases result : f.encode p ({} : Staging) with ⟨stage, _ | e'⟩
  · simp [result] at h
  · simpa [result] using h

namespace Closed

variable (closed : f.Closed p)
include closed

/-- Of what may be wrong with a file, only a limit that is exceeded or a name that is not a text is wrong
with this one. -/
theorem bytes_eq_error {e : Failure} (h : f.bytes p = .error e) : ∃ fault, e = .fault fault ∧
    (fault.kind = .overflow ∧ ¬ f.WithinLimits p ∨ f.BlamesName p fault) := by
  have failed := failure_of_bytes h
  by_cases limits : f.WithinLimits p
  · obtain ⟨fault, rfl, blamed⟩ := Encode.script_explained limits closed failed
    exact ⟨fault, rfl, .inr blamed⟩
  obtain ⟨fault, rfl, cause⟩ := (Encode.script_runs p f).failure_is e failed
  refine ⟨fault, rfl, ?_⟩
  cases cause with
  | overflow kind => exact .inl ⟨kind, limits⟩
  | name phase kind mem invalid => exact .inr ⟨phase, kind, _, mem, invalid⟩
  | relocation _ mem inside absent => exact absurd (closed.relocation_mem _ mem _ inside) absent
  | owner _ mem owned absent => exact absurd (closed.owner_mem _ mem _ owned) absent
  | target _ mem inside => cases closed.aux_closed _ mem _ inside
  | record _ mem inside => cases closed.aux_closed _ mem _ inside

/-- A closed file within the limits, of which all names are texts, has bytes. -/
theorem exists_bytes (valid : ∀ n ∈ f.names p, Text.isValid n) (limits : f.WithinLimits p) :
    ∃ d, f.bytes p = .ok d := by
  cases result : f.bytes p with
  | ok d => exact ⟨d, rfl⟩
  | error e =>
    obtain ⟨fault, -, blamed⟩ := Encode.script_explained limits closed (failure_of_bytes result)
    obtain ⟨n, mem, invalid⟩ := blamed.invalid
    exact absurd (valid n mem) invalid

end Closed

end ObjectFile

end CoffWorks
