import CoffWorks.Proofs.Object.RoundTrip

namespace CoffWorks.ObjectFile

open Bytes

variable {f : ObjectFile} {p : Pool}

/-- The names that the format can tell from others: no zero bytes, no symbols without a name, and no
section names that look like a reference to the string table. -/
structure NamesReadable (f : ObjectFile) (p : Pool) : Prop where
  noZero : ∀ n ∈ f.names p, NoZero n
  symbol_ne : ∀ x ∈ f.symbolList p, x.name ≠ .empty
  section_not_reference : ∀ x ∈ f.sectionList p, x.name.size ≤ Name.fieldSize → ¬ Name.IsReference x.name

/-- Every name is found where it was stored, in its field or in the table. -/
theorem Encodable.resolve_stored (h : f.Encodable p) (hr : f.NamesReadable p) {k : Nat} {n : Bytes}
    (hn : (f.names p)[k]? = some n) :
    (f.strings p).resolve (Name.stored (f.nameOffset p k) n) = .ok n := by
  obtain ⟨valid, reach⟩ := h.name_fits k n hn
  exact StringTable.resolve_ofNames hn valid reach (hr.noZero n (List.mem_of_getElem? hn))

/-- A section's field is not taken for something else. -/
theorem Encodable.ofSectionField_forSection (h : f.Encodable p) (hr : f.NamesReadable p) {i : Nat} {x : Section}
    (hx : (f.sectionList p)[i]? = some x) :
    Name.ofSectionField (Name.forSection (f.nameOffset p i) x.name) = Name.stored (f.nameOffset p i) x.name := by
  have hn := names_section hx
  exact Name.ofSectionField_forSection (h.name_fits i _ hn).2 (hr.noZero _ (List.mem_of_getElem? hn))
    (hr.section_not_reference x (List.mem_of_getElem? hx))

theorem Encodable.ofSymbolField_forSymbol (h : f.Encodable p) (hr : f.NamesReadable p) {k : Nat} {x : Symbol}
    (hx : (f.symbolList p)[k]? = some x) :
    Name.ofSymbolField (Name.forSymbol (f.nameOffset p (f.sections.size + k)) x.name) =
      .ok (Name.stored (f.nameOffset p (f.sections.size + k)) x.name) := by
  have hn := names_symbol hx
  exact Name.ofSymbolField_forSymbol (h.name_fits _ _ hn).2 (hr.noZero _ (List.mem_of_getElem? hn))
    (hr.symbol_ne x (List.mem_of_getElem? hx))

theorem Encodable.resolveName_section (h : f.Encodable p) (hr : f.NamesReadable p) {i : Nat} {x : Section}
    (hx : (f.sectionList p)[i]? = some x) (position : Nat) :
    (x.header (f.nameOffset p i) position).resolveName (f.strings p) = .ok x.name := by
  rw [SectionHeader.resolveName, Section.header, h.ofSectionField_forSection hr hx]
  exact h.resolve_stored hr (names_section hx)

theorem Encodable.resolveName_symbol (h : f.Encodable p) (hr : f.NamesReadable p) {k : Nat} {x : Symbol}
    (hx : (f.symbolList p)[k]? = some x) (slot : Nat) :
    (f.symbolEntry p (f.nameOffset p (f.sections.size + k)) slot x).record.resolveName (f.strings p) =
      .ok x.name := by
  rw [SymbolRecord.resolveName, symbolEntry, h.ofSymbolField_forSymbol hr hx]
  exact h.resolve_stored hr (names_symbol hx)

/-- All names survive being written and read. -/
theorem inspect_bytes_resolveName (f : ObjectFile) (p : Pool) {d : Bytes} (h : f.bytes p = .ok d)
    (hr : f.NamesReadable p) (hb : (Encode.script p f).strings.size < UInt32.size) :
    ∃ img, Image.inspect d = .ok img ∧
      List.Forall₂ (fun head x => head.resolveName img.strings = .ok x.name) img.sections.toList
        (f.sectionList p) ∧
      List.Forall₂ (fun e x => e.record.resolveName img.strings = .ok x.name) img.symbols.toList
        (f.symbolList p) := by
  obtain ⟨c, rfl⟩ := bytes_eq_ok.mp h
  rw [c.script_strings] at hb
  refine ⟨_, inspect_layout c, ?_, ?_⟩
  · rw [StringTable.covered_eq hb]
    exact forall₂_mapIdx fun i x hx => c.resolveName_section hr hx _
  · rw [StringTable.covered_eq hb]
    exact forall₂_mapIdx fun k x hx => c.resolveName_symbol hr hx _

theorem sampleFile_namesReadable : sampleFile.NamesReadable samplePool where
  noZero := by decide +kernel
  symbol_ne := by decide +kernel
  section_not_reference := by decide +kernel

/-- The names of the sample are read back, a long one among them. -/
theorem inspect_sampleFile_resolveName : ∃ d img, sampleFile.bytes samplePool = .ok d ∧
    Image.inspect d = .ok img ∧
    List.Forall₂ (fun head x => head.resolveName img.strings = .ok x.name) img.sections.toList
      (sampleFile.sectionList samplePool) ∧
    List.Forall₂ (fun e x => e.record.resolveName img.strings = .ok x.name) img.symbols.toList
      (sampleFile.symbolList samplePool) := by
  obtain ⟨img, read, sections, symbols⟩ :=
    inspect_bytes_resolveName sampleFile samplePool sampleFile_bytes sampleFile_namesReadable
      sampleFile_strings
  exact ⟨_, img, sampleFile_bytes, read, sections, symbols⟩

end CoffWorks.ObjectFile
