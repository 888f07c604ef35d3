import CoffWorks.Proofs.Object.Code
import CoffWorks.Proofs.Object.Names

namespace CoffWorks

open Bytes

/-- The name is read back from its field, without the string table. -/
def Name.Direct (name : Bytes) : Prop :=
  name.size ≤ fieldSize ∧ NoZero name ∧ 0 < name.size ∧ ¬ IsReference name

instance : DecidablePred Name.Direct := fun _ => inferInstanceAs (Decidable (_ ∧ _ ∧ _ ∧ _))

namespace Name.Direct

variable {name : Bytes} (direct : Direct name)
include direct

theorem reaches (o : Nat) : Reaches o name := fun long => absurd direct.1 (Nat.not_le.mpr long)

theorem resolve_stored (o : Nat) (t : StringTable) : t.resolve (stored o name) = .ok name := by
  rw [stored, if_pos direct.1, StringTable.resolve, Field.untilZero_pad (n := 8) direct.1 direct.2.1]

theorem resolveName_section {o : Nat} {h : SectionHeader} (field : h.name = forSection o name) (t : StringTable) :
    h.resolveName t = .ok name := by
  rw [SectionHeader.resolveName, field,
    ofSectionField_forSection (direct.reaches o) direct.2.1 fun _ => direct.2.2.2, direct.resolve_stored]

theorem resolveName_symbol {o : Nat} {r : SymbolRecord} (field : r.name = forSymbol o name) (t : StringTable) :
    r.resolveName t = .ok name := by
  have some_byte : name ≠ .empty := by
    rintro rfl
    exact absurd direct.2.2.1 (Nat.lt_irrefl 0)
  rw [SymbolRecord.resolveName, field, ofSymbolField_forSymbol (direct.reaches o) direct.2.1 some_byte]
  exact direct.resolve_stored o t

end Name.Direct

/-- The auxiliary record describes a section of that length, with so many relocations and that number. -/
structure Field.Defines (field : Field 18) (length relocations number : Nat) : Prop where
  length_eq : (field.bytes.u32At 0).toNat = length
  relocations_eq : (field.bytes.u16At 4).toNat = relocations
  number_eq : (field.bytes.u16At 12).toNat = number

private theorem Aux.field_defines {p : Pool} {s : SectionId} {number : UInt16} (h : (p.getSection s).Fits) :
    (Aux.field p (.definition (some s) number)).Defines (p.getSection s).data.size
      (p.getSection s).relocations.size number.toNat := by
  obtain ⟨data, count⟩ := h
  have content : (Aux.field p (.definition (some s) number)).bytes =
      word 4 (UInt32.ofNat (p.getSection s).data.size).toNat ++
        (word 2 (UInt16.ofNat (p.getSection s).relocations.size).toNat ++
          ((word 2 0 ++ word 4 0) ++ (word 2 number.toNat ++ zeros 4))) := by
    rw [UInt32.toNat_ofNat_of_lt' data, UInt16.toNat_ofNat_of_lt' count, Aux.field,
      Field.pad_bytes 18 _ (by simp)]
    simp [zeros, pushZeros, ByteArray.append_assoc]
  constructor
  · rw [content, u32At_word, UInt32.toNat_ofNat_of_lt' data]
  · rw [content, u16At_skip _ _ _ (by simp), size_word, Nat.sub_self, u16At_word, UInt16.toNat_ofNat_of_lt' count]
  · rw [content, u16At_skip _ _ _ (by simp), u16At_skip _ _ _ (by simp), u16At_skip _ _ _ (by simp)]
    simp only [size_word, ByteArray.size_append, Nat.reduceAdd, Nat.reduceSub]
    rw [u16At_word]

namespace Image

/-- Section number `i` is shown with the name and the data. -/
structure ShowsSection (img : Image) (d : Bytes) (i : Nat) (name data : Bytes) : Prop where
  name_eq : ∃ h, img.sections[i]? = some h ∧ h.resolveName img.strings = .ok name
  data_eq : img.sectionData d i = .ok data

/-- Entry number `k` is that of a symbol at the slot, with all that its record says except the name. -/
structure ShowsSymbol (img : Image) (k slot : Nat) (value : UInt32) (number : Int16) (storageClass : StorageClass)
    (aux : List (Field 18)) (e : SymbolEntry) : Prop where
  entry_eq : img.symbols[k]? = some e
  slot_eq : e.index.toNat = slot
  value_eq : e.record.value = value
  number_eq : e.record.sectionNumber = number
  storageClass_eq : e.record.storageClass = storageClass
  auxCount_eq : e.record.auxCount.toNat = aux.length
  aux_eq : e.aux = aux

/-- The static symbol of section number `number`, with the record that describes the section. -/
def ShowsSectionSymbol (img : Image) (number slot : Nat) (name : Bytes) (length relocations : Nat) : Prop :=
  ∃ e field, img.ShowsSymbol number slot 0 (.ofNat number) .static [field] e ∧
    e.record.resolveName img.strings = .ok name ∧ field.Defines length relocations number

end Image

namespace ObjectFile

variable {f : ObjectFile} {p : Pool} {img : Image}

theorem Encodable.showsSymbol (h : f.Encodable p) (symbols : img.symbols = (f.symbolEntries p).toArray)
    {k : Nat} {x : Symbol} (hx : (f.symbolList p)[k]? = some x) :
    img.ShowsSymbol k (f.slot p k) x.value (UInt16.ofNat (f.ownerNumber x)).toInt16 x.storageClass
      (x.aux.map (·.field p)) (f.symbolEntry p (f.nameOffset p (f.sections.size + k)) (f.slot p k) x) where
  entry_eq := by rw [symbols, List.getElem?_toArray, symbolEntries_getElem? hx]
  slot_eq := UInt32.toNat_ofNat_of_lt' (Nat.lt_of_le_of_lt (slot_le_slotCount k) h.slots_lt)
  value_eq := rfl
  number_eq := rfl
  storageClass_eq := rfl
  auxCount_eq := by
    rw [List.length_map]
    exact UInt8.toNat_ofNat_of_lt' (h.aux_lt x (List.mem_of_getElem? hx))
  aux_eq := rfl

end ObjectFile

namespace Code

/-- The inputs that are documented. -/
structure Documented (m : Machine) (labels : List CodeLabel) (fixups : List CodeFixup) (source : Bytes) : Prop where
  machine_eq : m = .amd64 ∨ m = .i386
  source_valid : Text.isValid source
  source_le : source.size ≤ 4590
  fixup_named : ∀ e ∈ fixups, ∃ label ∈ labels, label.name = e.symbol
  fixup_bits : ∀ e ∈ fixups, e.bits = 0 ∨ e.bits = 32

/-- How many relocations there are for the fixups. -/
def relocationCount (labels : List CodeLabel) (fixups : List CodeFixup) : Nat :=
  (labels.map fun label => fixups.countP (·.symbol == label.name)).sum

/-- The auxiliary records with the name of the source. -/
def sourceRecords (source : Bytes) : List (Field 18) :=
  (List.range (max 1 (source.size ⌈/⌉ 18))).map fun i => .pad 18 (source.slice (18 * i) 18)

/-- The format can tell the names of the labels from others, and their table has a length. -/
structure LabelsReadable (labels : List CodeLabel) : Prop where
  noZero : ∀ label ∈ labels, NoZero label.name
  ne_empty : ∀ label ∈ labels, label.name ≠ .empty
  table_lt : (StringTable.ofNames (labels.map (·.name))).size < UInt32.size

end Code

/-- The image of the bytes `d` shows all of the code. -/
structure Image.ShowsCode (img : Image) (d code : Bytes) (labels : List CodeLabel) (fixups : List CodeFixup)
    (source : Bytes) : Prop where
  sections_eq : img.sections.size = 3
  text : img.ShowsSection d 0 ".text" code
  data : img.ShowsSection d 1 ".data" .empty
  bss : img.ShowsSection d 2 ".bss" .empty
  relocations_eq : ∃ records, img.relocations[0]? = some records ∧ records.size = Code.relocationCount labels fixups
  symbols_eq : img.symbols.size = 4 + labels.length
  file : ∃ e, img.ShowsSymbol 0 0 0 1 .file (Code.sourceRecords source) e ∧
    e.record.resolveName img.strings = .ok ".file" ∧ e.record.auxCount.toNat = max 1 (source.size ⌈/⌉ 18)
  textSymbol : img.ShowsSectionSymbol 1 (max 1 (source.size ⌈/⌉ 18) + 1) ".text" code.size
    (Code.relocationCount labels fixups)
  dataSymbol : img.ShowsSectionSymbol 2 (max 1 (source.size ⌈/⌉ 18) + 3) ".data" 0 0
  bssSymbol : img.ShowsSectionSymbol 3 (max 1 (source.size ⌈/⌉ 18) + 5) ".bss" 0 0
  label : ∀ (k : Nat) label, labels[k]? = some label → ∃ e,
    img.ShowsSymbol (4 + k) (max 1 (source.size ⌈/⌉ 18) + 7 + k) label.offset (if label.isExternal then 0 else 1)
      (if label.isExternal ∨ label.isPublic then .external else .static) [] e ∧
    (Code.LabelsReadable labels → e.record.resolveName img.strings = .ok label.name)

namespace Bench

variable {k : Bench} {img : Image}

private theorem ownerNumber_file {i : Nat} (h : i < k.sections.length) {x : Symbol}
    (owned : x.owner = some (k.base.nextSection i)) : k.file.ownerNumber x = i + 1 := by
  rw [ObjectFile.ownerNumber, owned, Option.elim_some, Encode.sectionIndex_of_mem (nextSection_mem h),
    idxOf_nextSection h]

private theorem slot_delivered (n : Nat) :
    k.file.slot k.delivered n = ((k.symbols.take n).map fun x => 1 + x.aux.length).sum := by
  rw [ObjectFile.slot, symbolList_delivered]

private theorem sectionList_getElem? {i : Nat} {x : Section} (hx : k.sections[i]? = some x) :
    (k.file.sectionList k.delivered)[i]? = some x.released := by
  rw [sectionList_delivered, List.getElem?_map, hx]
  rfl

/-- Section number `i` has the name, the data and so many relocations. -/
def Makes (k : Bench) (i : Nat) (name data : Bytes) (count : Nat) : Prop :=
  ∃ x, k.sections[i]? = some x ∧ x.name = name ∧ x.data = data ∧ x.relocations.size = count

section Shown

variable {i : Nat} {name data : Bytes} {count : Nat} (makes : k.Makes i name data count) (direct : Name.Direct name)
  (h : k.file.Encodable k.delivered)
include makes direct h

/-- A section that was made is shown in the image with its name and its data. -/
theorem showsSection (sections : img.sections = (k.file.sectionHeaders k.delivered).toArray) :
    img.ShowsSection (k.file.layout k.delivered) i name data := by
  obtain ⟨x, hx, rfl, rfl, -⟩ := makes
  have listed := sectionList_getElem? hx
  have header := ObjectFile.sectionHeaders_getElem? listed
  rw [← List.getElem?_toArray, ← sections] at header
  refine ⟨⟨_, header, direct.resolveName_section (o := _) rfl img.strings⟩, ?_⟩
  exact ObjectFile.sectionData_layout (x := x.released) h sections listed

/-- The symbol that describes the section shows as such. -/
theorem showsSectionSymbol (symbols : img.symbols = (k.file.symbolEntries k.delivered).toArray)
    (hs : k.symbols[i + 1]? = some (Code.sectionSymbol name (k.base.nextSection i) (.ofNat (i + 1)))) :
    img.ShowsSectionSymbol (i + 1) (k.file.slot k.delivered (i + 1)) name data.size count := by
  obtain ⟨x, hx, rfl, rfl, rfl⟩ := makes
  have inside : i < k.sections.length := (List.getElem?_eq_some_iff.mp hx).1
  have fits : (k.delivered.getSection (k.base.nextSection i)).Fits := by
    apply h.section_fits
    exact List.mem_map_of_mem (Array.mem_toList_iff.mpr (nextSection_mem inside))
  have number : (UInt16.ofNat (i + 1)).toNat = i + 1 := by
    have few : k.sections.length < UInt16.size := by simpa [file, sectionIds] using h.sections_lt
    exact UInt16.toNat_ofNat_of_lt' (by omega)
  rw [← symbolList_delivered] at hs
  have shown := h.showsSymbol symbols hs
  rw [ownerNumber_file inside rfl] at shown
  have defines : (Aux.field k.delivered (.definition (some (k.base.nextSection i)) (.ofNat (i + 1)))).Defines _ _ _ :=
    Aux.field_defines fits
  rw [number, getSection_delivered hx] at defines
  exact ⟨_, _, shown, direct.resolveName_symbol (o := _) rfl img.strings, defines⟩

end Shown

end Bench

namespace Code

variable {m : Machine} {labels : List CodeLabel} {fixups : List CodeFixup} {p : Pool} {align : SectionFlags}
  {code : Bytes} {pieces : List FileName}

private theorem length_relocationsFrom (i : Nat) :
    (relocationsFrom p m fixups i labels).length = relocationCount labels fixups := by
  induction labels generalizing i with
  | nil => rfl
  | cons label rest ih =>
    rw [relocationsFrom, List.length_append, ih, relocationCount, relocationCount, List.map_cons, List.sum_cons,
      labelRelocations, List.length_map, List.countP_eq_length_filter]

theorem sourceRecords_eq {source : Bytes} (cut : FileName.records source = .ok pieces) :
    pieces.map (·.field) = sourceRecords source := by
  obtain ⟨-, -, rfl⟩ := FileName.records_eq_ok.mp cut
  rw [sourceRecords, ← FileName.recordCount_eq, List.map_map]
  refine List.map_congr_left fun i _ => ?_
  rw [Function.comp_apply, FileName.ofBytes, Nat.mul_comm]
  rfl

/-- The name of the source takes a record for each eighteen bytes, and one at least. -/
theorem length_sourceRecords (source : Bytes) : (sourceRecords source).length = max 1 (source.size ⌈/⌉ 18) := by
  rw [sourceRecords, List.length_map, List.length_range]

/-- There is an object for just the documented inputs. -/
theorem exists_object {source : Bytes} : (∃ f q, object m code labels fixups source p = .ok (f, q)) ↔
    Documented m labels fixups source := by
  have aligned : (∃ align, alignment? m = some align) ↔ m = .amd64 ∨ m = .i386 := by
    unfold alignment?
    split_ifs <;> simp_all
  constructor
  · rintro ⟨f, q, made⟩
    obtain ⟨align, pieces, machine, cut, accepted, -⟩ := object_eq_ok.mp made
    obtain ⟨valid, short⟩ := FileName.exists_records.mp ⟨pieces, cut⟩
    exact ⟨aligned.mp ⟨align, machine⟩, valid, short, fun e he => (accepted e he).1, fun e he => (accepted e he).2⟩
  · rintro ⟨machine, valid, short, named, bits⟩
    obtain ⟨align, machine⟩ := aligned.mpr machine
    obtain ⟨pieces, cut⟩ := FileName.exists_records.mpr ⟨valid, short⟩
    exact ⟨_, _, object_eq_ok.mpr ⟨align, pieces, machine, cut, fun e he => ⟨named e he, bits e he⟩, rfl⟩⟩

/-- The slots before the symbol that describes section number `i`. -/
private theorem slots_section {i : Nat} (h : i ≤ 3) :
    (((bench p m align code labels fixups pieces).symbols.take (i + 1)).map fun x => 1 + x.aux.length).sum =
      pieces.length + 1 + 2 * i := by
  have head : (bench p m align code labels fixups pieces).symbols.take (i + 1) =
      (headSymbols p pieces).take (i + 1) := List.take_append_of_le_length (Nat.succ_le_succ h)
  rw [head]
  interval_cases i <;> simp [headSymbols, fileSymbol, sectionSymbol] <;> omega

/-- A label has no auxiliary records and so takes one slot. -/
private theorem slots_label {j : Nat} (h : j ≤ labels.length) :
    (((bench p m align code labels fixups pieces).symbols.take (4 + j)).map fun x => 1 + x.aux.length).sum =
      pieces.length + 7 + j := by
  induction j with
  | zero => exact slots_section (Nat.le_refl 3)
  | succ j ih =>
    rw [← Nat.add_assoc, take_succ_of_getElem? (bench_label (List.getElem?_eq_getElem h)), List.map_append,
      List.sum_append, ih (Nat.le_of_succ_le h)]
    rfl

section Shown

variable {k : Bench} (made : k = bench p m align code labels fixups pieces)
include made

private theorem names_bench : k.file.names k.delivered =
    ([".text", ".data", ".bss", ".file", ".text", ".data", ".bss"] : List Bytes) ++ labels.map (·.name) := by
  rw [ObjectFile.names, Bench.sectionList_delivered, Bench.symbolList_delivered, made]
  simp [bench, opened, headSymbols, fileSymbol, sectionSymbol, labelSymbol, Section.released, Section.relocatedBy]

/-- The names at the head are short, so the string table has those of the labels only. -/
private theorem strings_bench : k.file.strings k.delivered = .ofNames (labels.map (·.name)) := by
  have short : ([".text", ".data", ".bss", ".file", ".text", ".data", ".bss"] : List Bytes).filter
      (fun n => Name.fieldSize < n.size) = [] := by decide +kernel
  rw [ObjectFile.strings, names_bench made, StringTable.ofNames, List.filter_append, short, List.nil_append,
    StringTable.ofNames]

/-- The names at the head can be read, so that only those of the labels matter. -/
theorem namesReadable_bench (readable : LabelsReadable labels) : k.file.NamesReadable k.delivered where
  noZero := by
    rw [names_bench made, List.forall_mem_append, List.forall_mem_map]
    exact ⟨by decide +kernel, readable.noZero⟩
  symbol_ne := by
    rw [Bench.symbolList_delivered, made, bench, List.forall_mem_append, List.forall_mem_map]
    refine ⟨?_, readable.ne_empty⟩
    simp [headSymbols, fileSymbol, sectionSymbol]
  section_not_reference := by
    have none : ∀ n ∈ ([".text", ".data", ".bss"] : List Bytes), ¬ Name.IsReference n := by decide +kernel
    intro x hx _
    rw [Bench.sectionList_delivered, List.mem_map] at hx
    obtain ⟨y, hy, rfl⟩ := hx
    have named := List.mem_map_of_mem (f := (·.name)) hy
    rw [made] at named
    exact none y.name (by simpa [bench, opened, Section.relocatedBy] using named)

variable (h : k.file.Encodable k.delivered) {img : Image}
  (symbols : img.symbols = (k.file.symbolEntries k.delivered).toArray)
include h symbols

theorem shows_file {source : Bytes} (cut : FileName.records source = .ok pieces) (direct : Name.Direct ".file") : ∃ e,
    img.ShowsSymbol 0 0 0 1 .file (sourceRecords source) e ∧ e.record.resolveName img.strings = .ok ".file" ∧
      e.record.auxCount.toNat = max 1 (source.size ⌈/⌉ 18) := by
  have first : (k.file.symbolList k.delivered)[0]? = some (fileSymbol (k.base.nextSection 0) pieces) := by
    rw [Bench.symbolList_delivered, made]
    rfl
  have shown := h.showsSymbol symbols first
  have aux : (fileSymbol (k.base.nextSection 0) pieces).aux.map (·.field k.delivered) = sourceRecords source := by
    rw [fileSymbol, List.map_map, ← sourceRecords_eq cut]
    rfl
  have owner : k.file.ownerNumber (fileSymbol (k.base.nextSection 0) pieces) = 0 + 1 :=
    Bench.ownerNumber_file (by simp [made, bench, opened]) rfl
  rw [aux, owner] at shown
  have field : (k.file.symbolEntry k.delivered (k.file.nameOffset k.delivered (k.file.sections.size + 0))
      (k.file.slot k.delivered 0) (fileSymbol (k.base.nextSection 0) pieces)).record.name =
        Name.forSymbol (k.file.nameOffset k.delivered (k.file.sections.size + 0)) ".file" := rfl
  refine ⟨_, shown, direct.resolveName_symbol field img.strings, ?_⟩
  rw [shown.auxCount_eq, length_sourceRecords]

theorem shows_sectionSymbol {i : Nat} (hi : i ≤ 3) {name data : Bytes} {count : Nat}
    (makes : k.Makes i name data count) (direct : Name.Direct name)
    (hs : k.symbols[i + 1]? = some (sectionSymbol name (k.base.nextSection i) (.ofNat (i + 1)))) :
    img.ShowsSectionSymbol (i + 1) (pieces.length + (1 + 2 * i)) name data.size count := by
  have slot : k.file.slot k.delivered (i + 1) = pieces.length + (1 + 2 * i) := by
    rw [Bench.slot_delivered, made, slots_section hi, Nat.add_assoc]
  rw [← slot]
  exact Bench.showsSectionSymbol makes direct h symbols hs

theorem shows_label (strings : img.strings = (k.file.strings k.delivered).covered) {j : Nat} {label : CodeLabel}
    (hj : labels[j]? = some label) : ∃ e,
      img.ShowsSymbol (4 + j) (pieces.length + 7 + j) label.offset (if label.isExternal then 0 else 1)
        (if label.isExternal ∨ label.isPublic then .external else .static) [] e ∧
      (LabelsReadable labels → e.record.resolveName img.strings = .ok label.name) := by
  have inside : j < labels.length := (List.getElem?_eq_some_iff.mp hj).1
  have listed : (k.file.symbolList k.delivered)[4 + j]? = some (labelSymbol (p.nextSection 0) label) := by
    rw [Bench.symbolList_delivered, made, bench_label hj]
  have slot : k.file.slot k.delivered (4 + j) = pieces.length + 7 + j := by
    rw [Bench.slot_delivered, made, slots_label (Nat.le_of_lt inside)]
  have number : (UInt16.ofNat (k.file.ownerNumber (labelSymbol (p.nextSection 0) label))).toInt16 =
      if label.isExternal then 0 else 1 := by
    cases external : label.isExternal with
    | true => simp [ObjectFile.ownerNumber, labelSymbol, external]
    | false =>
      have owned : (labelSymbol (p.nextSection 0) label).owner = some (k.base.nextSection 0) := by
        simp [labelSymbol, external, made]
        rfl
      have one : 0 < k.sections.length := by simp [made, bench, opened]
      rw [Bench.ownerNumber_file one owned]
      rfl
  have shown := h.showsSymbol symbols listed
  rw [slot, number] at shown
  refine ⟨_, shown, fun readable => ?_⟩
  have whole : img.strings = k.file.strings k.delivered := by
    rw [strings, StringTable.covered_eq]
    rw [strings_bench made]
    exact readable.table_lt
  rw [whole]
  exact h.resolveName_symbol (namesReadable_bench made readable) listed _

/-- The image of the bytes of the object shows the code. -/
theorem showsCode_bench {source : Bytes} (cut : FileName.records source = .ok pieces)
    (sections : img.sections = (k.file.sectionHeaders k.delivered).toArray)
    (strings : img.strings = (k.file.strings k.delivered).covered)
    (relocations : img.relocations =
      ((k.file.sectionList k.delivered).map fun x => (k.file.relocations k.delivered x).toArray).toArray) :
    img.ShowsCode (k.file.layout k.delivered) code labels fixups source := by
  have direct : ∀ n ∈ ([".text", ".data", ".bss", ".file"] : List Bytes), Name.Direct n := by decide +kernel
  simp only [List.forall_mem_cons] at direct
  obtain ⟨direct_text, direct_data, direct_bss, direct_file, -⟩ := direct
  have text : k.Makes 0 ".text" code (relocationCount labels fixups) := by
    rw [made]
    exact ⟨_, rfl, rfl, rfl, by simp [Section.relocatedBy, length_relocationsFrom]⟩
  have data : k.Makes 1 ".data" .empty 0 := by
    rw [made]
    exact ⟨_, rfl, rfl, rfl, rfl⟩
  have bss : k.Makes 2 ".bss" .empty 0 := by
    rw [made]
    exact ⟨_, rfl, rfl, rfl, rfl⟩
  have records := FileName.length_records cut
  constructor
  case sections_eq => simp [sections, Bench.file, Bench.sectionIds, made, bench, opened]
  case text => exact Bench.showsSection text direct_text h sections
  case data => exact Bench.showsSection data direct_data h sections
  case bss => exact Bench.showsSection bss direct_bss h sections
  case relocations_eq =>
    obtain ⟨x, hx, -, -, count⟩ := text
    refine ⟨(k.file.relocations k.delivered x.released).toArray, ?_, ?_⟩
    · rw [relocations, List.getElem?_toArray, List.getElem?_map, Bench.sectionList_getElem? hx]
      rfl
    · simpa [ObjectFile.relocations, Section.released] using count
  case symbols_eq =>
    simp [symbols, Bench.file, Bench.symbolIds, made, bench, headSymbols]
    omega
  case file => exact shows_file made h symbols cut direct_file
  case textSymbol =>
    rw [← records]
    exact shows_sectionSymbol made h symbols (by decide) text direct_text (by rw [made]; rfl)
  case dataSymbol =>
    rw [← records]
    exact shows_sectionSymbol made h symbols (by decide) data direct_data (by rw [made]; rfl)
  case bssSymbol =>
    rw [← records]
    exact shows_sectionSymbol made h symbols (by decide) bss direct_bss (by rw [made]; rfl)
  case label =>
    intro j label hj
    rw [← records]
    exact shows_label made h symbols strings hj

end Shown

/-- There is an object for the documented inputs and no others, and its bytes, if it has any, show the
code, with the labels after the records of the source's name. -/
theorem object_shows (m : Machine) (code : Bytes) (labels : List CodeLabel) (fixups : List CodeFixup)
    (source : Bytes) (p : Pool) :
    ((∃ f q, object m code labels fixups source p = .ok (f, q)) ↔ Documented m labels fixups source) ∧
      ∀ f q d, object m code labels fixups source p = .ok (f, q) → f.bytes q = .ok d →
        ∃ img, Image.inspect d = .ok img ∧ img.ShowsCode d code labels fixups source := by
  refine ⟨exists_object, ?_⟩
  intro f q d made encoded
  obtain ⟨align, pieces, -, cut, -, same⟩ := object_eq_ok.mp made
  obtain ⟨rfl, rfl⟩ := Prod.mk.inj same
  obtain ⟨encodable, rfl⟩ := ObjectFile.bytes_eq_ok.mp encoded
  exact ⟨_, ObjectFile.inspect_layout encodable, showsCode_bench rfl encodable rfl cut rfl rfl rfl⟩

/-- A name of two records, code and labels: one defined here, one public with a long name, one external. -/
def callSource : Bytes := "src/startup/call.asm"

def callLabels : List CodeLabel :=
  [{ name := "loop", offset := 2 }, { name := "call_handler", isPublic := true },
   { name := "puts", isExternal := true }]

def callFixups : List CodeFixup :=
  [{ symbol := "puts", offset := 1, isRelative := true }, { symbol := "loop", offset := 8, bits := 32 }]

/-- The object for the call is read back, with its labels behind two records of the name. -/
theorem object_shows_call : ∃ f q d img,
    object .amd64 ⟨.replicate 12 144⟩ callLabels callFixups callSource {} = .ok (f, q) ∧ f.bytes q = .ok d ∧
      Image.inspect d = .ok img ∧ img.ShowsCode d ⟨.replicate 12 144⟩ callLabels callFixups callSource := by
  have cut : FileName.records callSource = .ok [.ofBytes "src/startup/call.a", .ofBytes "sm"] := by decide +kernel
  have accepted : ∀ e ∈ callFixups, (∃ label ∈ callLabels, label.name = e.symbol) ∧ e.Supported := by
    simp [callFixups, callLabels, CodeFixup.Supported]
  have made : object .amd64 ⟨.replicate 12 144⟩ callLabels callFixups callSource {} = .ok (_, _) :=
    object_eq_ok.mpr ⟨_, _, rfl, cut, accepted, rfl⟩
  let k := bench {} .amd64 (.alignedTo 4) ⟨.replicate 12 144⟩ callLabels callFixups
    [.ofBytes "src/startup/call.a", .ofBytes "sm"]
  have encodable : k.file.Encodable k.delivered := by decide +kernel
  have encoded := ObjectFile.bytes_eq_ok.mpr ⟨encodable, rfl⟩
  obtain ⟨img, read, shown⟩ := (object_shows ..).2 _ _ _ made encoded
  exact ⟨_, _, _, img, made, encoded, read, shown⟩

end Code

end CoffWorks
