import CoffWorks.Proofs.Image
import CoffWorks.Proofs.StringTable
import CoffWorks.Object.Encode

namespace CoffWorks

open Bytes

/-- The header before its pointer is known. -/
def FileHeader.unplaced (h : FileHeader) : FileHeader := { h with symbolTable := 0 }

/-- The header before its pointers are known. -/
def SectionHeader.unplaced (h : SectionHeader) : SectionHeader :=
  { h with rawData := 0, relocations := 0, lineNumbers := 0 }

namespace Section

/-- The counts of the section fit the fields of a header. -/
def Fits (x : Section) : Prop := x.data.size < UInt32.size ∧ x.relocations.size < UInt16.size

/-- The data, the relocations and the line number block. -/
def bodySize (x : Section) : Nat :=
  x.data.size + RelocationRecord.size * x.relocations.size + 8

/-- The header of a section whose body stands at `position`. -/
def header (x : Section) (offset position : Nat) : SectionHeader :=
  { name := Name.forSection offset x.name
    virtualSize := .ofNat x.data.size
    virtualAddress := x.address
    rawSize := .ofNat x.data.size
    rawData := .ofNat position
    relocations := .ofNat (position + x.data.size)
    lineNumbers := .ofNat (position + x.data.size + RelocationRecord.size * x.relocations.size)
    relocationCount := .ofNat x.relocations.size
    lineNumberCount := 0
    flags := x.flags }

end Section

/-- The header has the sizes of section `x` and points to its data, its relocations and what follows
them, when these stand after `before`. -/
structure SectionHeader.Places (h : SectionHeader) (x : Section) (before relocations : Bytes) : Prop where
  rawSize_eq : h.rawSize.toNat = x.data.size
  relocationCount_eq : h.relocationCount.toNat = x.relocations.size
  rawData_eq : h.rawData.toNat = before.size
  relocations_eq : h.relocations.toNat = (before ++ x.data).size
  lineNumbers_eq : h.lineNumbers.toNat = (before ++ (x.data ++ relocations)).size

namespace Aux

/-- The record can be written. -/
def Encodable (p : Pool) : Aux → Prop
  | definition (some target) _ => (p.getSection target).Fits
  | definition none _ => False
  | fileName _ => True
  | unknown => False

/-- The record; one that cannot be written is left empty. -/
def field (p : Pool) : Aux → Field 18
  | definition (some target) number =>
    let x := p.getSection target
    .pad 18 (word 4 x.data.size ++ word 2 x.relocations.size ++ word 2 0 ++ word 4 0
      ++ word 2 number.toNat ++ zeros 4)
  | fileName piece => piece.field
  | _ => .pad 18 .empty

end Aux

namespace ObjectFile

variable (f : ObjectFile) (p : Pool)

def sectionList : List Section := f.sections.toList.map p.getSection

def symbolList : List Symbol := f.symbols.toList.map p.getSymbol

/-- All names, in the order in which they are stored. -/
def names : List Bytes := (f.sectionList p).map (·.name) ++ (f.symbolList p).map (·.name)

/-- The string table of the file. -/
def strings : StringTable := .ofNames (f.names p)

/-- The string table after the first `k` names. -/
def stringsAt (k : Nat) : StringTable := .ofNames ((f.names p).take k)

/-- Where name number `k` is in the string table, if it is long. -/
def nameOffset (k : Nat) : Nat := StringTable.bias + (f.stringsAt p k).size

/-- Where the body of section number `i` starts. -/
def bodyPosition (i : Nat) : Nat :=
  Encode.headerPosition f.sections.size + (((f.sectionList p).take i).map Section.bodySize).sum

/-- Where the symbol table starts. -/
def symbolTablePosition : Nat := f.bodyPosition p f.sections.size

/-- The slot of symbol number `k`: each symbol before it takes one, and so do their auxiliary
records. -/
def slot (k : Nat) : Nat := (((f.symbolList p).take k).map fun x => 1 + x.aux.length).sum

/-- The slot of a symbol, that of its first occurrence. -/
def slotOf (s : SymbolId) : Nat := f.slot p (f.symbols.toList.idxOf s)

def header : FileHeader :=
  { machine := f.machine
    sections := .ofNat f.sections.size
    timestamp := 0
    symbolTable := .ofNat (f.symbolTablePosition p)
    symbols := .ofNat (f.slotCount p)
    optionalHeader := 0
    flags := f.flags }

def sectionHeaders : List SectionHeader :=
  (f.sectionList p).mapIdx fun i x => x.header (f.nameOffset p i) (f.bodyPosition p i)

def relocation (r : Relocation) : RelocationRecord :=
  { address := r.address, symbolIndex := .ofNat (f.slotOf p r.symbol), type := r.type }

def relocations (x : Section) : List RelocationRecord := x.relocations.toList.map (f.relocation p)

def relocationTable (x : Section) : Bytes := concat ((f.relocations p x).map (·.encode))

/-- The data of a section, its relocations and the line number block. -/
def body (x : Section) : Bytes := x.data ++ (f.relocationTable p x ++ zeros 8)

/-- The number of the section that a symbol belongs to, zero without one. -/
def ownerNumber (x : Symbol) : Nat := x.owner.elim 0 f.sectionIndex

/-- What stands for a symbol at `slot` whose name, if it is long, is at `offset`. -/
def symbolEntry (offset slot : Nat) (x : Symbol) : SymbolEntry :=
  { record :=
      { name := Name.forSymbol offset x.name
        value := x.value
        sectionNumber := (UInt16.ofNat (f.ownerNumber x)).toInt16
        type := x.type
        storageClass := x.storageClass
        auxCount := .ofNat x.aux.length }
    index := .ofNat slot
    aux := x.aux.map (·.field p) }

def symbolEntries : List SymbolEntry :=
  (f.symbolList p).mapIdx fun k x => f.symbolEntry p (f.nameOffset p (f.sections.size + k)) (f.slot p k) x

/-- The records of the file. -/
def image : Image :=
  { header := f.header p
    sections := (f.sectionHeaders p).toArray
    relocations := ((f.sectionList p).map fun x => (f.relocations p x).toArray).toArray
    symbols := (f.symbolEntries p).toArray
    strings := f.strings p }

/-- The section directory. -/
def directory : Bytes := concat ((f.sectionHeaders p).map (·.encode))

/-- The bodies of the first `i` sections. -/
def bodies (i : Nat) : Bytes := concat (((f.sectionList p).take i).map (f.body p))

/-- All that stands before the body of section number `i`. -/
def before (i : Nat) : Bytes := (f.header p).encode ++ (f.directory p ++ f.bodies p i)

def symbolTable : Bytes := concat ((f.symbolEntries p).map (·.encode))

/-- The whole file. -/
def layout : Bytes :=
  (f.header p).encode ++ (f.directory p ++ (f.bodies p f.sections.size ++
    (f.symbolTable p ++ ((f.strings p).lengthBytes ++ (f.strings p).blob))))

/-- Everything in the file fits its field, and refers only to what is in the file. -/
structure Encodable : Prop where
  sections_lt : f.sections.size < UInt16.size
  slots_lt : f.slotCount p < UInt32.size
  symbolTable_lt : f.symbolTablePosition p < UInt32.size
  name_fits : ∀ k n, (f.names p)[k]? = some n → Text.isValid n ∧ Name.Reaches (f.nameOffset p k) n
  section_fits : ∀ x ∈ f.sectionList p, x.Fits
  relocation_mem : ∀ x ∈ f.sectionList p, ∀ r ∈ x.relocations, r.symbol ∈ f.symbols
  owner_mem : ∀ x ∈ f.symbolList p, ∀ o ∈ x.owner, o ∈ f.sections
  aux_lt : ∀ x ∈ f.symbolList p, x.aux.length < UInt8.size
  aux_encodable : ∀ x ∈ f.symbolList p, ∀ a ∈ x.aux, a.Encodable p

end ObjectFile

instance (x : Section) : Decidable x.Fits := inferInstanceAs (Decidable (_ ∧ _))

instance (p : Pool) : DecidablePred (Aux.Encodable p)
  | .definition (some target) _ => inferInstanceAs (Decidable (p.getSection target).Fits)
  | .definition none _ | .unknown => isFalse id
  | .fileName _ => isTrue trivial

instance (f : ObjectFile) (p : Pool) : Decidable (f.Encodable p) :=
  decidable_of_iff
    ((f.sections.size < UInt16.size ∧ f.slotCount p < UInt32.size ∧ f.symbolTablePosition p < UInt32.size) ∧
      (∀ k, (h : k < (f.names p).length) →
        Text.isValid (f.names p)[k] ∧ Name.Reaches (f.nameOffset p k) (f.names p)[k]) ∧
      (∀ x ∈ f.sectionList p, x.Fits ∧ ∀ r ∈ x.relocations, r.symbol ∈ f.symbols) ∧
      (∀ x ∈ f.symbolList p, (∀ o ∈ x.owner, o ∈ f.sections) ∧ x.aux.length < UInt8.size ∧
        ∀ a ∈ x.aux, a.Encodable p))
    ⟨fun ⟨⟨sections, slots, table⟩, names, bodies, symbols⟩ =>
      ⟨sections, slots, table,
        fun k n hk => by
          obtain ⟨inside, rfl⟩ := List.getElem?_eq_some_iff.mp hk
          exact names k inside,
        fun x hx => (bodies x hx).1, fun x hx => (bodies x hx).2, fun x hx => (symbols x hx).1,
        fun x hx => (symbols x hx).2.1, fun x hx => (symbols x hx).2.2⟩,
    fun h => ⟨⟨h.sections_lt, h.slots_lt, h.symbolTable_lt⟩,
      fun k hk => h.name_fits k _ (List.getElem?_eq_getElem hk),
      fun x hx => ⟨h.section_fits x hx, h.relocation_mem x hx⟩,
      fun x hx => ⟨h.owner_mem x hx, h.aux_lt x hx, h.aux_encodable x hx⟩⟩⟩

namespace ObjectFile

variable {f : ObjectFile} {p : Pool}

@[simp] theorem length_sectionList : (f.sectionList p).length = f.sections.size := by
  simp [sectionList]

@[simp] theorem length_symbolList : (f.symbolList p).length = f.symbols.size := by
  simp [symbolList]

@[simp] theorem length_sectionHeaders : (f.sectionHeaders p).length = f.sections.size := by
  simp [sectionHeaders]

@[simp] theorem length_symbolEntries : (f.symbolEntries p).length = f.symbols.size := by
  simp [symbolEntries]

theorem names_section {i : Nat} {x : Section} (h : (f.sectionList p)[i]? = some x) :
    (f.names p)[i]? = some x.name := by
  have inside : i < (f.sectionList p).length := (List.getElem?_eq_some_iff.mp h).1
  rw [names, List.getElem?_append_left (by simpa using inside), List.getElem?_map, h]
  rfl

theorem names_symbol {k : Nat} {x : Symbol} (h : (f.symbolList p)[k]? = some x) :
    (f.names p)[f.sections.size + k]? = some x.name := by
  rw [names, List.getElem?_append_right (by simp)]
  simp [h]

/-- A name is that of a section or of a symbol, sections first. -/
theorem names_cases {k : Nat} {n : Bytes} (h : (f.names p)[k]? = some n) :
    (∃ x, (f.sectionList p)[k]? = some x ∧ x.name = n) ∨
      ∃ j x, k = f.sections.size + j ∧ (f.symbolList p)[j]? = some x ∧ x.name = n := by
  rw [names] at h
  rcases Nat.lt_or_ge k f.sections.size with hk | hk
  · rw [List.getElem?_append_left (by simpa using hk), List.getElem?_map, Option.map_eq_some_iff] at h
    exact .inl h
  · rw [List.getElem?_append_right (by simpa using hk), List.getElem?_map, Option.map_eq_some_iff] at h
    obtain ⟨x, hx, hn⟩ := h
    refine .inr ⟨k - f.sections.size, x, by omega, ?_, hn⟩
    simpa using hx

theorem stringsAt_succ {k : Nat} {n : Bytes} (h : (f.names p)[k]? = some n) :
    f.stringsAt p (k + 1) = (f.stringsAt p k).extend n := by
  rw [stringsAt, take_succ_of_getElem? h, StringTable.ofNames_concat]
  rfl

/-- A section header points to where the body of its section stands. -/
theorem sectionHeaders_getElem? {i : Nat} {x : Section} (h : (f.sectionList p)[i]? = some x) :
    (f.sectionHeaders p)[i]? = some (x.header (f.nameOffset p i) (f.bodyPosition p i)) := by
  rw [sectionHeaders, List.getElem?_mapIdx, h]
  rfl

/-- A symbol has the slot that comes after all records before it. -/
theorem symbolEntries_getElem? {k : Nat} {x : Symbol} (h : (f.symbolList p)[k]? = some x) :
    (f.symbolEntries p)[k]? =
      some (f.symbolEntry p (f.nameOffset p (f.sections.size + k)) (f.slot p k) x) := by
  rw [symbolEntries, List.getElem?_mapIdx, h]
  rfl

theorem symbolEntries_mem {e : SymbolEntry} (h : e ∈ f.symbolEntries p) : ∃ k x,
    (f.symbolList p)[k]? = some x ∧
      f.symbolEntry p (f.nameOffset p (f.sections.size + k)) (f.slot p k) x = e := by
  obtain ⟨k, hk, rfl⟩ := List.mem_mapIdx.mp h
  exact ⟨k, _, List.getElem?_eq_getElem hk, rfl⟩

theorem take_sectionList : (f.sectionList p).take f.sections.size = f.sectionList p :=
  List.take_of_length_le (by simp)

private theorem take_symbolList : (f.symbolList p).take f.symbols.size = f.symbolList p :=
  List.take_of_length_le (by simp)

theorem take_sectionHeaders : (f.sectionHeaders p).take f.sections.size = f.sectionHeaders p :=
  List.take_of_length_le (by simp)

theorem take_symbolEntries : (f.symbolEntries p).take f.symbols.size = f.symbolEntries p :=
  List.take_of_length_le (by simp)

theorem bodyPosition_succ {i : Nat} {x : Section} (h : (f.sectionList p)[i]? = some x) :
    f.bodyPosition p (i + 1) = f.bodyPosition p i + x.bodySize := by
  simp [bodyPosition, take_succ_of_getElem? h, Nat.add_assoc]

theorem bodyPosition_le_symbolTablePosition (i : Nat) :
    f.bodyPosition p i ≤ f.symbolTablePosition p := by
  rw [symbolTablePosition, bodyPosition, bodyPosition, take_sectionList]
  exact Nat.add_le_add_left (sum_map_take_le _ _ i) _

theorem slot_succ {k : Nat} {x : Symbol} (h : (f.symbolList p)[k]? = some x) :
    f.slot p (k + 1) = f.slot p k + 1 + x.aux.length := by
  simp [slot, take_succ_of_getElem? h, Nat.add_assoc]

theorem slot_size : f.slot p f.symbols.size = f.slotCount p := by
  have sum (l : List SymbolId) (n : Nat) :
      l.foldl (fun n s => n + 1 + (p.getSymbol s).aux.length) n =
        n + (l.map fun s => 1 + (p.getSymbol s).aux.length).sum := by
    induction l generalizing n with
    | nil => rfl
    | cons s rest ih =>
      rw [List.foldl_cons, ih, List.map_cons, List.sum_cons]
      omega
  rw [slot, take_symbolList, slotCount, ← Array.foldl_toList, sum, symbolList, List.map_map, Nat.zero_add]
  rfl

theorem slot_le_slotCount (k : Nat) : f.slot p k ≤ f.slotCount p := by
  rw [← slot_size, slot, slot, take_symbolList]
  exact sum_map_take_le _ _ k

@[simp] theorem size_relocationTable (x : Section) :
    (f.relocationTable p x).size = RelocationRecord.size * x.relocations.size := by
  rw [relocationTable, size_concat_records _ _ RelocationRecord.size_encode]
  simp [relocations]

private theorem size_body (x : Section) : (f.body p x).size = x.bodySize := by
  simp [body, Section.bodySize, Nat.add_assoc]

theorem size_bodies (i : Nat) :
    (f.bodies p i).size = (((f.sectionList p).take i).map Section.bodySize).sum := by
  simp only [bodies, size_concat_map, size_body]

private theorem size_directory : (f.directory p).size = SectionHeader.size * f.sections.size := by
  rw [directory, size_concat_records _ _ SectionHeader.size_encode, length_sectionHeaders]

/-- A body starts where all that stands before it ends. -/
theorem size_before (i : Nat) : (f.before p i).size = f.bodyPosition p i := by
  simp only [before, ByteArray.size_append, FileHeader.size_encode, size_directory, size_bodies,
    bodyPosition, Encode.headerPosition, Nat.add_assoc]

/-- In an encodable file, nothing that a section header holds is cut off. -/
theorem Encodable.places (h : f.Encodable p) {i : Nat} {x : Section} (hx : (f.sectionList p)[i]? = some x)
    (offset : Nat) :
    (x.header offset (f.bodyPosition p i)).Places x (f.before p i) (f.relocationTable p x) := by
  obtain ⟨data, count⟩ := h.section_fits x (List.mem_of_getElem? hx)
  have stop := bodyPosition_le_symbolTablePosition (f := f) (p := p) (i + 1)
  have table := h.symbolTable_lt
  rw [bodyPosition_succ hx, Section.bodySize] at stop
  refine ⟨UInt32.toNat_ofNat_of_lt' data, UInt16.toNat_ofNat_of_lt' count, ?_, ?_, ?_⟩
  · rw [size_before]
    exact UInt32.toNat_ofNat_of_lt' (by omega)
  · rw [ByteArray.size_append, size_before]
    exact UInt32.toNat_ofNat_of_lt' (by omega)
  · rw [ByteArray.size_append, ByteArray.size_append, size_before, size_relocationTable, ← Nat.add_assoc]
    exact UInt32.toNat_ofNat_of_lt' (by omega)

theorem Encodable.slotOf_lt (h : f.Encodable p) (s : SymbolId) : f.slotOf p s < UInt32.size :=
  Nat.lt_of_le_of_lt (slot_le_slotCount _) h.slots_lt

end ObjectFile

end CoffWorks
