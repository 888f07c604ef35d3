import CoffWorks.Proofs.Object.Encode

namespace CoffWorks

open Bytes

theorem forall₂_mapIdx {α β : Type} {R : β → α → Prop} {g : Nat → α → β} {l : List α}
    (h : ∀ i a, l[i]? = some a → R (g i a) a) : List.Forall₂ R (l.mapIdx g) l := by
  rw [List.forall₂_iff_get]
  refine ⟨List.length_mapIdx, ?_⟩
  intro i _ hi
  simp only [List.get_eq_getElem, List.getElem_mapIdx]
  exact h i _ (List.getElem?_eq_getElem hi)

namespace ObjectFile

variable {f : ObjectFile} {p : Pool}

/-- The body of a section stands where its position says. -/
private theorem layout_eq_before {i : Nat} {x : Section} (hx : (f.sectionList p)[i]? = some x) :
    ∃ after, f.layout p = f.before p i ++ (f.body p x ++ after) := by
  obtain ⟨inside, eq⟩ := List.getElem?_eq_some_iff.mp hx
  have all : (f.sectionList p).take f.sections.size =
      (f.sectionList p).take i ++ x :: (f.sectionList p).drop (i + 1) := by
    rw [take_sectionList, ← eq, ← List.drop_eq_getElem_cons inside, List.take_append_drop]
  refine ⟨concat (((f.sectionList p).drop (i + 1)).map (f.body p)) ++
    (f.symbolTable p ++ ((f.strings p).lengthBytes ++ (f.strings p).blob)), ?_⟩
  rw [layout, bodies, all]
  simp [before, bodies, concat_append, ByteArray.append_assoc]

/-- The entries take the slots that are counted for their symbols. -/
theorem sum_slots_symbolEntries (k : Nat) :
    (((f.symbolEntries p).take k).map SymbolEntry.slots).sum = f.slot p k := by
  have slots : (f.symbolEntries p).map SymbolEntry.slots =
      (f.symbolList p).map fun x => 1 + x.aux.length := by
    apply List.ext_getElem?
    intro i
    simp [symbolEntries, symbolEntry, SymbolEntry.slots, Function.comp_def]
  rw [List.map_take, slots, ← List.map_take, slot]

theorem sum_slots_eq_slotCount : ((f.symbolEntries p).map SymbolEntry.slots).sum = f.slotCount p := by
  rw [← slot_size, ← sum_slots_symbolEntries, take_symbolEntries]

theorem size_symbolTable : (f.symbolTable p).size = SymbolRecord.size * f.slotCount p := by
  rw [symbolTable, size_concat_map, ← sum_slots_eq_slotCount, ← List.sum_map_mul_left]
  simp only [SymbolEntry.size_encode]

/-- The reader counts positions in 64 bits; up to the string table they stay far below. -/
private theorem size_before_strings (h : f.Encodable p) :
    (f.before p f.sections.size).size + (f.symbolTable p).size + 4 < 2 ^ 63 := by
  have table : f.symbolTablePosition p < 2 ^ 32 := h.symbolTable_lt
  have slots : f.slotCount p < 2 ^ 32 := h.slots_lt
  have start : (f.before p f.sections.size).size = f.symbolTablePosition p := size_before _
  rw [size_symbolTable, SymbolRecord.size]
  omega

/-- The symbol table has no gaps. -/
theorem symbolEntries_contiguous (h : f.Encodable p) : SymbolEntry.Contiguous 0 (f.symbolEntries p) := by
  intro k e he
  obtain ⟨inside, -⟩ := List.getElem?_eq_some_iff.mp he
  have hx := List.getElem?_eq_getElem (l := f.symbolList p) (i := k) (by simpa using inside)
  rw [symbolEntries_getElem? hx] at he
  obtain rfl := Option.some.inj he
  have count := h.aux_lt _ (List.mem_of_getElem? hx)
  refine ⟨?_, ?_⟩
  · rw [sum_slots_symbolEntries, Nat.zero_add]
    exact UInt32.toNat_ofNat_of_lt' (Nat.lt_of_le_of_lt (slot_le_slotCount k) h.slots_lt)
  · rw [symbolEntry, List.length_map]
    exact UInt8.toNat_ofNat_of_lt' count

/-- The header of a section points to its relocations. -/
private theorem relocates_header (h : f.Encodable p) {i : Nat} {x : Section} (hx : (f.sectionList p)[i]? = some x) :
    Image.Relocates (f.layout p) (x.header (f.nameOffset p i) (f.bodyPosition p i))
      (f.relocations p x) := by
  obtain ⟨after, split⟩ := layout_eq_before hx
  have places := h.places hx (f.nameOffset p i)
  have bound := (x.header (f.nameOffset p i) (f.bodyPosition p i)).lineNumbers.toNat_lt
  rw [places.lineNumbers_eq, ← ByteArray.append_assoc] at bound
  refine ⟨?_, f.before p i ++ x.data, zeros 8 ++ after, ?_, places.relocations_eq, ?_⟩
  · simp [places.relocationCount_eq, relocations]
  · rw [split, body, relocationTable]
    simp only [ByteArray.append_assoc]
  · exact Nat.lt_trans bound (by decide)

private theorem forall₂_relocates (h : f.Encodable p) :
    List.Forall₂ (Image.Relocates (f.layout p)) (f.sectionHeaders p)
      ((f.sectionList p).map (f.relocations p)) := by
  rw [List.forall₂_map_right_iff]
  exact forall₂_mapIdx fun i x hx => relocates_header h hx

private theorem readSections_layout (h : f.Encodable p) (rest : Bytes) :
    Image.readSections (f.header p).sections.toNat 0 #[]
        (.between (f.header p).encode (f.directory p ++ rest)) =
      .ok ((f.sectionHeaders p).toArray, .between ((f.header p).encode ++ f.directory p) rest) := by
  have count : (f.header p).sections.toNat = (f.sectionHeaders p).length := by
    rw [length_sectionHeaders]
    exact UInt16.toNat_ofNat_of_lt' h.sections_lt
  have small : (f.header p).encode.size + (f.directory p).size < 2 ^ 63 := by
    have table : (f.before p f.sections.size).size < 2 ^ 32 := (size_before _).trans_lt h.symbolTable_lt
    simp only [before, ByteArray.size_append] at table
    omega
  rw [count, directory, Image.readSections_between _ _ _ _ _ small, Array.empty_append]

private theorem readSymbols_layout (h : f.Encodable p) (rest : Bytes) :
    Image.readSymbols (f.header p).symbols 0 #[]
        (.between (f.before p f.sections.size) (f.symbolTable p ++ rest)) =
      .ok ((f.symbolEntries p).toArray, .between (f.before p f.sections.size ++ f.symbolTable p) rest) := by
  have count : 0 + ((f.symbolEntries p).map SymbolEntry.slots).sum = (f.header p).symbols.toNat := by
    rw [sum_slots_eq_slotCount, Nat.zero_add]
    exact (UInt32.toNat_ofNat_of_lt' h.slots_lt).symm
  have bound := size_before_strings h
  have read := Image.readSymbols_between (f.symbolEntries p) (f.before p f.sections.size) rest
    (f.header p).symbols 0 #[] (symbolEntries_contiguous h) count (by rw [← symbolTable]; omega)
  rw [symbolTable, read, Array.empty_append]

/-- Reading the layout gives its records. A string table that is longer than its length can say is cut. -/
theorem inspect_layout (h : f.Encodable p) :
    Image.inspect (f.layout p) = .ok { f.image p with strings := (f.strings p).covered } := by
  have bound := size_before_strings h
  let strings := (f.strings p).lengthBytes ++ (f.strings p).blob
  let rest := f.bodies p f.sections.size ++ (f.symbolTable p ++ strings)
  have header_read (record : Unit → Bytes) := Image.recordBytes_between .empty (f.header p).encode
    (f.directory p ++ rest) record (by simp [FileHeader.size])
  have parsed : FileHeader.parse (f.header p).encode = .ok (f.header p) := by
    simpa using FileHeader.parse_encode (f.header p) .empty
  have no_optional (record : Unit → Bytes) := Image.seekTo_between
    (.between (f.header p).encode (f.directory p ++ rest)) record _ _ rfl (by simp [FileHeader.size])
  obtain ⟨c, data, relocations⟩ := Image.readAllRelocations_eq (forall₂_relocates h) 0 #[]
    (.between ((f.header p).encode ++ f.directory p) rest)
    (by simp [layout, rest, strings, ByteArray.append_assoc])
  have table_seek (record : Unit → Bytes) := Image.seekTo_between c record (f.before p f.sections.size)
    (f.symbolTable p ++ strings) (by rw [data]; simp [layout, before, strings, ByteArray.append_assoc])
    (by omega)
  have strings_read : Image.readStrings (.between (f.before p f.sections.size ++ f.symbolTable p) strings) =
      .ok (f.strings p).covered :=
    Image.readStrings_between _ _ (by rwa [ByteArray.size_append])
  have split : f.layout p = (f.header p).encode ++ (f.directory p ++ rest) := rfl
  have position : (f.header p).symbolTable.toNat = (f.before p f.sections.size).size := by
    rw [size_before]
    exact UInt32.toNat_ofNat_of_lt' h.symbolTable_lt
  have present : ¬ ((f.header p).symbolTable = 0 ∧ (f.header p).symbols = 0) := by
    rintro ⟨absent, -⟩
    rw [absent, before, ByteArray.size_append, FileHeader.size_encode, FileHeader.size] at position
    simp at position
    omega
  simp only [ByteArray.empty_append, FileHeader.size_encode] at header_read no_optional
  simp only [Array.empty_append] at relocations
  rw [Image.inspect, Cursor.start_eq_between, split]
  simp only [bind, Except.bind, header_read, parsed]
  have optional : (f.header p).optionalHeader.toNat = 0 := rfl
  simp only [Cursor.between_pos, FileHeader.size_encode, optional, Nat.add_zero, no_optional,
    readSections_layout h rest, relocations]
  rw [if_neg present]
  simp only [position, table_seek, readSymbols_layout h strings, strings_read, pure, Except.pure]
  simp [image, Function.comp_def]

/-- The data of a section is found by the pointer in its header. -/
theorem sectionData_layout (h : f.Encodable p) {img : Image}
    (himg : img.sections = (f.sectionHeaders p).toArray) {i : Nat} {x : Section}
    (hx : (f.sectionList p)[i]? = some x) : img.sectionData (f.layout p) i = .ok x.data := by
  obtain ⟨after, split⟩ := layout_eq_before hx
  have places := h.places hx (f.nameOffset p i)
  have bound := (x.header (f.nameOffset p i) (f.bodyPosition p i)).relocations.toNat_lt
  rw [places.relocations_eq, ByteArray.size_append] at bound
  have found : img.section? i = some (x.header (f.nameOffset p i) (f.bodyPosition p i)) := by
    rw [Image.section?, if_pos (Int.natCast_nonneg i), himg]
    simpa using sectionHeaders_getElem? hx
  rw [body, ByteArray.append_assoc] at split
  have seek (record : Unit → Bytes) :=
    Image.seekTo_between (.start (f.layout p)) record (f.before p i) _ split (by omega)
  have read (record : Unit → Bytes) := Image.recordBytes_between (f.before p i) x.data
    (f.relocationTable p x ++ zeros 8 ++ after) record (by omega)
  rw [Image.sectionData, found]
  simp only [places.rawData_eq, places.rawSize_eq, bind, Except.bind, seek, read, pure, Except.pure]

end ObjectFile

/-- All that the header says about the section itself. -/
structure SectionHeader.Mirrors (h : SectionHeader) (x : Section) : Prop where
  virtualAddress_eq : h.virtualAddress = x.address
  flags_eq : h.flags = x.flags
  virtualSize_eq : h.virtualSize.toNat = x.data.size
  rawSize_eq : h.rawSize.toNat = x.data.size
  relocationCount_eq : h.relocationCount.toNat = x.relocations.size

structure RelocationRecord.Mirrors (r : RelocationRecord) (x : Relocation) : Prop where
  address_eq : r.address = x.address
  type_eq : r.type = x.type

/-- The auxiliary records are what the encoder writes for the symbol. -/
structure SymbolEntry.Mirrors (p : Pool) (e : SymbolEntry) (x : Symbol) : Prop where
  value_eq : e.record.value = x.value
  type_eq : e.record.type = x.type
  storageClass_eq : e.record.storageClass = x.storageClass
  auxCount_eq : e.record.auxCount.toNat = x.aux.length
  aux_eq : ∀ path, Encode.auxRecords p path 0 .empty x.aux = .ok (concat (e.aux.map (·.bytes)))

/-- The image of the bytes `d` has the content of the file. -/
structure Image.Mirrors (img : Image) (d : Bytes) (f : ObjectFile) (p : Pool) : Prop where
  machine_eq : img.header.machine = f.machine
  flags_eq : img.header.flags = f.flags
  sections_eq : img.header.sections.toNat = f.sections.size
  symbols_eq : img.header.symbols.toNat = f.slotCount p
  timestamp_eq : img.header.timestamp = 0
  optionalHeader_eq : img.header.optionalHeader = 0
  section_mirrors : List.Forall₂ SectionHeader.Mirrors img.sections.toList (f.sectionList p)
  sectionData_eq : ∀ (i : Nat) x, (f.sectionList p)[i]? = some x → img.sectionData d i = .ok x.data
  relocation_mirrors : List.Forall₂
    (fun rs x => List.Forall₂ RelocationRecord.Mirrors rs.toList x.relocations.toList)
    img.relocations.toList (f.sectionList p)
  symbol_mirrors : List.Forall₂ (SymbolEntry.Mirrors p) img.symbols.toList (f.symbolList p)
  strings_eq : img.strings = (Encode.script p f).strings

namespace ObjectFile

variable {f : ObjectFile} {p : Pool}

theorem Encodable.image_mirrors (h : f.Encodable p) : (f.image p).Mirrors (f.layout p) f p where
  machine_eq := rfl
  flags_eq := rfl
  sections_eq := UInt16.toNat_ofNat_of_lt' h.sections_lt
  symbols_eq := UInt32.toNat_ofNat_of_lt' h.slots_lt
  timestamp_eq := rfl
  optionalHeader_eq := rfl
  section_mirrors := by
    apply forall₂_mapIdx
    intro i x hx
    have places := h.places hx (f.nameOffset p i)
    exact ⟨rfl, rfl, places.rawSize_eq, places.rawSize_eq, places.relocationCount_eq⟩
  sectionData_eq := fun i x hx => sectionData_layout h rfl hx
  relocation_mirrors := by
    simp only [image, List.forall₂_map_left_iff, relocations]
    exact List.forall₂_same.mpr fun x _ => List.forall₂_same.mpr fun r _ => ⟨rfl, rfl⟩
  symbol_mirrors := by
    apply forall₂_mapIdx
    intro k x hx
    have mem := List.mem_of_getElem? hx
    refine ⟨rfl, rfl, rfl, UInt8.toNat_ofNat_of_lt' (h.aux_lt x mem), ?_⟩
    intro path
    rw [Encode.auxRecords_eq_ok, ByteArray.empty_append]
    exact ⟨h.aux_encodable x mem, rfl⟩
  strings_eq := h.script_strings.symm

/-- Reading an encoded file succeeds, and the image mirrors the file. -/
theorem inspect_bytes_mirrors (f : ObjectFile) (p : Pool) {d : Bytes} (h : f.bytes p = .ok d)
    (hb : (Encode.script p f).strings.size < UInt32.size) :
    ∃ img, Image.inspect d = .ok img ∧ img.Mirrors d f p := by
  obtain ⟨c, rfl⟩ := bytes_eq_ok.mp h
  rw [c.script_strings] at hb
  refine ⟨f.image p, ?_, c.image_mirrors⟩
  rw [inspect_layout c, StringTable.covered_eq hb]
  rfl

theorem inspect_sampleFile_mirrors : ∃ d img, sampleFile.bytes samplePool = .ok d ∧
    Image.inspect d = .ok img ∧ img.Mirrors d sampleFile samplePool := by
  obtain ⟨img, read, mirrors⟩ :=
    inspect_bytes_mirrors sampleFile samplePool sampleFile_bytes sampleFile_strings
  exact ⟨_, img, sampleFile_bytes, read, mirrors⟩

end ObjectFile

end CoffWorks
