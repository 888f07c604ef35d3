import CoffWorks.Proofs.Object.Parts

namespace CoffWorks

open Bytes

namespace ObjectFile

variable (f : ObjectFile) (p : Pool)

/-- What is written after `i` section headers. -/
def afterHeaders (i : Nat) : Bytes :=
  (f.header p).unplaced.encode ++ concat (((f.sectionHeaders p).take i).map (·.unplaced.encode))

/-- What is written after the bodies of `i` sections. -/
def afterBodies (i : Nat) : Bytes :=
  (f.header p).unplaced.encode ++ (concat (((f.sectionHeaders p).take i).map (·.encode)) ++
    (concat (((f.sectionHeaders p).drop i).map (·.unplaced.encode)) ++ f.bodies p i))

/-- What is written after `k` symbols. -/
def afterSymbols (k : Nat) : Bytes :=
  (f.header p).encode ++ (f.directory p ++ (f.bodies p f.sections.size ++
    concat (((f.symbolEntries p).take k).map (·.encode))))

variable {f p}

private theorem size_afterBodies (i : Nat) : (f.afterBodies p i).size = f.bodyPosition p i := by
  have headers (l : List SectionHeader) :
      (concat (l.map (·.encode))).size = SectionHeader.size * l.length :=
    size_concat_records _ _ SectionHeader.size_encode l
  have unplaced (l : List SectionHeader) :
      (concat (l.map (·.unplaced.encode))).size = SectionHeader.size * l.length :=
    size_concat_records (fun h : SectionHeader => h.unplaced.encode) _
      (fun h => SectionHeader.size_encode h.unplaced) l
  have parts := congrArg List.length (List.take_append_drop i (f.sectionHeaders p))
  simp only [afterBodies, ByteArray.size_append, FileHeader.size_encode, headers, unplaced, size_bodies,
    bodyPosition, Encode.headerPosition]
  rw [List.length_append, length_sectionHeaders] at parts
  rw [← parts, Nat.mul_add]
  omega

theorem afterHeaders_zero : f.afterHeaders p 0 = (f.header p).unplaced.encode := by
  simp [afterHeaders]

theorem afterHeaders_size : f.afterHeaders p f.sections.size = f.afterBodies p 0 := by
  rw [afterHeaders, take_sectionHeaders]
  simp [afterBodies, bodies]

/-- The last pointer is that of the file header. -/
private theorem overwrite_afterBodies : (f.afterBodies p f.sections.size).overwrite FileHeader.symbolTableField
    (word 4 (f.afterBodies p f.sections.size).size) = f.afterSymbols p 0 := by
  have none : (f.sectionHeaders p).drop f.sections.size = [] := List.drop_eq_nil_of_le (by simp)
  rw [size_afterBodies, afterBodies, FileHeader.overwrite_symbolTable, take_sectionHeaders, none]
  simp [afterSymbols, directory, FileHeader.unplaced, header, symbolTablePosition]

private theorem afterSymbols_size : f.afterSymbols p f.symbols.size ++
    ((f.strings p).lengthBytes ++ (f.strings p).blob) = f.layout p := by
  rw [afterSymbols, take_symbolEntries]
  simp [layout, symbolTable, ByteArray.append_assoc]

theorem stringsAt_zero : f.stringsAt p 0 = {} := rfl

private theorem stringsAt_size : f.stringsAt p (f.sections.size + f.symbols.size) = f.strings p := by
  rw [stringsAt, List.take_of_length_le (by simp [names])]
  rfl

end ObjectFile

namespace Encode

open ObjectFile

variable {f : ObjectFile} {p : Pool} {s : Script} {C : Prop}

/-- A section header is written without its pointers, and the name is stored if it is long. -/
theorem sectionHeader_pass {i : Nat} {x : Section} (hx : (f.sectionList p)[i]? = some x)
    (h : s.Produces C (f.afterHeaders p i) (f.stringsAt p i)) :
    (sectionHeader i x s).Produces
      (C ∧ (Text.isValid x.name ∧ Name.Reaches (f.nameOffset p i) x.name) ∧ x.Fits)
      (f.afterHeaders p (i + 1)) (f.stringsAt p (i + 1)) := by
  have step := sectionHeader_produces h i x (f.bodyPosition p i)
  have content : f.afterHeaders p (i + 1) = f.afterHeaders p i ++
      (x.header (f.nameOffset p i) (f.bodyPosition p i)).unplaced.encode := by
    rw [afterHeaders, take_succ_of_getElem? (sectionHeaders_getElem? hx), List.map_append, concat_append]
    simp [afterHeaders, ByteArray.append_assoc]
  rw [content, stringsAt_succ (names_section hx)]
  exact step

/-- The body of a section is written, and the pointers of its header are filled in. -/
theorem sectionBody_pass {slots : Slots} (hs : Locates f p slots) {t : StringTable} {i : Nat} {x : Section}
    (hx : (f.sectionList p)[i]? = some x) (h : s.Produces C (f.afterBodies p i) t) :
    (sectionBody slots i x s).Produces
      (C ∧ f.bodyPosition p i + x.data.size + RelocationRecord.size * x.relocations.size < UInt32.size ∧
        ∀ r ∈ x.relocations, r.symbol ∈ f.symbols)
      (f.afterBodies p (i + 1)) t := by
  have head := sectionHeaders_getElem? hx
  obtain ⟨inside, eq⟩ := List.getElem?_eq_some_iff.mp head
  let a := (f.header p).unplaced.encode ++ concat (((f.sectionHeaders p).take i).map (·.encode))
  let c := concat (((f.sectionHeaders p).drop (i + 1)).map (·.unplaced.encode)) ++ f.bodies p i
  have before : f.afterBodies p i =
      a ++ ((x.header (f.nameOffset p i) (f.bodyPosition p i)).unplaced.encode ++ c) := by
    rw [afterBodies, List.drop_eq_getElem_cons inside, eq]
    simp [a, c, ByteArray.append_assoc]
  have after : f.afterBodies p (i + 1) =
      a ++ ((x.header (f.nameOffset p i) (f.bodyPosition p i)).encode ++ (c ++ f.body p x)) := by
    have bodies : f.bodies p (i + 1) = f.bodies p i ++ f.body p x := by
      simp [ObjectFile.bodies, take_succ_of_getElem? hx, concat_append]
    rw [afterBodies, take_succ_of_getElem? head, bodies]
    simp [a, c, concat_append, ByteArray.append_assoc]
  have position : a.size = headerPosition i := by
    have placed : (concat (((f.sectionHeaders p).take i).map (·.encode))).size = SectionHeader.size * i := by
      rw [size_concat_records _ _ SectionHeader.size_encode, List.length_take_of_le (Nat.le_of_lt inside)]
    rw [ByteArray.size_append, FileHeader.size_encode, placed, headerPosition]
  rw [before] at h
  rw [after]
  refine sectionBody_produces hs x _ _ position ?_ h
  rw [← before, size_afterBodies]

theorem symbolTable_pass {t : StringTable} (h : s.Produces C (f.afterBodies p f.sections.size) t) :
    (s.point FileHeader.symbolTableField "PointerToSymbolTable").Produces
      (C ∧ f.symbolTablePosition p < UInt32.size) (f.afterSymbols p 0) t := by
  have step := h.point FileHeader.symbolTableField "PointerToSymbolTable" (by
    rw [size_afterBodies, bodyPosition, headerPosition]
    exact Nat.le_trans (by decide) (Nat.le_trans (Nat.le_add_right _ _) (Nat.le_add_right _ _)))
  rwa [overwrite_afterBodies, size_afterBodies] at step

/-- A symbol is written with its records, and the name is stored if it is long. -/
theorem symbol_pass {k : Nat} {x : Symbol} (hx : (f.symbolList p)[k]? = some x)
    (h : s.Produces C (f.afterSymbols p k) (f.stringsAt p (f.sections.size + k))) :
    (symbol p f k x s).Produces (C ∧ SymbolFits f p (f.stringsAt p (f.sections.size + k)) x)
      (f.afterSymbols p (k + 1)) (f.stringsAt p (f.sections.size + (k + 1))) := by
  have step := symbol_produces (p := p) (f := f) h k x (f.slot p k)
  have content : f.afterSymbols p (k + 1) = f.afterSymbols p k ++
      (f.symbolEntry p (f.nameOffset p (f.sections.size + k)) (f.slot p k) x).encode := by
    rw [afterSymbols, take_succ_of_getElem? (symbolEntries_getElem? hx), List.map_append, concat_append]
    simp [afterSymbols, ByteArray.append_assoc]
  rw [content, ← Nat.add_assoc, stringsAt_succ (names_symbol hx)]
  exact step

theorem headers_produces (p : Pool) (f : ObjectFile) :
    (each sectionHeader 0 (f.sectionList p) (fileHeader p f {})).Produces
      ((True ∧ f.sections.size < UInt16.size ∧ f.slotCount p < UInt32.size) ∧
        ∀ i x, (f.sectionList p)[i]? = some x →
          (Text.isValid x.name ∧ Name.Reaches (f.nameOffset p i) x.name) ∧ x.Fits)
      (f.afterBodies p 0) (f.stringsAt p f.sections.size) := by
  have start := fileHeader_produces (p := p) (f := f) Script.produces_empty
  rw [ByteArray.empty_append, ← afterHeaders_zero, ← stringsAt_zero (f := f) (p := p)] at start
  have headers := each_produces (fun i x s C hx h => sectionHeader_pass hx h) start
  rwa [length_sectionList, afterHeaders_size] at headers

/-- What the passes ask for, one after the other, is that the file is encodable. -/
private theorem passes_iff_encodable :
    (((((True ∧ f.sections.size < UInt16.size ∧ f.slotCount p < UInt32.size) ∧
      ∀ i x, (f.sectionList p)[i]? = some x →
        (Text.isValid x.name ∧ Name.Reaches (f.nameOffset p i) x.name) ∧ x.Fits) ∧
      ∀ i x, (f.sectionList p)[i]? = some x →
        f.bodyPosition p i + x.data.size + RelocationRecord.size * x.relocations.size < UInt32.size ∧
          ∀ r ∈ x.relocations, r.symbol ∈ f.symbols) ∧
      f.symbolTablePosition p < UInt32.size) ∧
      ∀ k x, (f.symbolList p)[k]? = some x → SymbolFits f p (f.stringsAt p (f.sections.size + k)) x) ↔
    f.Encodable p := by
  constructor
  · rintro ⟨⟨⟨⟨⟨-, sections, slots⟩, headers⟩, bodies⟩, position⟩, symbols⟩
    have section_at {x : Section} (hx : x ∈ f.sectionList p) := List.getElem?_of_mem hx
    have symbol_fits {x : Symbol} (hx : x ∈ f.symbolList p) : ∃ t, SymbolFits f p t x := by
      obtain ⟨k, hk⟩ := List.getElem?_of_mem hx
      exact ⟨_, symbols k x hk⟩
    refine ⟨sections, slots, position, ?_, ?_, ?_, ?_, ?_, ?_⟩
    · intro k n hk
      rcases names_cases hk with ⟨x, hx, rfl⟩ | ⟨j, x, rfl, hx, rfl⟩
      · exact (headers k x hx).1
      · exact (symbols j x hx).2.2.1
    · intro x hx
      obtain ⟨i, hi⟩ := section_at hx
      exact (headers i x hi).2
    · intro x hx
      obtain ⟨i, hi⟩ := section_at hx
      exact (bodies i x hi).2
    · intro x hx
      obtain ⟨t, ht⟩ := symbol_fits hx
      exact ht.1.1
    · intro x hx
      obtain ⟨t, ht⟩ := symbol_fits hx
      exact ht.2.1
    · intro x hx
      obtain ⟨t, ht⟩ := symbol_fits hx
      exact ht.2.2.2
  · intro h
    refine ⟨⟨⟨⟨⟨trivial, h.sections_lt, h.slots_lt⟩, ?_⟩, ?_⟩, h.symbolTable_lt⟩, ?_⟩
    · intro i x hx
      exact ⟨h.name_fits i _ (names_section hx), h.section_fits x (List.mem_of_getElem? hx)⟩
    · intro i x hx
      have next := bodyPosition_le_symbolTablePosition (f := f) (p := p) (i + 1)
      have table := h.symbolTable_lt
      rw [bodyPosition_succ hx, Section.bodySize] at next
      exact ⟨by omega, h.relocation_mem x (List.mem_of_getElem? hx)⟩
    · intro k x hx
      have mem := List.mem_of_getElem? hx
      have owner : f.ownerNumber x < UInt16.size :=
        Nat.lt_of_le_of_lt (ownerNumber_le x) h.sections_lt
      exact ⟨⟨h.owner_mem x mem, owner⟩, h.aux_lt x mem, h.name_fits _ _ (names_symbol hx),
        h.aux_encodable x mem⟩

private theorem stringTable_produces {b : Bytes} {t : StringTable} (h : s.Produces C b t) :
    (stringTable s).Produces C (b ++ (t.lengthBytes ++ t.blob)) t := by
  have step := (h.append s.strings.lengthBytes).append s.strings.blob
  refine ⟨step.failure_iff, ?_⟩
  intro c
  have strings := (h.writes c).strings_eq
  rw [← strings, ← ByteArray.append_assoc, strings]
  exact strings ▸ step.writes c

/-- The encoder writes the layout of the files that are encodable, and fails on all others. -/
theorem script_produces (p : Pool) (f : ObjectFile) :
    (script p f).Produces (f.Encodable p) (f.layout p) (f.strings p) := by
  unfold script
  split
  · next e he =>
    refine .of_not rfl ?_
    intro h
    obtain ⟨slots, ok⟩ := assignSlots_eq_ok h.slots_lt
    rw [he] at ok
    cases ok
  · next slots hslots =>
    have located := locates_of_assignSlots hslots
    have bodies := each_produces (t := fun _ => f.stringsAt p f.sections.size)
      (fun i x s C hx h => sectionBody_pass located hx h) (headers_produces p f)
    rw [length_sectionList] at bodies
    have symbols := each_produces (t := fun k => f.stringsAt p (f.sections.size + k))
      (fun k x s C hx h => symbol_pass hx h) (symbolTable_pass bodies)
    rw [length_symbolList, stringsAt_size] at symbols
    have whole := stringTable_produces symbols
    rw [afterSymbols_size] at whole
    simp only [each_map]
    exact whole.congr passes_iff_encodable

end Encode

namespace ObjectFile

variable {f : ObjectFile} {p : Pool}

theorem encode_staging {before : Bytes} {stage : Staging} (hb : before.size + UInt32.size ≤ 2 ^ 63) :
    f.encode p (⟨before⟩ : Staging) = (stage, none) ↔ f.Encodable p ∧ ⟨before ++ f.layout p⟩ = stage := by
  have made := Encode.script_produces p f
  constructor
  · intro h
    have c : f.Encodable p := made.failure_iff.mp (Script.failure_of_run h)
    rw [encode, Script.run_eq_of_writes (made.writes c) before hb] at h
    exact ⟨c, congrArg Prod.fst h⟩
  · rintro ⟨c, rfl⟩
    exact Script.run_eq_of_writes (made.writes c) before hb

/-- The files that can be encoded have their layout as bytes. -/
theorem bytes_eq_ok {d : Bytes} : f.bytes p = .ok d ↔ f.Encodable p ∧ f.layout p = d := by
  have staged {stage : Staging} : f.encode p ({} : Staging) = (stage, none) ↔
      f.Encodable p ∧ ⟨.empty ++ f.layout p⟩ = stage := encode_staging (by decide)
  rw [ByteArray.empty_append] at staged
  rw [bytes, bytes?, encode?]
  rcases result : f.encode p ({} : Staging) with ⟨stage, _ | e⟩
  · obtain ⟨c, rfl⟩ := staged.mp result
    simp [c]
  · have refused : ¬ f.Encodable p := by
      intro c
      have ok := staged.mpr ⟨c, rfl⟩
      simp [result] at ok
    simp [refused]

/-- The string table that the encoder accumulates. -/
theorem Encodable.script_strings (h : f.Encodable p) : (Encode.script p f).strings = f.strings p :=
  ((Encode.script_produces p f).writes h).strings_eq

/-- No number of the layout is cut off by its field: counts are the numbers of what they count, and
pointers the sizes of all that stands before what they point to. -/
structure Exact (f : ObjectFile) (p : Pool) : Prop where
  sections_eq : (f.header p).sections.toNat = f.sections.size
  symbols_eq : (f.header p).symbols.toNat = f.slotCount p
  symbolTable_eq : (f.header p).symbolTable.toNat = (f.before p f.sections.size).size
  header_places : ∀ i x (h : SectionHeader), (f.sectionList p)[i]? = some x →
    (f.sectionHeaders p)[i]? = some h → h.Places x (f.before p i) (f.relocationTable p x)
  symbolIndex_eq : ∀ x ∈ f.sectionList p, ∀ r ∈ x.relocations,
    (f.relocation p r).symbolIndex.toNat = f.slotOf p r.symbol
  auxCount_eq : ∀ e ∈ f.symbolEntries p, e.record.auxCount.toNat = e.aux.length
  definition_fits : ∀ x ∈ f.symbolList p, ∀ target number,
    Aux.definition (some target) number ∈ x.aux → (p.getSection target).Fits
  nameOffset_le : ∀ k n, (f.names p)[k]? = some n → Name.fieldSize < n.size →
    f.nameOffset p k ≤ Name.maxOffset
  length_eq : ((f.strings p).lengthBytes.u32At 0).toNat = (f.strings p).blob.size

theorem Encodable.exact (h : f.Encodable p) (hb : (f.strings p).size < UInt32.size) : f.Exact p where
  sections_eq := UInt16.toNat_ofNat_of_lt' h.sections_lt
  symbols_eq := UInt32.toNat_ofNat_of_lt' h.slots_lt
  symbolTable_eq := by
    rw [size_before]
    exact UInt32.toNat_ofNat_of_lt' h.symbolTable_lt
  header_places := by
    intro i x head hx hhead
    rw [sectionHeaders_getElem? hx] at hhead
    exact Option.some.inj hhead ▸ h.places hx _
  symbolIndex_eq := fun _ _ r _ => UInt32.toNat_ofNat_of_lt' (h.slotOf_lt r.symbol)
  auxCount_eq := by
    intro e he
    obtain ⟨k, x, hx, rfl⟩ := symbolEntries_mem he
    have count := h.aux_lt x (List.mem_of_getElem? hx)
    simp [symbolEntry, Nat.mod_eq_of_lt count]
  definition_fits := fun x hx target number ha => h.aux_encodable x hx _ ha
  nameOffset_le := fun k n hn => (h.name_fits k n hn).2
  length_eq := by
    rw [StringTable.lengthBytes_eq, u32At_word_self]
    exact UInt32.toNat_ofNat_of_lt' hb

/-- If a file can be written to an empty buffer, the buffer then holds its layout, in which each
pointer is exact. -/
theorem encode_eq_layout (f : ObjectFile) (p : Pool) {stage : Staging}
    (h : f.encode p ({} : Staging) = (stage, none)) (hb : (Encode.script p f).strings.size < UInt32.size) :
    stage.data = f.layout p ∧ f.Exact p := by
  obtain ⟨c, hs⟩ := (encode_staging (by decide)).mp h
  rw [c.script_strings] at hb
  refine ⟨?_, c.exact hb⟩
  rw [← hs, ByteArray.empty_append]

/-- Two sections, one of them with a long name and one with a relocation, and two symbols, one of
them listed twice. -/
def samplePool : Pool where
  sections := #[
    { name := ".text", data := ⟨#[232, 0, 0, 0, 0]⟩, address := 16
      relocations := #[{ symbol := ⟨1⟩, address := 1, type := ⟨4⟩ }] },
    { name := ".debug_frame" }]
  symbols := #[
    { name := ".text", owner := some ⟨0⟩, value := 0x3c0, storageClass := ⟨3⟩, aux := [.definition (some ⟨0⟩) 1] },
    { name := "external_function", storageClass := ⟨2⟩ }]

def sampleFile : ObjectFile := { sections := #[⟨0⟩, ⟨1⟩], symbols := #[⟨0⟩, ⟨1⟩, ⟨1⟩] }

theorem sampleFile_encodable : sampleFile.Encodable samplePool := by decide +kernel

theorem sampleFile_strings : (Encode.script samplePool sampleFile).strings.size < UInt32.size := by
  rw [sampleFile_encodable.script_strings]
  decide +kernel

theorem sampleFile_bytes : sampleFile.bytes samplePool = .ok (sampleFile.layout samplePool) :=
  bytes_eq_ok.mpr ⟨sampleFile_encodable, rfl⟩

theorem encode_sampleFile : ∃ stage : Staging, sampleFile.encode samplePool ({} : Staging) = (stage, none) ∧
    stage.data = sampleFile.layout samplePool ∧ sampleFile.Exact samplePool := by
  have h : sampleFile.encode samplePool ({} : Staging) = (⟨.empty ++ sampleFile.layout samplePool⟩, none) :=
    (encode_staging (by decide)).mpr ⟨sampleFile_encodable, rfl⟩
  exact ⟨_, h, encode_eq_layout _ _ h sampleFile_strings⟩

end ObjectFile

end CoffWorks
