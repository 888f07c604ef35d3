import CoffWorks.Proofs.Object.RoundTrip

namespace CoffWorks

/-- The largest section number that a symbol record can express. -/
def SymbolRecord.maxSectionNumber : Nat := 32767

/-- The number of a symbol that belongs to no section, but has a fixed value. -/
def SymbolRecord.absolute : Int16 := -1

/-- Each symbol is read with the number of its section, which is positive, and with zero if it has
none. -/
def Image.KeepsSectionNumbers (img : Image) (f : ObjectFile) (p : Pool) : Prop :=
  List.Forall₂ (fun e x => e.record.sectionNumber.toInt = (f.ownerNumber x : Int) ∧
    (x.owner.isSome → 0 < e.record.sectionNumber.toInt)) img.symbols.toList (f.symbolList p)

/-- A number above the largest is read as one that is smaller by `2 ^ 16`. -/
def Image.WrapsSectionNumbers (img : Image) (f : ObjectFile) (p : Pool) : Prop :=
  List.Forall₂ (fun e x => e.record.sectionNumber.toInt =
    if f.ownerNumber x ≤ SymbolRecord.maxSectionNumber then (f.ownerNumber x : Int)
    else f.ownerNumber x - UInt16.size) img.symbols.toList (f.symbolList p)

/-- As a signed word, a number in the upper half is smaller by `2 ^ 16`. -/
theorem toInt_toInt16_ofNat {n : Nat} (h : n < UInt16.size) :
    (UInt16.ofNat n).toInt16.toInt =
      if n ≤ SymbolRecord.maxSectionNumber then (n : Int) else n - UInt16.size := by
  have bits : (UInt16.ofNat n).toInt16.toInt = (BitVec.ofNat 16 n).toInt := rfl
  have low : n % 2 ^ 16 = n := Nat.mod_eq_of_lt h
  rw [bits, BitVec.toInt, BitVec.toNat_ofNat, low, SymbolRecord.maxSectionNumber, UInt16.size]
  split_ifs <;> omega

namespace ObjectFile

variable {f : ObjectFile} {p : Pool}

theorem Encodable.ownerNumber_lt (h : f.Encodable p) (x : Symbol) : f.ownerNumber x < UInt16.size :=
  Nat.lt_of_le_of_lt (Encode.ownerNumber_le x) h.sections_lt

theorem Encodable.ownerNumber_pos (h : f.Encodable p) {x : Symbol} (hx : x ∈ f.symbolList p)
    (ho : x.owner.isSome) : 0 < f.ownerNumber x := by
  obtain ⟨o, owned⟩ := Option.isSome_iff_exists.mp ho
  have inside : o ∈ f.sections := h.owner_mem x hx o owned
  rw [ownerNumber, owned, Option.elim_some]
  exact Nat.pos_of_ne_zero fun absent => Encode.sectionIndex_eq_zero.mp absent inside

theorem Encodable.wrapsSectionNumbers (h : f.Encodable p) {img : Image}
    (symbols : img.symbols = (f.symbolEntries p).toArray) : img.WrapsSectionNumbers f p := by
  rw [Image.WrapsSectionNumbers, symbols]
  exact forall₂_mapIdx fun k x _ => toInt_toInt16_ofNat (h.ownerNumber_lt x)

/-- The numbers that are kept are just those that a record can express. -/
theorem Encodable.keepsSectionNumbers_iff (h : f.Encodable p) {img : Image}
    (symbols : img.symbols = (f.symbolEntries p).toArray) : img.KeepsSectionNumbers f p ↔
      ∀ x ∈ f.symbolList p, f.ownerNumber x ≤ SymbolRecord.maxSectionNumber := by
  rw [Image.KeepsSectionNumbers, symbols]
  constructor
  · intro kept x hx
    obtain ⟨k, hk⟩ := List.getElem?_of_mem hx
    obtain ⟨inside, rfl⟩ := List.getElem?_eq_some_iff.mp hk
    obtain ⟨number, -⟩ := List.Forall₂.get kept (by simpa using inside) inside
    simp only [symbolEntries, List.get_eq_getElem, List.getElem_mapIdx, symbolEntry] at number
    rw [toInt_toInt16_ofNat (h.ownerNumber_lt _)] at number
    split_ifs at number with small
    · exact small
    · have size : UInt16.size = 65536 := rfl
      omega
  · intro small
    apply forall₂_mapIdx
    intro k x hk
    have hx : x ∈ f.symbolList p := List.mem_of_getElem? hk
    have number : (UInt16.ofNat (f.ownerNumber x)).toInt16.toInt = f.ownerNumber x := by
      rw [toInt_toInt16_ofNat (h.ownerNumber_lt x), if_pos (small x hx)]
    refine ⟨number, ?_⟩
    intro owned
    have pos := h.ownerNumber_pos hx owned
    change 0 < (UInt16.ofNat (f.ownerNumber x)).toInt16.toInt
    omega

/-- An encoded file is read with the section numbers of its symbols exactly if none of them is above
32767; those above are read as negative numbers. -/
theorem inspect_bytes_sectionNumbers (f : ObjectFile) (p : Pool) {d : Bytes} (h : f.bytes p = .ok d) :
    ∃ img, Image.inspect d = .ok img ∧ img.WrapsSectionNumbers f p ∧
      (img.KeepsSectionNumbers f p ↔
        ∀ x ∈ f.symbolList p, f.ownerNumber x ≤ SymbolRecord.maxSectionNumber) := by
  obtain ⟨c, rfl⟩ := bytes_eq_ok.mp h
  exact ⟨_, inspect_layout c, c.wrapsSectionNumbers rfl, c.keepsSectionNumbers_iff rfl⟩

theorem inspect_sampleFile_sectionNumbers : ∃ d img, sampleFile.bytes samplePool = .ok d ∧
    Image.inspect d = .ok img ∧ img.KeepsSectionNumbers sampleFile samplePool := by
  obtain ⟨img, read, -, kept⟩ := inspect_bytes_sectionNumbers sampleFile samplePool sampleFile_bytes
  exact ⟨_, img, sampleFile_bytes, read, kept.mpr (by decide +kernel)⟩

def crowdedPool : Pool where
  sections := #[{ name := "last" }, { name := "other" }]
  symbols := #[{ name := "symbol", owner := some ⟨0⟩, storageClass := .static }]

def crowdedFile (n : Nat) : ObjectFile where
  sections := (Array.replicate n ⟨1⟩).push ⟨0⟩
  symbols := #[⟨0⟩]

private theorem crowdedFile_sections (n : Nat) :
    (crowdedFile n).sections.toList = List.replicate n ⟨1⟩ ++ [⟨0⟩] := by
  simp [crowdedFile]

private theorem size_crowdedFile_sections (n : Nat) : (crowdedFile n).sections.size = n + 1 := by
  simp [crowdedFile]

private theorem crowdedFile_sectionList (n : Nat) : (crowdedFile n).sectionList crowdedPool =
    List.replicate n { name := "other" } ++ [{ name := "last" }] := by
  rw [sectionList, crowdedFile_sections, List.map_append, List.map_replicate]
  rfl

private theorem crowdedFile_sectionIndex (n : Nat) : (crowdedFile n).sectionIndex ⟨0⟩ = n + 1 := by
  have other : (⟨0⟩ : SectionId) ∉ List.replicate n ⟨1⟩ := by simp
  have mem : ⟨0⟩ ∈ (crowdedFile n).sections := Array.mem_push_self
  rw [Encode.sectionIndex_of_mem mem, crowdedFile_sections, List.idxOf_append_of_notMem other,
    List.length_replicate, List.idxOf_cons_self]

private theorem mem_crowdedFile_sectionList {n : Nat} {x : Section} (h : x ∈ (crowdedFile n).sectionList crowdedPool) :
    x ∈ [({ name := "other" } : Section), { name := "last" }] := by
  rw [crowdedFile_sectionList, List.mem_append, List.mem_replicate] at h
  rcases h with ⟨-, rfl⟩ | h
  · exact List.mem_cons_self
  · exact List.mem_cons_of_mem _ h

/-- The encoder accepts the file up to the largest number of sections. -/
private theorem crowdedFile_encodable {n : Nat} (h : n + 1 < UInt16.size) : (crowdedFile n).Encodable crowdedPool where
  sections_lt := by rwa [size_crowdedFile_sections]
  slots_lt := by
    change (1 : Nat) < UInt32.size
    decide
  symbolTable_lt := by
    have bodies : (((crowdedFile n).sectionList crowdedPool).map Section.bodySize).sum = n * 8 + 8 := by
      rw [crowdedFile_sectionList, List.map_append, List.map_replicate, List.sum_append, List.sum_replicate]
      rfl
    have small : n + 1 < 65536 := h
    have size : UInt32.size = 4294967296 := rfl
    rw [symbolTablePosition, bodyPosition, take_sectionList, bodies, size_crowdedFile_sections,
      Encode.headerPosition, FileHeader.size, SectionHeader.size]
    omega
  name_fits := by
    have short : ∀ x ∈ (["other", "last", "symbol"] : List Bytes),
        Text.isValid x ∧ x.size ≤ Name.fieldSize := by decide +kernel
    intro k x hk
    have known : x ∈ (["other", "last", "symbol"] : List Bytes) := by
      rcases names_cases hk with ⟨s, hs, rfl⟩ | ⟨j, s, -, hs, rfl⟩
      · have mem := mem_crowdedFile_sectionList (List.mem_of_getElem? hs)
        exact List.mem_append_left _ (List.mem_map_of_mem (f := Section.name) mem)
      · obtain rfl : s = crowdedPool.getSymbol ⟨0⟩ := List.mem_singleton.mp (List.mem_of_getElem? hs)
        exact List.mem_append_right (["other", "last"] : List Bytes) List.mem_cons_self
    exact ⟨(short x known).1, fun long => absurd (short x known).2 (Nat.not_le.mpr long)⟩
  section_fits := by
    intro x hx
    have all : ∀ x ∈ [({ name := "other" } : Section), { name := "last" }], x.Fits := by decide +kernel
    exact all x (mem_crowdedFile_sectionList hx)
  relocation_mem := by
    intro x hx r hr
    have all : ∀ x ∈ [({ name := "other" } : Section), { name := "last" }], x.relocations = #[] := by
      decide +kernel
    rw [all x (mem_crowdedFile_sectionList hx)] at hr
    exact absurd hr (Array.not_mem_empty r)
  owner_mem := by
    intro x hx o ho
    obtain rfl : x = crowdedPool.getSymbol ⟨0⟩ := List.mem_singleton.mp hx
    obtain rfl : ⟨0⟩ = o := Option.some.inj ho
    exact Array.mem_push_self
  aux_lt := by
    intro x hx
    obtain rfl : x = crowdedPool.getSymbol ⟨0⟩ := List.mem_singleton.mp hx
    decide +kernel
  aux_encodable := by
    intro x hx
    obtain rfl : x = crowdedPool.getSymbol ⟨0⟩ := List.mem_singleton.mp hx
    decide +kernel

private theorem crowdedFile_bytes {n : Nat} (h : n + 1 < UInt16.size) :
    (crowdedFile n).bytes crowdedPool = .ok ((crowdedFile n).layout crowdedPool) :=
  bytes_eq_ok.mpr ⟨crowdedFile_encodable h, rfl⟩

theorem inspect_crowdedFile {n : Nat} (h : n + 1 < UInt16.size) : ∃ d img e,
    (crowdedFile n).bytes crowdedPool = .ok d ∧ Image.inspect d = .ok img ∧ img.symbols[0]? = some e ∧
      e.record.sectionNumber = (UInt16.ofNat (n + 1)).toInt16 ∧
      (img.KeepsSectionNumbers (crowdedFile n) crowdedPool → n + 1 ≤ SymbolRecord.maxSectionNumber) := by
  have c := crowdedFile_encodable h
  have number : (crowdedFile n).ownerNumber (crowdedPool.getSymbol ⟨0⟩) = n + 1 := crowdedFile_sectionIndex n
  have entry := symbolEntries_getElem? (f := crowdedFile n) (p := crowdedPool) (k := 0)
    (x := crowdedPool.getSymbol ⟨0⟩) rfl
  refine ⟨_, _, _, crowdedFile_bytes h, inspect_layout c, (List.getElem?_toArray ..).trans entry, ?_, ?_⟩
  · rw [symbolEntry, number]
  · intro kept
    have small := (c.keepsSectionNumbers_iff rfl).mp kept (crowdedPool.getSymbol ⟨0⟩) List.mem_cons_self
    rwa [number] at small

/-- With the largest number of sections, a symbol of the last one is read as an absolute symbol. -/
theorem crowdedFile_absolute : ∃ d img e, (crowdedFile 65534).bytes crowdedPool = .ok d ∧
    (crowdedFile 65534).sectionIndex ⟨0⟩ = 65535 ∧ Image.inspect d = .ok img ∧
    img.symbols[0]? = some e ∧ e.record.sectionNumber = SymbolRecord.absolute ∧
    ¬ img.KeepsSectionNumbers (crowdedFile 65534) crowdedPool := by
  obtain ⟨d, img, e, encoded, read, entry, number, kept⟩ := inspect_crowdedFile (n := 65534) (by decide)
  refine ⟨d, img, e, encoded, crowdedFile_sectionIndex 65534, read, entry, ?_, ?_⟩
  · rw [number]
    decide
  · intro all
    exact absurd (kept all) (by decide)

end ObjectFile

end CoffWorks
