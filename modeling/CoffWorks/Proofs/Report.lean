import CoffWorks.Proofs.Object.Names
import CoffWorks.Proofs.Object.SectionNumbers
import CoffWorks.Proofs.Object.Slots
import CoffWorks.Proofs.StringTable.Entries
import CoffWorks.Proofs.Text.Literal
import CoffWorks.Report.Basic

namespace CoffWorks

open Bytes

private theorem zip_map_mapIdx {α β γ : Type} (g : α → γ) (g' : Nat → α → β) (l : List α) :
    (l.map g).zip (l.mapIdx g') = l.mapIdx fun i a => (g a, g' i a) := by
  apply List.ext_getElem <;> simp

private theorem map_mapIdx {α β γ : Type} (g : Nat → α → β) (g' : β → γ) (l : List α) :
    (l.mapIdx g).map g' = l.mapIdx fun i a => g' (g i a) := by
  apply List.ext_getElem <;> simp

private theorem mapIdx_congr {α β : Type} {g g' : Nat → α → β} {l : List α}
    (h : ∀ i a, l[i]? = some a → g i a = g' i a) : l.mapIdx g = l.mapIdx g' := by
  rw [List.mapIdx_eq_mapIdx_iff]
  intro i inside
  exact h i _ (List.getElem?_eq_getElem inside)

private theorem map_mapIdx_eq_map {α β γ : Type} {g : Nat → α → β} {g' : β → γ} {k : α → γ} {l : List α}
    (h : ∀ i a, l[i]? = some a → g' (g i a) = k a) : (l.mapIdx g).map g' = l.map k := by
  rw [← List.forall₂_eq_eq_eq, List.forall₂_map_left_iff, List.forall₂_map_right_iff]
  exact forall₂_mapIdx h

namespace Report

theorem ofBytes_of_inspect {path data : Bytes} {img : Image} (h : Image.inspect data = .ok img) :
    ofBytes path data = .ok (ofImage path data.size img) := by
  unfold ofBytes
  rw [h]

theorem sectionRows_eq (n : Nat) (l : List (Bytes × SectionHeader)) :
    sectionRows n l = l.mapIdx fun i e => sectionRow (n + i) e.1 e.2 := by
  induction l generalizing n with
  | nil => rfl
  | cons e rest ih =>
    rw [sectionRows, ih, List.mapIdx_cons]
    simp only [Nat.add_zero, Nat.add_assoc, Nat.add_comm 1]

/-- A positive number is given with the name of its section. -/
private theorem sectionLabel_succ {n : Int16} {names : Array Bytes} {i : Nat} {name : Bytes}
    (number : n.toInt = (i + 1 : Nat)) (named : names[i]? = some name) :
    sectionLabel n names = Text.decimal (i + 1) ++ " " ++ name := by
  have apart (m : Int16) (low : m.toInt ≤ 0) : n ≠ m := by
    rintro rfl
    omega
  have positive : ¬ n < 0 := by
    rw [Int16.lt_iff_toInt_lt, number, Int16.toInt_zero]
    omega
  rw [sectionLabel, if_neg (apart 0 (by decide)), if_neg (apart (-1) (by decide)), if_neg (apart (-2) (by decide)),
    if_neg positive, number, Int.toNat_natCast, Nat.add_sub_cancel, named]
  rfl

/-- The slots of one symbol, and the names in them. -/
def slotsOf (e : Bytes × SymbolEntry) : List (Option Bytes) := some e.1 :: List.replicate e.2.aux.length none

/-- The slots follow each other symbol by symbol, those of auxiliary records without names. -/
theorem toList_slotNames (symbols : List (Bytes × SymbolEntry)) :
    (slotNames symbols).toList = symbols.flatMap slotsOf := by
  have run (acc : Array (Option Bytes)) :
      (symbols.foldl (fun acc e => acc.push (some e.1) ++ Array.replicate e.2.aux.length none) acc).toList =
        acc.toList ++ symbols.flatMap slotsOf := by
    induction symbols generalizing acc with
    | nil => simp
    | cons e rest ih =>
      rw [List.foldl_cons, ih, List.flatMap_cons]
      simp [slotsOf]
  rw [slotNames, run]
  rfl

/-- The slot of a symbol comes after those of the symbols before it, and their auxiliary records. -/
theorem slotNames_getElem? {symbols : List (Bytes × SymbolEntry)} {k : Nat} {e : Bytes × SymbolEntry}
    (h : symbols[k]? = some e) :
    (slotNames symbols)[((symbols.take k).map fun e => e.2.slots).sum]? = some (some e.1) := by
  obtain ⟨inside, eq⟩ := List.getElem?_eq_some_iff.mp h
  have split : symbols.flatMap slotsOf =
      (symbols.take k).flatMap slotsOf ++ (slotsOf e ++ (symbols.drop (k + 1)).flatMap slotsOf) := by
    rw [← List.flatMap_cons, ← List.flatMap_append, ← eq, ← List.drop_eq_getElem_cons inside,
      List.take_append_drop]
  have before : ((symbols.take k).map fun e => e.2.slots).sum = ((symbols.take k).flatMap slotsOf).length := by
    simp [List.length_flatMap, slotsOf, SymbolEntry.slots, Nat.add_comm]
  rw [← Array.getElem?_toList, toList_slotNames, split, before, List.getElem?_append_right (Nat.le_refl _),
    Nat.sub_self]
  rfl

/-- A figure, or from ten on a small letter. -/
def figure (d : Nat) : UInt8 := .ofNat (if d < 10 then 48 + d else 87 + d)

/-- A word behind the mark of its base, in eight figures of which the highest comes first. -/
def figures (v : UInt32) : Bytes :=
  (48 :: 120 :: (List.range 8).reverse.map fun i => figure (v.toNat / 16 ^ i % 16)).toByteArray

section

variable (f : ObjectFile) (p : Pool)

/-- The section that a symbol belongs to, by number and name. -/
def ownerLabel : Option SectionId → Bytes
  | none => "UNDEF"
  | some o => Text.decimal (f.sectionIndex o) ++ " " ++ (p.getSection o).name

/-- The cells for section number `i`, counted from zero. -/
def sectionCells (i : Nat) (x : Section) : List Bytes :=
  [Text.decimal (i + 1), x.name, Text.byteSize x.data.size, figures (.ofNat (f.bodyPosition p i)),
    Text.decimal x.relocations.size,
    figures (.ofNat (f.bodyPosition p i + x.data.size + RelocationRecord.size * x.relocations.size)),
    joinFlags x.flags.names]

def symbolCells (k : Nat) (x : Symbol) : List Bytes :=
  [Text.decimal (f.slot p k), x.name, figures x.value, ownerLabel f p x.owner, x.type.label,
    x.storageClass.label, Text.decimal x.aux.length]

def relocationCells (x : Section) (r : Relocation) : List Bytes :=
  [x.name, figures r.address, r.type.label f.machine, Text.decimal (f.slotOf p r.symbol),
    (p.getSymbol r.symbol).name]

/-- The cells for a name with its number in the file. -/
def stringCells (e : Bytes × Nat) : List Bytes := [Text.decimal (f.nameOffset p e.2), e.1]

def sectionGrid : Grid where
  title := "Sections"
  columns := ["#", "Name", "Raw size", "Raw data", "Relocs", "Line nums", "Flags"]
  rows := (f.sectionList p).mapIdx (sectionCells f p)

def symbolGrid : Grid where
  title := "Symbols"
  columns := ["Slot", "Name", "Value", "Section", "Type", "Class", "Aux"]
  rows := (f.symbolList p).mapIdx (symbolCells f p)

def relocationGrid : Grid where
  title := "Relocations"
  columns := ["Section", "Offset", "Type", "Slot", "Symbol"]
  rows := (f.sectionList p).flatMap fun x => x.relocations.toList.map (relocationCells f p x)

def stringGrid : Grid where
  title := "String table"
  columns := ["Offset", "Text"]
  rows := (StringTable.longNames (f.names p)).map (stringCells f p)

end

/-- Cell number `i` of the row can be read as `n`. -/
def ReadsAt (row : List Bytes) (i n : Nat) : Prop := ∃ cell, row[i]? = some cell ∧ Text.Literal cell.toList n

/-- What is to be read from the row of symbol number `k`. -/
structure ShowsSymbol (f : ObjectFile) (p : Pool) (k : Nat) (x : Symbol) (row : List Bytes) : Prop where
  slot_read : ReadsAt row 0 (f.slot p k)
  name_eq : row[1]? = some x.name
  value_read : ReadsAt row 2 x.value.toNat
  undefined : x.owner = none → row[3]? = some "UNDEF".toUTF8
  owner_read : ∀ o, x.owner = some o → ∃ number : Bytes, Text.Literal number.toList (f.sectionIndex o) ∧
    row[3]? = some (number ++ " " ++ (p.getSection o).name)
  auxCount_read : ReadsAt row 6 x.aux.length

/-- What is to be read from the row of a relocation in section `x`. -/
structure ShowsRelocation (f : ObjectFile) (p : Pool) (x : Section) (r : Relocation) (row : List Bytes) : Prop where
  section_eq : row[0]? = some x.name
  address_read : ReadsAt row 1 r.address.toNat
  slot_read : ReadsAt row 3 (f.slotOf p r.symbol)
  symbol_eq : row[4]? = some (p.getSymbol r.symbol).name

/-- The tables are those of the file, and their numbers can be read from them. The last two cells of a relocation are
the first two of a symbol, so its slot is one that the report lists. -/
structure Tells (r : Report) (f : ObjectFile) (p : Pool) : Prop where
  sections_eq : r.sections = sectionGrid f p
  symbols_eq : r.symbols = symbolGrid f p
  relocations_eq : r.relocations = relocationGrid f p
  strings_eq : r.strings = stringGrid f p
  relocation_listed : ∀ row ∈ r.relocations.rows, ∃ entry ∈ r.symbols.rows, entry.take 2 = row.drop 3
  section_read : ∀ (i : Nat) x, (f.sectionList p)[i]? = some x →
    ∃ row, r.sections.rows[i]? = some row ∧ ReadsAt row 0 (i + 1) ∧ row[1]? = some x.name
  symbol_read : ∀ (k : Nat) x, (f.symbolList p)[k]? = some x →
    ∃ row, r.symbols.rows[k]? = some row ∧ ShowsSymbol f p k x row
  relocations_read : List.Forall₂ (fun e row => ShowsRelocation f p e.1 e.2 row)
    ((f.sectionList p).flatMap fun x => x.relocations.toList.map (x, ·)) r.relocations.rows
  string_read : ∀ (i : Nat) e, (StringTable.longNames (f.names p))[i]? = some e →
    ∃ row, r.strings.rows[i]? = some row ∧ ReadsAt row 0 (f.nameOffset p e.2) ∧ row[1]? = some e.1

private theorem digit_eq_figure (n : Nat) : Text.Hex.digit n = figure (n % 16) := by
  have all : ∀ d < 16, (Text.hexDigit d).toNat.toUInt8 = figure d := by decide +kernel
  exact all (n % 16) (Nat.mod_lt n (by decide))

/-- Digits are taken from the lowest place on, and so the highest comes first. -/
theorem hexDigits_eq_figures (w n : Nat) :
    Text.hexDigits w n = (List.range w).reverse.map fun i => figure (n / 16 ^ i % 16) := by
  induction w generalizing n with
  | zero => rfl
  | succ w ih =>
    have above : (fun i => figure (n / 16 / 16 ^ i % 16)) = (fun i => figure (n / 16 ^ i % 16)) ∘ Nat.succ := by
      funext i
      rw [Function.comp_apply, Nat.div_div_eq_div_mul, Nat.pow_succ']
    rw [Text.hexDigits, ih, digit_eq_figure, List.range_succ_eq_map, List.reverse_cons, List.map_append,
      ← List.map_reverse, List.map_map, above]
    simp

private theorem hexLength_le {n w : Nat} (h : n < 16 ^ (w + 1)) : Text.hexLength n ≤ w + 1 := by
  induction w generalizing n with
  | zero => rw [Text.hexLength, if_pos (by simpa using h)]
  | succ w ih =>
    have high : n / 16 < 16 ^ (w + 1) := by
      rw [Nat.pow_succ] at h
      omega
    have above := ih high
    rw [Text.hexLength]
    split <;> omega

/-- A word is printed with just the figures that its value has in eight places. -/
theorem word32_eq_figures (v : UInt32) : word32 v = figures v := by
  have short : Text.hexLength v.toNat ≤ 8 := hexLength_le v.toNat_lt
  have mark : "0x".toUTF8 = [48, 120].toByteArray := rfl
  rw [word32, Text.hex_eq, Nat.max_eq_left short, hexDigits_eq_figures, mark, ← List.toByteArray_append]
  rfl

/-- The printed word is read as the value. -/
theorem literal_figures (v : UInt32) : Text.Literal (figures v).toList v.toNat := by
  rw [← word32_eq_figures]
  exact Text.literal_hex 8 v.toNat

theorem readsAt_decimal {row : List Bytes} {i n : Nat} (h : row[i]? = some (Text.decimal n)) : ReadsAt row i n :=
  ⟨_, h, Text.literal_decimal n⟩

theorem readsAt_figures {row : List Bytes} {i : Nat} {v : UInt32} (h : row[i]? = some (figures v)) :
    ReadsAt row i v.toNat :=
  ⟨_, h, literal_figures v⟩

/-- All that a symbol has to show can be read from its cells. -/
theorem showsSymbol_symbolCells (f : ObjectFile) (p : Pool) (k : Nat) (x : Symbol) :
    ShowsSymbol f p k x (symbolCells f p k x) where
  slot_read := readsAt_decimal rfl
  name_eq := rfl
  value_read := readsAt_figures rfl
  undefined none := by
    rw [symbolCells, none]
    rfl
  owner_read o owned := by
    refine ⟨_, Text.literal_decimal _, ?_⟩
    rw [symbolCells, owned]
    rfl
  auxCount_read := readsAt_decimal rfl

theorem showsRelocation_relocationCells (f : ObjectFile) (p : Pool) (x : Section) (r : Relocation) :
    ShowsRelocation f p x r (relocationCells f p x r) where
  section_eq := rfl
  address_read := readsAt_figures rfl
  slot_read := readsAt_decimal rfl
  symbol_eq := rfl

end Report

/-- The records refer to their long names by the offsets of these. -/
structure Image.RefersToNames (img : Image) (f : ObjectFile) (p : Pool) : Prop where
  section_offset : ∀ (i : Nat) x, (f.sectionList p)[i]? = some x → Name.fieldSize < x.name.size →
    ∃ h o, img.sections[i]? = some h ∧ Name.ofSectionField h.name = .long o ∧ o.toNat = f.nameOffset p i
  symbol_offset : ∀ (k : Nat) x, (f.symbolList p)[k]? = some x → Name.fieldSize < x.name.size →
    ∃ e o, img.symbols[k]? = some e ∧ Name.ofSymbolField e.record.name = .ok (.long o) ∧
      o.toNat = f.nameOffset p (f.sections.size + k)

namespace ObjectFile

open Report

variable {f : ObjectFile} {p : Pool}

private theorem symbolList_idxOf {s : SymbolId} (h : s ∈ f.symbols) :
    (f.symbolList p)[f.symbols.toList.idxOf s]? = some (p.getSymbol s) := by
  rw [symbolList, List.getElem?_map, List.getElem?_idxOf (Array.mem_toList_iff.mpr h), Option.map_some]

theorem Encodable.nameOr_sections (h : f.Encodable p) (hr : f.NamesReadable p) :
    ((f.image p).sections.map fun head => nameOr (head.resolveName (f.image p).strings)) =
      ((f.sectionList p).map (·.name)).toArray := by
  rw [image, List.map_toArray]
  apply congrArg List.toArray
  apply map_mapIdx_eq_map
  intro i x hx
  rw [h.resolveName_section hr hx, nameOr]

/-- The symbols of a file with their names. -/
def namedEntries (f : ObjectFile) (p : Pool) : List (Bytes × SymbolEntry) :=
  ((f.symbolList p).map (·.name)).zip (f.symbolEntries p)

/-- The names of symbols are resolved to what they are in the file. -/
theorem Encodable.nameOr_symbols (h : f.Encodable p) (hr : f.NamesReadable p) :
    ((f.image p).symbols.toList.map fun e => (nameOr (e.record.resolveName (f.image p).strings), e)) =
      f.namedEntries p := by
  have names : ((f.symbolEntries p).map fun e => nameOr (e.record.resolveName (f.strings p))) =
      (f.symbolList p).map (·.name) := by
    apply map_mapIdx_eq_map
    intro k x hx
    rw [h.resolveName_symbol hr hx, nameOr]
  rw [image, List.map_prod_right_eq_zip, names, namedEntries]

private theorem namedEntries_getElem? {k : Nat} {x : Symbol} (hx : (f.symbolList p)[k]? = some x) :
    (f.namedEntries p)[k]? =
      some (x.name, f.symbolEntry p (f.nameOffset p (f.sections.size + k)) (f.slot p k) x) := by
  rw [namedEntries, List.getElem?_zip_eq_some, List.getElem?_map, hx]
  exact ⟨rfl, symbolEntries_getElem? hx⟩

private theorem sum_slots_namedEntries (k : Nat) :
    (((f.namedEntries p).take k).map fun e => e.2.slots).sum = f.slot p k := by
  have entries : (f.namedEntries p).map Prod.snd = f.symbolEntries p := List.map_snd_zip (by simp)
  rw [← sum_slots_symbolEntries, ← entries, ← List.map_take, List.map_map]
  rfl

/-- The name in the slot of a symbol is its own. -/
theorem Encodable.slotName_slotOf (h : f.Encodable p) {s : SymbolId} (hs : s ∈ f.symbols) :
    slotName (slotNames (f.namedEntries p)) (.ofNat (f.slotOf p s)) = (p.getSymbol s).name := by
  have found := slotNames_getElem? (namedEntries_getElem? (symbolList_idxOf (p := p) hs))
  rw [sum_slots_namedEntries] at found
  rw [slotName, UInt32.toNat_ofNat_of_lt' (h.slotOf_lt s), slotOf, found]

theorem Encodable.sectionRow_header (h : f.Encodable p) {i : Nat} {x : Section}
    (hx : (f.sectionList p)[i]? = some x) (offset : Nat) :
    sectionRow (i + 1) x.name (x.header offset (f.bodyPosition p i)) = sectionCells f p i x := by
  have places := h.places hx offset
  rw [sectionRow, places.rawSize_eq, places.relocationCount_eq, word32_eq_figures, word32_eq_figures]
  rfl

/-- The label of a symbol names its section, if there are not too many. -/
theorem Encodable.sectionLabel_owner (h : f.Encodable p) (few : f.sections.size ≤ SymbolRecord.maxSectionNumber)
    {x : Symbol} (hx : x ∈ f.symbolList p) :
    sectionLabel (UInt16.ofNat (f.ownerNumber x)).toInt16 ((f.sectionList p).map (·.name)).toArray =
      ownerLabel f p x.owner := by
  cases owned : x.owner with
  | none =>
    rw [ownerNumber, owned]
    rfl
  | some o =>
    have mem : o ∈ f.sections := h.owner_mem x hx o owned
    have index := Encode.sectionIndex_of_mem mem
    have number : f.ownerNumber x = f.sections.toList.idxOf o + 1 := by
      rw [ownerNumber, owned, Option.elim_some, index]
    have inside : f.ownerNumber x ≤ f.sections.size := Encode.ownerNumber_le x
    have named : ((f.sectionList p).map (·.name)).toArray[f.sections.toList.idxOf o]? =
        some (p.getSection o).name := by
      have found := List.getElem?_idxOf (Array.mem_toList_iff.mpr mem)
      rw [List.getElem?_toArray, sectionList, List.map_map, List.getElem?_map, found]
      rfl
    have kept := toInt_toInt16_ofNat (h.ownerNumber_lt x)
    rw [if_pos (Nat.le_trans inside few), number] at kept
    rw [number, sectionLabel_succ kept named, ownerLabel, index]

theorem Encodable.symbolRow_symbolEntry (h : f.Encodable p)
    (few : f.sections.size ≤ SymbolRecord.maxSectionNumber) {x : Symbol} (hx : x ∈ f.symbolList p) (offset k : Nat) :
    symbolRow ((f.sectionList p).map (·.name)).toArray x.name (f.symbolEntry p offset (f.slot p k) x) =
      symbolCells f p k x := by
  have slot : (UInt32.ofNat (f.slot p k)).toNat = f.slot p k :=
    UInt32.toNat_ofNat_of_lt' (Nat.lt_of_le_of_lt (slot_le_slotCount k) h.slots_lt)
  have count : (UInt8.ofNat x.aux.length).toNat = x.aux.length := UInt8.toNat_ofNat_of_lt' (h.aux_lt x hx)
  rw [symbolRow, symbolEntry, h.sectionLabel_owner few hx, slot, count, word32_eq_figures, symbolCells]

/-- A relocation is shown with the name of the symbol in the slot that it refers to. -/
theorem Encodable.relocationRow_relocation (h : f.Encodable p) {x : Section} (hx : x ∈ f.sectionList p)
    {r : Relocation} (hr : r ∈ x.relocations) :
    relocationRow f.machine (slotNames (f.namedEntries p)) x.name (f.relocation p r) = relocationCells f p x r := by
  have slot : (UInt32.ofNat (f.slotOf p r.symbol)).toNat = f.slotOf p r.symbol :=
    UInt32.toNat_ofNat_of_lt' (h.slotOf_lt r.symbol)
  rw [relocationRow, relocation, slot, h.slotName_slotOf (h.relocation_mem x hx r hr), word32_eq_figures,
    relocationCells]

theorem Encodable.sections_ofImage (h : f.Encodable p) (hr : f.NamesReadable p) (path : Bytes) (size : Nat) :
    (ofImage path size (f.image p)).sections = sectionGrid f p := by
  rw [ofImage]
  simp only [h.nameOr_sections hr]
  apply congrArg (Grid.mk _ _)
  rw [sectionRows_eq, image, sectionHeaders, zip_map_mapIdx, List.mapIdx_mapIdx]
  apply mapIdx_congr
  intro i x hx
  rw [Nat.add_comm]
  exact h.sectionRow_header hx _

theorem Encodable.symbols_ofImage (h : f.Encodable p) (hr : f.NamesReadable p)
    (few : f.sections.size ≤ SymbolRecord.maxSectionNumber) (path : Bytes) (size : Nat) :
    (ofImage path size (f.image p)).symbols = symbolGrid f p := by
  rw [ofImage]
  simp only [h.nameOr_sections hr, h.nameOr_symbols hr]
  apply congrArg (Grid.mk _ _)
  rw [namedEntries, symbolEntries, zip_map_mapIdx, map_mapIdx]
  apply mapIdx_congr
  intro k x hx
  exact h.symbolRow_symbolEntry few (List.mem_of_getElem? hx) _ k

theorem Encodable.relocations_ofImage (h : f.Encodable p) (hr : f.NamesReadable p) (path : Bytes) (size : Nat) :
    (ofImage path size (f.image p)).relocations = relocationGrid f p := by
  rw [ofImage]
  simp only [h.nameOr_sections hr, h.nameOr_symbols hr]
  apply congrArg (Grid.mk _ _)
  rw [image, List.zip_map', List.flatMap_map]
  apply List.flatMap_congr
  intro x hx
  rw [relocations, List.map_map]
  apply List.map_congr_left
  intro r hr
  exact h.relocationRow_relocation hx (Array.mem_toList_iff.mp hr)

/-- The string table is listed with the offsets at which the long names were stored. -/
theorem Encodable.strings_ofImage (h : f.Encodable p) (hr : f.NamesReadable p) (path : Bytes) (size : Nat) :
    (ofImage path size (f.image p)).strings = stringGrid f p := by
  rw [ofImage]
  apply congrArg (Grid.mk _ _)
  rw [image, strings, StringTable.entries_ofNames hr.noZero, List.map_map]
  apply List.map_congr_left
  intro e he
  obtain ⟨hn, long⟩ := StringTable.mem_longNames he
  have offset := Name.toNat_of_le_maxOffset ((h.name_fits _ _ hn).2 long)
  rw [Function.comp_apply, stringCells, ← offset]
  rfl

/-- The symbol of a relocation is listed at the slot that the relocation refers to. -/
theorem Encodable.relocation_listed (h : f.Encodable p) {row : List Bytes} (hrow : row ∈ (relocationGrid f p).rows) :
    ∃ entry ∈ (symbolGrid f p).rows, entry.take 2 = row.drop 3 := by
  obtain ⟨x, hx, hrow⟩ := List.mem_flatMap.mp hrow
  obtain ⟨r, hr, rfl⟩ := List.mem_map.mp hrow
  have mem := h.relocation_mem x hx r (Array.mem_toList_iff.mp hr)
  obtain ⟨inside, found⟩ := List.getElem?_eq_some_iff.mp (symbolList_idxOf (p := p) mem)
  refine ⟨_, List.mem_mapIdx.mpr ⟨_, inside, rfl⟩, ?_⟩
  rw [found]
  rfl

theorem forall₂_relocationGrid (f : ObjectFile) (p : Pool) :
    List.Forall₂ (fun e row => ShowsRelocation f p e.1 e.2 row)
      ((f.sectionList p).flatMap fun x => x.relocations.toList.map (x, ·)) (relocationGrid f p).rows := by
  have rows : (relocationGrid f p).rows = ((f.sectionList p).flatMap fun x => x.relocations.toList.map (x, ·)).map
      fun e => relocationCells f p e.1 e.2 := by
    rw [List.map_flatMap]
    simp only [List.map_map]
    rfl
  rw [rows, List.forall₂_map_right_iff]
  exact List.forall₂_same.mpr fun e _ => showsRelocation_relocationCells f p e.1 e.2

/-- The report on the records of a file tells what is in the file. -/
theorem Encodable.tells (h : f.Encodable p) (hr : f.NamesReadable p)
    (few : f.sections.size ≤ SymbolRecord.maxSectionNumber) (path : Bytes) (size : Nat) :
    (ofImage path size (f.image p)).Tells f p where
  sections_eq := h.sections_ofImage hr path size
  symbols_eq := h.symbols_ofImage hr few path size
  relocations_eq := h.relocations_ofImage hr path size
  strings_eq := h.strings_ofImage hr path size
  relocation_listed row hrow := by
    rw [h.relocations_ofImage hr] at hrow
    rw [h.symbols_ofImage hr few]
    exact h.relocation_listed hrow
  section_read i x hx := by
    rw [h.sections_ofImage hr, sectionGrid, List.getElem?_mapIdx, hx]
    exact ⟨_, rfl, readsAt_decimal rfl, rfl⟩
  symbol_read k x hx := by
    rw [h.symbols_ofImage hr few, symbolGrid, List.getElem?_mapIdx, hx]
    exact ⟨_, rfl, showsSymbol_symbolCells f p k x⟩
  relocations_read := by
    rw [h.relocations_ofImage hr]
    exact forall₂_relocationGrid f p
  string_read i e he := by
    rw [h.strings_ofImage hr, stringGrid, List.getElem?_map, he]
    exact ⟨_, rfl, readsAt_decimal rfl, rfl⟩

theorem Encodable.refersToNames (h : f.Encodable p) (hr : f.NamesReadable p) : (f.image p).RefersToNames f p where
  section_offset i x hx long := by
    have reach := (h.name_fits _ _ (names_section hx)).2 long
    refine ⟨_, _, (List.getElem?_toArray ..).trans (sectionHeaders_getElem? hx), ?_, Name.toNat_of_le_maxOffset reach⟩
    rw [Section.header, h.ofSectionField_forSection hr hx, Name.stored, if_neg (Nat.not_le.mpr long)]
  symbol_offset k x hx long := by
    have reach := (h.name_fits _ _ (names_symbol hx)).2 long
    refine ⟨_, _, (List.getElem?_toArray ..).trans (symbolEntries_getElem? hx), ?_, Name.toNat_of_le_maxOffset reach⟩
    rw [symbolEntry, h.ofSymbolField_forSymbol hr hx, Name.stored, if_neg (Nat.not_le.mpr long)]

end ObjectFile

namespace Report

/-- The report on an encoded file tells what is in the file, unless a name or a section number is lost when
the file is read. -/
theorem ofBytes_tells (f : ObjectFile) (p : Pool) {d : Bytes} (h : f.bytes p = .ok d)
    (few : f.sections.size ≤ SymbolRecord.maxSectionNumber)
    (hb : (Encode.script p f).strings.size < UInt32.size) (hr : f.NamesReadable p) (path : Bytes) :
    ∃ img r, Image.inspect d = .ok img ∧ img.RefersToNames f p ∧ ofBytes path d = .ok r ∧ r.Tells f p := by
  obtain ⟨c, rfl⟩ := ObjectFile.bytes_eq_ok.mp h
  rw [c.script_strings] at hb
  have read : Image.inspect (f.layout p) = .ok (f.image p) := by
    rw [ObjectFile.inspect_layout c, StringTable.covered_eq hb]
    rfl
  exact ⟨_, _, read, c.refersToNames hr, ofBytes_of_inspect read, c.tells hr few path (f.layout p).size⟩

/-- In the sample, an auxiliary record comes before the symbol that the relocation refers to. -/
theorem ofBytes_tells_sampleFile : ∃ d r, ObjectFile.sampleFile.bytes ObjectFile.samplePool = .ok d ∧
    ofBytes "sample.obj" d = .ok r ∧
    r.sections.rows = ([["1", ".text", "5 B", "0x00000064", "1", "0x00000073", "-"],
      ["2", ".debug_frame", "0 B", "0x0000007b", "0", "0x0000007b", "-"]] : List (List Bytes)) ∧
    r.symbols.rows = ([["0", ".text", "0x000003c0", "1 .text", "null/null", "static", "1"],
      ["2", "external_function", "0x00000000", "UNDEF", "null/null", "external", "0"],
      ["3", "external_function", "0x00000000", "UNDEF", "null/null", "external", "0"]] : List (List Bytes)) ∧
    r.relocations.rows = ([[".text", "0x00000001", "0x0004", "2", "external_function"]] : List (List Bytes)) ∧
    r.strings.rows =
      ([["4", ".debug_frame"], ["17", "external_function"], ["35", "external_function"]] : List (List Bytes)) := by
  obtain ⟨img, r, -, -, made, tells⟩ := ofBytes_tells _ _ ObjectFile.sampleFile_bytes (by decide)
    ObjectFile.sampleFile_strings ObjectFile.sampleFile_namesReadable "sample.obj"
  refine ⟨_, r, ObjectFile.sampleFile_bytes, made, ?_, ?_, ?_, ?_⟩
  · rw [tells.sections_eq]
    decide +kernel
  · rw [tells.symbols_eq]
    decide +kernel
  · rw [tells.relocations_eq]
    decide +kernel
  · rw [tells.strings_eq]
    decide +kernel

end Report

end CoffWorks
