import CoffWorks.Proofs.Object.Layout
import CoffWorks.Proofs.Object.Script

namespace CoffWorks.Encode

open Bytes

variable {f : ObjectFile} {p : Pool}

private theorem narrow_eq_ok {bits n v : Nat} {path : Unit → List Bytes} {field : Bytes} :
    narrow bits n path field = .ok v ↔ n < 2 ^ bits ∧ n = v := by
  rw [narrow, Attempt.ok_or_reject_eq_ok, Nat.one_shiftLeft]

theorem narrow8_eq_ok {n : Nat} {path : Unit → List Bytes} {field : Bytes} {v : UInt8} :
    narrow8 n path field = .ok v ↔ n < UInt8.size ∧ UInt8.ofNat n = v := by
  simp [narrow8, Attempt.map_eq_ok, narrow_eq_ok, and_assoc]

theorem narrow16_eq_ok {n : Nat} {path : Unit → List Bytes} {field : Bytes} {v : UInt16} :
    narrow16 n path field = .ok v ↔ n < UInt16.size ∧ UInt16.ofNat n = v := by
  simp [narrow16, Attempt.map_eq_ok, narrow_eq_ok, and_assoc]

theorem narrow32_eq_ok {n : Nat} {path : Unit → List Bytes} {field : Bytes} {v : UInt32} :
    narrow32 n path field = .ok v ↔ n < UInt32.size ∧ UInt32.ofNat n = v := by
  simp [narrow32, Attempt.map_eq_ok, narrow_eq_ok, and_assoc]

/-- The table gives each symbol of the file its first slot, and has no others. -/
def Locates (f : ObjectFile) (p : Pool) (slots : Slots) : Prop :=
  ∀ s, slots[s]? = if s ∈ f.symbols then some (.ofNat (f.slotOf p s)) else none

/-- One more symbol: an earlier occurrence is kept. -/
private theorem getElem?_insertIfNew_slot {before rest : List SymbolId} {s : SymbolId} {slots : Slots}
    (hf : f.symbols.toList = before ++ s :: rest)
    (h : ∀ x, slots[x]? = if x ∈ before then some (.ofNat (f.slotOf p x)) else none) (x : SymbolId) :
    (slots.insertIfNew s (.ofNat (f.slot p before.length)))[x]? =
      if x ∈ before ++ [s] then some (.ofNat (f.slotOf p x)) else none := by
  have known : s ∈ slots ↔ s ∈ before := by
    rw [Std.HashMap.mem_iff_isSome_getElem?, h]
    by_cases hs : s ∈ before <;> simp [hs]
  rw [Std.HashMap.getElem?_insertIfNew, h]
  simp only [known]
  by_cases hx : x ∈ before
  · have other : ¬ ((s == x) = true ∧ s ∉ before) := fun ⟨eq, new⟩ => new (eq_of_beq eq ▸ hx)
    rw [if_neg other, if_pos hx, if_pos (List.mem_append_left _ hx)]
  · by_cases eq : s = x
    · subst eq
      have first : f.slotOf p s = f.slot p before.length := by
        rw [ObjectFile.slotOf, hf, List.idxOf_append_of_notMem hx, List.idxOf_cons_self, Nat.add_zero]
      simp [hx, first]
    · simp [hx, eq, Ne.symm eq]

/-- The table is right for the symbols that were gone through, by induction on those that follow. -/
private theorem locates_of_slotsFrom {rest : List SymbolId} (before : List SymbolId) {slots r : Slots}
    (hf : f.symbols.toList = before ++ rest)
    (h : ∀ x, slots[x]? = if x ∈ before then some (.ofNat (f.slotOf p x)) else none)
    (hr : slotsFrom p before.length (f.slot p before.length) slots rest = .ok r) : Locates f p r := by
  induction rest generalizing before slots with
  | nil =>
    obtain rfl : slots = r := Except.ok.inj hr
    intro x
    rw [h, ← List.append_nil before, ← hf]
    simp only [Array.mem_toList_iff]
  | cons s rest ih =>
    have here : (f.symbolList p)[before.length]? = some (p.getSymbol s) := by
      simp [ObjectFile.symbolList, hf]
    rw [slotsFrom] at hr
    split_ifs at hr
    · cases hr
    · apply ih (before ++ [s]) (by simpa using hf) (getElem?_insertIfNew_slot hf h)
      rw [List.length_append, List.length_singleton, ObjectFile.slot_succ here]
      exact hr

theorem locates_of_assignSlots {slots : Slots} (h : assignSlots p f = .ok slots) : Locates f p slots :=
  locates_of_slotsFrom [] rfl (by simp) h

private theorem slotsFrom_eq_ok {rest : List SymbolId} (before : List SymbolId) (slots : Slots)
    (hf : f.symbols.toList = before ++ rest) (hc : f.slotCount p < UInt32.size) :
    ∃ r, slotsFrom p before.length (f.slot p before.length) slots rest = .ok r := by
  induction rest generalizing before slots with
  | nil => exact ⟨slots, rfl⟩
  | cons s rest ih =>
    have here : (f.symbolList p)[before.length]? = some (p.getSymbol s) := by
      simp [ObjectFile.symbolList, hf]
    have fits : ¬ f.slot p before.length ≥ UInt32.size :=
      Nat.not_le.mpr (Nat.lt_of_le_of_lt (ObjectFile.slot_le_slotCount _) hc)
    obtain ⟨r, hr⟩ := ih (before ++ [s]) (slots.insertIfNew s (.ofNat (f.slot p before.length)))
      (by simpa using hf)
    rw [List.length_append, List.length_singleton, ObjectFile.slot_succ here] at hr
    rw [slotsFrom, if_neg fits]
    exact ⟨r, hr⟩

/-- Slots are only refused if there are too many of them. -/
theorem assignSlots_eq_ok (hc : f.slotCount p < UInt32.size) : ∃ slots, assignSlots p f = .ok slots :=
  slotsFrom_eq_ok [] ∅ rfl hc

/-- Relocations are written if their symbols are in the file. -/
theorem relocationBytes_eq_ok {slots : Slots} (hs : Locates f p slots) {path : Unit → List Bytes}
    {j : Nat} {acc : Bytes} {l : List Relocation} {r : Bytes} :
    relocationBytes slots path j acc l = .ok r ↔ (∀ x ∈ l, x.symbol ∈ f.symbols) ∧
      acc ++ concat ((l.map (f.relocation p)).map (·.encode)) = r := by
  induction l generalizing j acc with
  | nil => simp [relocationBytes]
  | cons x rest ih =>
    rw [relocationBytes, hs]
    by_cases hx : x.symbol ∈ f.symbols
    · simp only [hx, ↓reduceIte, RelocationRecord.pushTo_eq_append]
      rw [ih]
      simp [hx, ObjectFile.relocation, ByteArray.append_assoc]
    · simp [hx, reject]

theorem auxBytes_eq_ok {path : Unit → List Bytes} {b r : Bytes} {a : Aux} :
    auxBytes p path b a = .ok r ↔ a.Encodable p ∧ b ++ (a.field p).bytes = r := by
  cases a with
  | definition target number =>
    cases target with
    | none => simp [auxBytes, reject, Aux.Encodable]
    | some target =>
      have record (hl : (p.getSection target).data.size < UInt32.size)
          (hc : (p.getSection target).relocations.size < UInt16.size) :
          (b.push32 (.ofNat (p.getSection target).data.size)
            |>.push16 (.ofNat (p.getSection target).relocations.size) |>.push16 0 |>.push32 0
            |>.push16 number).pushZeros 4 =
          b ++ (Aux.field p (.definition (some target) number)).bytes := by
        simp only [push32_eq_append, push16_eq_append, pushZeros_eq_append, ByteArray.append_assoc,
          UInt32.toNat_ofNat_of_lt' hl, UInt16.toNat_ofNat_of_lt' hc, Aux.field]
        rw [Field.pad_bytes 18 _ (by simp)]
        simp [zeros, pushZeros]
      simp only [auxBytes, Attempt.bind_eq_ok, narrow32_eq_ok, narrow16_eq_ok]
      constructor
      · rintro ⟨length, ⟨hl, rfl⟩, count, ⟨hc, rfl⟩, hr⟩
        exact ⟨⟨hl, hc⟩, (record hl hc).symm.trans (Except.ok.inj hr)⟩
      · rintro ⟨⟨hl, hc⟩, rfl⟩
        exact ⟨_, ⟨hl, rfl⟩, _, ⟨hc, rfl⟩, congrArg Except.ok (record hl hc)⟩
  | fileName piece => simp [auxBytes, Aux.Encodable, Aux.field]
  | unknown => simp [auxBytes, reject, Aux.Encodable]

theorem auxRecords_eq_ok {path : Unit → List Bytes} {j : Nat} {b r : Bytes} {l : List Aux} :
    auxRecords p path j b l = .ok r ↔
      (∀ a ∈ l, a.Encodable p) ∧ b ++ concat ((l.map (·.field p)).map (·.bytes)) = r := by
  induction l generalizing j b with
  | nil => simp [auxRecords]
  | cons a rest ih =>
    simp only [auxRecords, Attempt.bind_eq_ok, auxBytes_eq_ok, ih]
    simp [and_assoc, ByteArray.append_assoc]

/-- Just the sections outside of the file have no number. -/
theorem sectionIndex_eq_zero {s : SectionId} : f.sectionIndex s = 0 ↔ s ∉ f.sections := by
  have absent : f.sections.findIdx? (· = s) = none ↔ s ∉ f.sections := by
    rw [Array.findIdx?_eq_none_iff]
    simp only [decide_eq_false_iff_not]
    exact ⟨fun h hs => h s hs rfl, fun h x hx eq => h (eq ▸ hx)⟩
  rw [ObjectFile.sectionIndex, ← absent]
  cases f.sections.findIdx? (· = s) <;> simp

theorem sectionIndex_of_mem {s : SectionId} (h : s ∈ f.sections) :
    f.sectionIndex s = f.sections.toList.idxOf s + 1 := by
  have found : f.sections.findIdx? (· = s) = some (f.sections.toList.idxOf s) := by
    have mem : s ∈ f.sections.toList := by simpa using h
    rw [← f.sections.toArray_toList, List.findIdx?_toArray, List.findIdx?_eq_some_iff_findIdx_eq]
    exact ⟨List.idxOf_lt_length_of_mem mem, rfl⟩
  rw [ObjectFile.sectionIndex, found]

private theorem sectionIndex_le (s : SectionId) : f.sectionIndex s ≤ f.sections.size := by
  unfold ObjectFile.sectionIndex
  split
  · next i hi =>
    obtain ⟨inside, -, -⟩ := Array.findIdx?_eq_some_iff_getElem.mp hi
    exact inside
  · exact Nat.zero_le _

theorem ownerNumber_le (x : Symbol) : f.ownerNumber x ≤ f.sections.size := by
  unfold ObjectFile.ownerNumber
  cases x.owner with
  | none => exact Nat.zero_le _
  | some o => exact sectionIndex_le o

/-- The section of a symbol has to be in the file, and not too far behind. -/
theorem sectionNumber_eq_ok {path : Unit → List Bytes} {x : Symbol} {v : UInt16} :
    sectionNumber p f path x.owner = .ok v ↔
      ((∀ o ∈ x.owner, o ∈ f.sections) ∧ f.ownerNumber x < UInt16.size) ∧
        UInt16.ofNat (f.ownerNumber x) = v := by
  unfold ObjectFile.ownerNumber
  cases x.owner with
  | none => simp [sectionNumber]
  | some o =>
    rw [sectionNumber]
    split
    · next absent =>
      have absent := sectionIndex_eq_zero.mp absent
      simp [reject, absent]
    · next present =>
      have mem : o ∈ f.sections := Decidable.not_not.mp (mt sectionIndex_eq_zero.mpr present)
      simp [narrow16_eq_ok, mem]

section Steps

variable {s : Script} {C : Prop} {b : Bytes} {t : StringTable}

theorem fileHeader_produces (h : s.Produces C b t) :
    (fileHeader p f s).Produces (C ∧ f.sections.size < UInt16.size ∧ f.slotCount p < UInt32.size)
      (b ++ (f.header p).unplaced.encode) t := by
  apply h.emit
  intro r
  simp only [Attempt.bind_eq_ok, narrow16_eq_ok, narrow32_eq_ok]
  simp [pure, Except.pure, ObjectFile.header, FileHeader.unplaced, and_assoc]

theorem sectionHeader_produces (h : s.Produces C b t) (i : Nat) (x : Section) (position : Nat) :
    (sectionHeader i x s).Produces
      (C ∧ (Text.isValid x.name ∧ Name.Reaches (StringTable.bias + t.size) x.name) ∧ x.Fits)
      (b ++ (x.header (StringTable.bias + t.size) position).unplaced.encode) (t.extend x.name) := by
  apply h.emitNamed
  intro r
  simp only [Attempt.bind_eq_ok, StringTable.add_eq_ok, narrow16_eq_ok, narrow32_eq_ok]
  constructor
  · rintro ⟨_, ⟨name, rfl⟩, field, hf, size, ⟨hs, rfl⟩, count, ⟨hc, rfl⟩, hr⟩
    rw [Name.sectionField_stored name.2] at hf
    obtain rfl := Except.ok.inj hf
    exact ⟨⟨name, hs, hc⟩, Except.ok.inj hr⟩
  · rintro ⟨⟨name, hs, hc⟩, rfl⟩
    exact ⟨_, ⟨name, rfl⟩, _, Name.sectionField_stored name.2, _, ⟨hs, rfl⟩, _, ⟨hc, rfl⟩, rfl⟩

/-- The symbol can be written after the names of `t`. -/
def SymbolFits (f : ObjectFile) (p : Pool) (t : StringTable) (x : Symbol) : Prop :=
  ((∀ o ∈ x.owner, o ∈ f.sections) ∧ f.ownerNumber x < UInt16.size) ∧ x.aux.length < UInt8.size ∧
    (Text.isValid x.name ∧ Name.Reaches (StringTable.bias + t.size) x.name) ∧
    ∀ a ∈ x.aux, a.Encodable p

/-- A symbol is written with the records that follow it. -/
theorem symbol_produces (h : s.Produces C b t) (i : Nat) (x : Symbol) (slot : Nat) :
    (symbol p f i x s).Produces (C ∧ SymbolFits f p t x)
      (b ++ (f.symbolEntry p (StringTable.bias + t.size) slot x).encode) (t.extend x.name) := by
  apply h.emitNamed
  intro r
  simp only [Attempt.bind_eq_ok, StringTable.add_eq_ok, narrow8_eq_ok, sectionNumber_eq_ok,
    auxRecords_eq_ok]
  constructor
  · rintro ⟨number, ⟨owner, rfl⟩, count, ⟨hc, rfl⟩, _, ⟨name, rfl⟩, bytes, ⟨aux, rfl⟩, hr⟩
    refine ⟨⟨owner, hc, name, aux⟩, ?_⟩
    rw [← Except.ok.inj hr, Name.symbolField_stored name.2]
    rfl
  · rintro ⟨⟨owner, hc, name, aux⟩, rfl⟩
    refine ⟨_, ⟨owner, rfl⟩, _, ⟨hc, rfl⟩, _, ⟨name, rfl⟩, _, ⟨aux, rfl⟩, ?_⟩
    rw [Name.symbolField_stored name.2]
    rfl

/-- The three pointers of a header are filled in on the way. -/
theorem sectionBody_produces {slots : Slots} (hs : Locates f p slots) {a c : Bytes} {i : Nat} (x : Section)
    (offset position : Nat) (ha : a.size = headerPosition i)
    (hp : (a ++ ((x.header offset position).unplaced.encode ++ c)).size = position)
    (h : s.Produces C (a ++ ((x.header offset position).unplaced.encode ++ c)) t) :
    (sectionBody slots i x s).Produces
      (C ∧ position + x.data.size + RelocationRecord.size * x.relocations.size < UInt32.size ∧
        ∀ r ∈ x.relocations, r.symbol ∈ f.symbols)
      (a ++ ((x.header offset position).encode ++ (c ++ f.body p x))) t := by
  have inside (head : SectionHeader) (d : Bytes) (field : Nat) (hfield : field + 4 ≤ SectionHeader.size) :
      headerPosition i + field + 4 ≤ (a ++ (head.encode ++ d)).size := by
    simp only [ByteArray.size_append, SectionHeader.size_encode]
    omega
  have size (head : SectionHeader) (d : Bytes) :
      (a ++ (head.encode ++ (c ++ d))).size = position + d.size := by
    rw [← hp]
    simp only [ByteArray.size_append, SectionHeader.size_encode]
    omega
  have atData := h.point (headerPosition i + SectionHeader.rawDataField) "PointerToRawData"
    (inside _ _ _ (by decide))
  rw [hp, ← ha, SectionHeader.overwrite_rawData] at atData
  have data := atData.append x.data
  simp only [ByteArray.append_assoc] at data
  have atRelocations := data.point (headerPosition i + SectionHeader.relocationsField)
    "PointerToRelocations" (inside _ _ _ (by decide))
  rw [size, ← ha, SectionHeader.overwrite_relocations] at atRelocations
  have relocations := atRelocations.emit
    (fun _ => relocationBytes slots (fun _ => sectionPath i x) 0 .empty x.relocations.toList)
    (fun r => relocationBytes_eq_ok hs)
  simp only [ByteArray.append_assoc, ByteArray.empty_append] at relocations
  have atLineNumbers := relocations.point (headerPosition i + SectionHeader.lineNumbersField)
    "PointerToLineNumbers" (inside _ _ _ (by decide))
  have records : (concat ((x.relocations.toList.map (f.relocation p)).map (·.encode))).size =
      RelocationRecord.size * x.relocations.size := ObjectFile.size_relocationTable x
  rw [size, ← ha, SectionHeader.overwrite_lineNumbers, ByteArray.size_append, records] at atLineNumbers
  have lineNumbers := atLineNumbers.append (zeros lineNumberBlock)
  simp only [ByteArray.append_assoc, ← Nat.add_assoc] at lineNumbers
  rw [ha] at lineNumbers
  refine Script.Produces.congr lineNumbers ?_
  simp only [Array.mem_toList_iff]
  constructor
  · rintro ⟨⟨⟨⟨c, -⟩, -⟩, mem⟩, fits⟩
    exact ⟨c, fits, mem⟩
  · rintro ⟨c, fits, mem⟩
    exact ⟨⟨⟨⟨c, by omega⟩, by omega⟩, mem⟩, fits⟩

end Steps

end CoffWorks.Encode
