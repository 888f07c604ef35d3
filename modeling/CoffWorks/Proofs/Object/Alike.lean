import CoffWorks.Proofs.Object.Encode

namespace CoffWorks

variable {f g : ObjectFile} {p q : Pool}

/-- The relocations refer to the same positions in the lists of symbols. -/
structure Relocation.Alike (f g : ObjectFile) (r t : Relocation) : Prop where
  address_eq : r.address = t.address
  type_eq : r.type = t.type
  symbol_eq : f.symbols.toList.idxOf r.symbol = g.symbols.toList.idxOf t.symbol

structure Section.Alike (f g : ObjectFile) (x y : Section) : Prop where
  name_eq : x.name = y.name
  data_eq : x.data = y.data
  address_eq : x.address = y.address
  flags_eq : x.flags = y.flags
  relocations_alike : List.Forall₂ (Relocation.Alike f g) x.relocations.toList y.relocations.toList

/-- The records have the same content. -/
inductive Aux.Alike (p q : Pool) : Aux → Aux → Prop
  | definition {s t : SectionId} (number : UInt16)
      (data : (p.getSection s).data.size = (q.getSection t).data.size)
      (relocations : (p.getSection s).relocations.size = (q.getSection t).relocations.size) :
      Alike p q (.definition (some s) number) (.definition (some t) number)
  | undefined (number : UInt16) : Alike p q (.definition none number) (.definition none number)
  | fileName (piece : FileName) : Alike p q (.fileName piece) (.fileName piece)
  | unknown : Alike p q .unknown .unknown

/-- The sections have the same name and the same position in the file, if any. -/
structure SectionId.Alike (f : ObjectFile) (p : Pool) (g : ObjectFile) (q : Pool) (s t : SectionId) : Prop where
  name_eq : (p.getSection s).name = (q.getSection t).name
  index_eq : f.sectionIndex s = g.sectionIndex t

structure Symbol.Alike (f : ObjectFile) (p : Pool) (g : ObjectFile) (q : Pool) (x y : Symbol) : Prop where
  name_eq : x.name = y.name
  value_eq : x.value = y.value
  type_eq : x.type = y.type
  storageClass_eq : x.storageClass = y.storageClass
  owner_alike : Option.Rel (SectionId.Alike f p g q) x.owner y.owner
  aux_alike : List.Forall₂ (Aux.Alike p q) x.aux y.aux

structure ObjectFile.Alike (f : ObjectFile) (p : Pool) (g : ObjectFile) (q : Pool) : Prop where
  machine_eq : f.machine = g.machine
  flags_eq : f.flags = g.flags
  sections_alike : List.Forall₂ (Section.Alike f g) (f.sectionList p) (g.sectionList q)
  symbols_alike : List.Forall₂ (Symbol.Alike f p g q) (f.symbolList p) (g.symbolList q)

theorem Section.Alike.relocations_size {x y : Section} (h : x.Alike f g y) :
    x.relocations.size = y.relocations.size := by
  simpa using h.relocations_alike.length_eq

namespace Encode

private theorem each_congr {α β : Type} {R : α → β → Prop} {step : Nat → α → Script → Script}
    {step' : Nat → β → Script → Script} {l : List α} {l' : List β} (h : List.Forall₂ R l l')
    (same : ∀ i x y s, R x y → step i x s = step' i y s) (i : Nat) (s : Script) :
    each step i l s = each step' i l' s := by
  induction h generalizing i s with
  | nil => rfl
  | cons head _ ih => rw [each, each, same _ _ _ _ head, ih]

private theorem auxBytes_alike {a c : Aux} (h : a.Alike p q c) (path : Unit → List Bytes) (b : Bytes) :
    auxBytes p path b a = auxBytes q path b c := by
  cases h with
  | definition number data relocations => simp only [auxBytes, data, relocations]
  | undefined number => rfl
  | fileName piece => rfl
  | unknown => rfl

private theorem auxRecords_alike {l m : List Aux} (h : List.Forall₂ (Aux.Alike p q) l m) (path : Unit → List Bytes)
    (j : Nat) (b : Bytes) : auxRecords p path j b l = auxRecords q path j b m := by
  induction h generalizing j b with
  | nil => rfl
  | cons head _ ih => simp only [auxRecords, auxBytes_alike head, ih]

private theorem sectionNumber_alike {o o' : Option SectionId} (h : Option.Rel (SectionId.Alike f p g q) o o')
    (path : Unit → List Bytes) : sectionNumber p f path o = sectionNumber q g path o' := by
  cases h with
  | none => rfl
  | some same => simp only [sectionNumber, same.index_eq, same.name_eq]

theorem symbol_alike {x y : Symbol} (h : x.Alike f p g q y) (i : Nat) (s : Script) :
    symbol p f i x s = symbol q g i y s := by
  simp only [symbol, symbolPath, h.name_eq, h.value_eq, h.type_eq, h.storageClass_eq, h.aux_alike.length_eq,
    sectionNumber_alike h.owner_alike, auxRecords_alike h.aux_alike]

theorem sectionHeader_alike {x y : Section} (h : x.Alike f g y) (i : Nat) (s : Script) :
    sectionHeader i x s = sectionHeader i y s := by
  simp only [sectionHeader, sectionPath, h.name_eq, h.data_eq, h.address_eq, h.flags_eq, h.relocations_size]

end Encode

namespace ObjectFile.Alike

variable (h : f.Alike p g q)
include h

theorem symbols_size : f.symbols.size = g.symbols.size := by
  simpa using h.symbols_alike.length_eq

theorem sections_size : f.sections.size = g.sections.size := by
  simpa using h.sections_alike.length_eq

theorem slot_eq (k : Nat) : f.slot p k = g.slot q k := by
  have counts : (f.symbolList p).map (fun x => 1 + x.aux.length) =
      (g.symbolList q).map (fun x => 1 + x.aux.length) := by
    rw [← List.forall₂_eq_eq_eq, List.forall₂_map_left_iff, List.forall₂_map_right_iff]
    exact h.symbols_alike.imp fun x y same => by rw [same.aux_alike.length_eq]
  rw [slot, slot, List.map_take, List.map_take, counts]

theorem slotCount_eq : f.slotCount p = g.slotCount q := by
  rw [← slot_size, ← slot_size, h.symbols_size, h.slot_eq]

/-- Symbols at the same position are looked up in the same way. -/
theorem slots_eq {slots slots' : Slots} (hf : Encode.Locates f p slots) (hg : Encode.Locates g q slots')
    {s t : SymbolId} (same : f.symbols.toList.idxOf s = g.symbols.toList.idxOf t) : slots[s]? = slots'[t]? := by
  have mem : s ∈ f.symbols ↔ t ∈ g.symbols := by
    rw [← Array.mem_toList_iff, ← Array.mem_toList_iff, ← List.idxOf_lt_length_iff, ← List.idxOf_lt_length_iff,
      same, Array.length_toList, Array.length_toList, h.symbols_size]
  rw [hf, hg, slotOf, slotOf, same, h.slot_eq]
  simp only [mem]

private theorem relocationBytes_eq {slots slots' : Slots} (hf : Encode.Locates f p slots)
    (hg : Encode.Locates g q slots') {l m : List Relocation} (hl : List.Forall₂ (Relocation.Alike f g) l m)
    (path : Unit → List Bytes) (j : Nat) (b : Bytes) :
    Encode.relocationBytes slots path j b l = Encode.relocationBytes slots' path j b m := by
  induction hl generalizing j b with
  | nil => rfl
  | cons head _ ih =>
    simp only [Encode.relocationBytes, h.slots_eq hf hg head.symbol_eq, head.address_eq, head.type_eq, ih]

theorem sectionBody_eq {slots slots' : Slots} (hf : Encode.Locates f p slots) (hg : Encode.Locates g q slots')
    {x y : Section} (hx : x.Alike f g y) (i : Nat) (s : Script) :
    Encode.sectionBody slots i x s = Encode.sectionBody slots' i y s := by
  simp only [Encode.sectionBody, Encode.sectionPath, hx.name_eq, hx.data_eq,
    h.relocationBytes_eq hf hg hx.relocations_alike]

/-- Slots are refused for both files or for none. -/
theorem assignSlots_cases : (∃ e, Encode.assignSlots p f = .error e ∧ Encode.assignSlots q g = .error e) ∨
    ∃ slots slots', Encode.assignSlots p f = .ok slots ∧ Encode.assignSlots q g = .ok slots' := by
  -- the tables are kept apart, as their keys differ
  have loop {l m : List SymbolId} (hl : List.Forall₂ (fun s t => (p.getSymbol s).Alike f p g q (q.getSymbol t)) l m)
      (i slot : Nat) (before before' : Slots) :
      (∃ e, Encode.slotsFrom p i slot before l = .error e ∧ Encode.slotsFrom q i slot before' m = .error e) ∨
        ∃ slots slots', Encode.slotsFrom p i slot before l = .ok slots ∧
          Encode.slotsFrom q i slot before' m = .ok slots' := by
    induction hl generalizing i slot before before' with
    | nil => exact .inr ⟨before, before', rfl, rfl⟩
    | cons head _ ih =>
      simp only [Encode.slotsFrom, Encode.symbolPath, head.name_eq, head.aux_alike.length_eq]
      split_ifs
      · exact .inl ⟨_, rfl, rfl⟩
      · exact ih ..
  have symbols := h.symbols_alike
  rw [symbolList, symbolList, List.forall₂_map_left_iff, List.forall₂_map_right_iff] at symbols
  exact loop symbols 0 0 ∅ ∅

/-- The encoder takes the same steps for both files and fails in the same way. -/
theorem script_eq : Encode.script p f = Encode.script q g := by
  unfold Encode.script
  rcases h.assignSlots_cases with ⟨e, ef, eg⟩ | ⟨slots, slots', ef, eg⟩
  · rw [ef, eg]
  · have header : Encode.fileHeader p f {} = Encode.fileHeader q g {} := by
      simp only [Encode.fileHeader, h.machine_eq, h.flags_eq, h.sections_size, h.slotCount_eq]
    have hf := Encode.locates_of_assignSlots ef
    have hg := Encode.locates_of_assignSlots eg
    rw [ef, eg]
    simp only [Encode.each_map]
    rw [← sectionList, ← sectionList, ← symbolList, ← symbolList, header,
      Encode.each_congr h.sections_alike (fun i x y s hx => Encode.sectionHeader_alike hx i s),
      Encode.each_congr h.sections_alike (fun i x y s hx => h.sectionBody_eq hf hg hx i s),
      Encode.each_congr h.symbols_alike (fun i x y s hx => Encode.symbol_alike hx i s)]

/-- Files that are alike have the same bytes, or the same fault. -/
theorem bytes_eq : f.bytes p = g.bytes q := by
  simp only [bytes, bytes?, encode?, encode, h.script_eq]

end ObjectFile.Alike

end CoffWorks
