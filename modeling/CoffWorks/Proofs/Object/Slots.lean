import CoffWorks.Proofs.Object.RoundTrip

namespace CoffWorks

namespace ObjectFile

variable {f : ObjectFile} {p : Pool}

/-- Symbol number `k` of the file is the first occurrence of `s`. -/
def FirstAt (f : ObjectFile) (s : SymbolId) (k : Nat) : Prop :=
  f.symbols[k]? = some s ∧ ∀ j < k, f.symbols[j]? ≠ some s

private theorem FirstAt.idxOf_eq {s : SymbolId} {k : Nat} (h : f.FirstAt s k) : f.symbols.toList.idxOf s = k := by
  obtain ⟨here, earlier⟩ := h
  obtain ⟨inside, eq⟩ := Array.getElem?_eq_some_iff.mp here
  apply (List.findIdx_eq (by simpa using inside)).mpr
  refine ⟨by simp [eq], ?_⟩
  intro j hj
  have other := earlier j hj
  rw [Array.getElem?_eq_getElem (by omega)] at other
  simpa using other

private theorem firstAt_idxOf {s : SymbolId} (h : s ∈ f.symbols) : f.FirstAt s (f.symbols.toList.idxOf s) := by
  have mem : s ∈ f.symbols.toList := by simpa using h
  have here := List.getElem?_idxOf mem
  rw [Array.getElem?_toList] at here
  refine ⟨here, ?_⟩
  intro j hj found
  have inside : j < f.symbols.toList.length := Nat.lt_trans hj (List.idxOf_lt_length_of_mem mem)
  have other := List.not_of_lt_findIdx hj
  rw [← Array.getElem?_toList, List.getElem?_eq_getElem inside] at found
  simp [Option.some.inj found] at other

/-- The entry of the first occurrence of a symbol has the slot of the symbol. -/
theorem FirstAt.index_eq {s : SymbolId} {k : Nat} (h : f.FirstAt s k) {e : SymbolEntry}
    (he : (f.symbolEntries p)[k]? = some e) : e.index = .ofNat (f.slotOf p s) := by
  obtain ⟨inside, -⟩ := List.getElem?_eq_some_iff.mp he
  have hx := List.getElem?_eq_getElem (l := f.symbolList p) (i := k) (by simpa using inside)
  rw [symbolEntries_getElem? hx] at he
  rw [slotOf, h.idxOf_eq, ← Option.some.inj he]
  rfl

end ObjectFile

/-- The record designates the entry of the first occurrence of `s`, and so no auxiliary record. -/
def Image.Designates (img : Image) (f : ObjectFile) (record : RelocationRecord) (s : SymbolId) : Prop :=
  ∃ k e, f.FirstAt s k ∧ img.symbols[k]? = some e ∧ record.symbolIndex = e.index ∧
    record.symbolIndex < img.header.symbols ∧
    ∀ other ∈ img.symbols, ¬ other.OwnsAux record.symbolIndex.toNat

/-- All counts of slots are the same. -/
structure Image.CountsSlots (img : Image) (f : ObjectFile) (p : Pool) : Prop where
  assigned : ∃ slots, Encode.assignSlots p f = .ok slots ∧ ∀ s k e, f.FirstAt s k →
    img.symbols[k]? = some e → slots[s]? = some e.index
  header_eq : img.header.symbols.toNat = f.slotCount p
  records_eq : (img.symbols.toList.map fun e => 1 + e.record.auxCount.toNat).sum = f.slotCount p
  contiguous : SymbolEntry.Contiguous 0 img.symbols.toList
  auxCount_eq : List.Forall₂ (fun e x => e.record.auxCount.toNat = x.aux.length) img.symbols.toList
    (f.symbolList p)

namespace ObjectFile

variable {f : ObjectFile} {p : Pool}

theorem Encodable.designates (h : f.Encodable p) {x : Section} (hx : x ∈ f.sectionList p) {r : Relocation}
    (hr : r ∈ x.relocations) {img : Image} (header : img.header = f.header p)
    (symbols : img.symbols = (f.symbolEntries p).toArray) :
    img.Designates f (f.relocation p r) r.symbol := by
  have contiguous := symbolEntries_contiguous h
  have first := firstAt_idxOf (h.relocation_mem x hx r hr)
  have inside : f.symbols.toList.idxOf r.symbol < (f.symbolEntries p).length := by
    rw [length_symbolEntries]
    exact (Array.getElem?_eq_some_iff.mp first.1).1
  have found := List.getElem?_eq_getElem inside
  have index : (f.relocation p r).symbolIndex = _ := (first.index_eq found).symm
  have count : (f.header p).symbols.toNat = f.slotCount p := UInt32.toNat_ofNat_of_lt' h.slots_lt
  refine ⟨_, _, first, by simp [symbols], index, ?_, ?_⟩
  · have below := contiguous.index_lt found
    rw [header, index, UInt32.lt_iff_toNat_lt, count, ← sum_slots_eq_slotCount]
    omega
  · intro other hother
    rw [symbols, List.mem_toArray] at hother
    obtain ⟨m, hm⟩ := List.getElem?_of_mem hother
    rw [index]
    exact contiguous.not_ownsAux found hm

theorem Encodable.countsSlots (h : f.Encodable p) {img : Image} (header : img.header = f.header p)
    (symbols : img.symbols = (f.symbolEntries p).toArray) : img.CountsSlots f p where
  assigned := by
    obtain ⟨slots, ok⟩ := Encode.assignSlots_eq_ok h.slots_lt
    refine ⟨slots, ok, ?_⟩
    intro s k e first he
    have mem : s ∈ f.symbols := Array.mem_of_getElem? first.1
    rw [Encode.locates_of_assignSlots ok, if_pos mem, first.index_eq (by simpa [symbols] using he)]
  header_eq := by
    rw [header]
    exact UInt32.toNat_ofNat_of_lt' h.slots_lt
  records_eq := by
    rw [← sum_slots_eq_slotCount, symbols]
    apply congrArg List.sum
    apply List.map_congr_left
    intro e he
    obtain ⟨k, hk⟩ := List.getElem?_of_mem he
    rw [(symbolEntries_contiguous h k e hk).2, SymbolEntry.slots]
  contiguous := by
    rw [symbols]
    exact symbolEntries_contiguous h
  auxCount_eq := by
    rw [symbols]
    apply forall₂_mapIdx
    intro k x hx
    exact UInt8.toNat_ofNat_of_lt' (h.aux_lt x (List.mem_of_getElem? hx))

/-- Whatever is listed before it and however often, the relocations of an encoded file designate the
first entry of their symbol, and everything that counts slots agrees. -/
theorem inspect_bytes_designates (f : ObjectFile) (p : Pool) {d : Bytes} (h : f.bytes p = .ok d) :
    ∃ img, Image.inspect d = .ok img ∧ img.CountsSlots f p ∧
      ∀ (i j : Nat) x r, (f.sectionList p)[i]? = some x → x.relocations[j]? = some r →
        ∃ rs record, img.relocations[i]? = some rs ∧ rs[j]? = some record ∧
          img.Designates f record r.symbol := by
  obtain ⟨c, rfl⟩ := bytes_eq_ok.mp h
  refine ⟨_, inspect_layout c, c.countsSlots rfl rfl, ?_⟩
  intro i j x r hx hr
  refine ⟨(f.relocations p x).toArray, f.relocation p r, ?_, ?_, ?_⟩
  · simp [image, hx]
  · simp [relocations, hr]
  · exact c.designates (List.mem_of_getElem? hx) (Array.mem_of_getElem? hr) rfl rfl

/-- The symbol that the sample refers to follows one with an auxiliary record and is listed twice. -/
theorem inspect_sampleFile_designates : ∃ d img, sampleFile.bytes samplePool = .ok d ∧
    Image.inspect d = .ok img ∧ ∃ rs record, img.relocations[0]? = some rs ∧ rs[0]? = some record ∧
      img.Designates sampleFile record ⟨1⟩ := by
  obtain ⟨img, read, -, designates⟩ := inspect_bytes_designates sampleFile samplePool sampleFile_bytes
  exact ⟨_, img, sampleFile_bytes, read, designates 0 0 _ _ rfl rfl⟩

end ObjectFile

end CoffWorks
