import CoffWorks.Proofs.Image.Safety
import CoffWorks.Sink.Staging

namespace CoffWorks

open Bytes

namespace Image

/-- The number of slots that the symbols of the image take. -/
def slots (img : Image) : Nat := (img.symbols.toList.map SymbolEntry.slots).sum

/-- The symbols and the string table are those that stand in `data`, one after the other. -/
structure TablesFaithful (img : Image) (data : Bytes) : Prop where
  symbols_eq : concat (img.symbols.toList.map (·.encode)) =
    data.slice img.header.symbolTable.toNat (SymbolRecord.size * img.slots)
  slots_ge : img.header.symbols.toNat ≤ img.slots
  slots_le : img.slots ≤ img.header.symbols.toNat + 255
  index_eq : ∀ k e, img.symbols[k]? = some e →
    e.index.toNat = ((img.symbols.toList.take k).map SymbolEntry.slots).sum
  index_lt : ∀ e ∈ img.symbols, e.index < img.header.symbols
  strings_eq : img.strings.writeTo ({} : Staging) =
    ⟨⟨data.slice (img.header.symbolTable.toNat + SymbolRecord.size * img.slots) (4 + img.strings.size)⟩,
      4 + img.strings.size, none⟩

/-- All records of the image are those that stand in `data`. -/
structure Faithful (img : Image) (data : Bytes) : Prop where
  header_eq : img.header.encode = data.slice 0 FileHeader.size
  sections_size : img.sections.size = img.header.sections.toNat
  section_eq : ∀ (i : Nat) h, img.sections[i]? = some h → h.encode =
    data.slice (FileHeader.size + img.header.optionalHeader.toNat + SectionHeader.size * i) SectionHeader.size
  relocations_size : img.relocations.size = img.sections.size
  relocation_eq : ∀ (i : Nat) (h : SectionHeader) (rs : Array RelocationRecord),
    img.sections[i]? = some h → img.relocations[i]? = some rs →
    rs.size = h.relocationCount.toNat ∧ ∀ j r, rs[j]? = some r →
      r.encode = data.slice (h.relocations.toNat + RelocationRecord.size * j) RelocationRecord.size
  no_tables : img.header.symbolTable = 0 ∧ img.header.symbols = 0 → img.symbols = #[] ∧ img.strings = {}
  tables : ¬ (img.header.symbolTable = 0 ∧ img.header.symbols = 0) → img.TablesFaithful data

theorem tablesFaithful_of_read {img : Image} {data : Bytes} (small : data.size < UInt32.size) {c d : Cursor}
    (hd : c.data = data) (hp : c.pos = img.header.symbolTable.toNat)
    (symbols : readSymbols img.header.symbols 0 #[] c = .ok (img.symbols, d))
    (strings : readStrings d = .ok img.strings) : img.TablesFaithful data := by
  have room : (0 : UInt32).toNat + c.remaining < UInt32.size := by
    rw [Cursor.remaining, hd, UInt32.toNat_zero]
    omega
  obtain ⟨es, eq, passes, fill⟩ := of_readSymbols symbols
  replace fill := fill room
  have list : img.symbols.toList = es := by simp [eq]
  have size : (concat (es.map (·.encode))).size = SymbolRecord.size * img.slots := by
    rw [size_concat_map, slots, list]
    simp only [SymbolEntry.size_encode, List.sum_map_mul_left]
  have table := passes.part_eq
  rw [size, hd, hp] at table
  have rest := of_readStrings strings
  rw [passes.data_eq, passes.pos_eq, size, hd, hp] at rest
  have ge := fill.stop_ge
  have le := fill.stop_le (by simp)
  rw [UInt32.toNat_zero, Nat.zero_add, ← list] at ge le
  refine ⟨list ▸ table, ge, le, ?_, ?_, ?_⟩
  · intro k e hk
    have entry : es[k]? = some e := by simpa [eq] using hk
    have numbered := (fill.contiguous k e entry).1
    rwa [UInt32.toNat_zero, Nat.zero_add, ← list] at numbered
  · intro e he
    rw [UInt32.lt_iff_toNat_lt]
    exact fill.index_lt e (by simpa [eq] using he)
  · rw [StringTable.writeTo_staging, rest]

private theorem relocations_faithful {data : Bytes} {hs : List SectionHeader} {rss : List (List RelocationRecord)}
    (all : List.Forall₂ (Relocated data) hs rss) {i : Nat} {h : SectionHeader} {rs : Array RelocationRecord}
    (hh : hs[i]? = some h) (hr : (rss.map List.toArray)[i]? = some rs) :
    rs.size = h.relocationCount.toNat ∧ ∀ j r, rs[j]? = some r →
      r.encode = data.slice (h.relocations.toNat + RelocationRecord.size * j) RelocationRecord.size := by
  obtain ⟨inside, rfl⟩ := List.getElem?_eq_some_iff.mp hh
  rw [List.getElem?_map, Option.map_eq_some_iff] at hr
  obtain ⟨l, hl, rfl⟩ := hr
  obtain ⟨inside', rfl⟩ := List.getElem?_eq_some_iff.mp hl
  obtain ⟨count, place⟩ := (List.forall₂_iff_get.mp all).2 i inside inside'
  refine ⟨by simpa using count, ?_⟩
  intro j r hj
  exact slice_of_concat RelocationRecord.size_encode place (by simpa using hj)

/-- An image holds just what stands in the file that it was read from. -/
theorem inspect_faithful {data : Bytes} {img : Image} (small : data.size < UInt32.size)
    (h : inspect data = .ok img) : img.Faithful data := by
  obtain ⟨c₁, c₂, c₃, c₄, first, data₂, pos₂, directory, all, rest⟩ := of_inspect h
  have header := first.part_eq
  rw [FileHeader.size_encode] at header
  rw [readSections_eq] at directory
  obtain ⟨hs, sections, count, passes⟩ := of_readRecords directory
  rw [Array.empty_append] at sections
  have place := passes.part_eq
  rw [data₂, pos₂] at place
  obtain ⟨data₄, rss, relocations, relocated⟩ := of_readAllRelocations all
  rw [Array.empty_append] at relocations
  rw [passes.data_eq, data₂] at data₄ relocated
  have length := relocated.length_eq
  refine ⟨header, by simp [sections, count], ?_, ?_, ?_, ?_, ?_⟩
  · intro i x hx
    exact slice_of_concat SectionHeader.size_encode place (by simpa [sections] using hx)
  · simpa [relocations] using length.symm
  · intro i x rs hx hr
    exact relocations_faithful relocated (by simpa using hx) (by simpa [relocations] using hr)
  · intro none
    rwa [if_pos none] at rest
  · intro some
    rw [if_neg some] at rest
    obtain ⟨c₅, c₆, table, symbols, strings⟩ := rest
    have bound : img.header.symbolTable.toNat < 2 ^ 63 :=
      Nat.lt_trans img.header.symbolTable.toNat_lt (by decide)
    obtain ⟨data₅, pos₅⟩ := of_seekTo bound table
    exact tablesFaithful_of_read small (data₅.trans data₄) pos₅ symbols strings

/-- The knotted file is read although its tables overlap, and its symbols take a slot more than it says. -/
theorem inspect_knotted_faithful : ∃ img, inspect knotted = .ok img ∧ img.Faithful knotted ∧
    img.header.symbols = 1 ∧ img.slots = 2 := by
  have read : (inspect knotted).map (fun img => (img.header.symbols, img.slots)) = .ok (1, 2) := by
    decide +kernel
  obtain ⟨img, known, counts⟩ := Attempt.map_eq_ok.mp read
  obtain ⟨symbols, slots⟩ := Prod.mk.inj counts
  exact ⟨img, known, inspect_faithful (by decide +kernel) known, symbols, slots⟩

end Image

end CoffWorks
