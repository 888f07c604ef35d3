import CoffWorks.Proofs.Image

namespace CoffWorks

open Bytes

namespace Image

variable {α : Type} {c c' : Cursor} {record : Unit → Bytes}

theorem recordBytes_eq {size : Nat} (h : c.pos + size < 2 ^ 63) :
    recordBytes c record size = if inside : c.pos + size ≤ c.data.size then
      .ok (c.data.slice c.pos size, ⟨c.data, c.pos + size, inside⟩)
      else .error (c.parsing (record ()) (c.failure .unexpectedEnd)) := by
  rw [recordBytes, Cursor.bytes_eq c h]
  split_ifs <;> rfl

theorem seekTo_eq {pos : Nat} (h : pos < 2 ^ 63) :
    seekTo c record pos = if inside : pos ≤ c.data.size then .ok ⟨c.data, pos, inside⟩
      else .error (c.parsing (record ()) (c.failure (.plain ("seek to " ++ Text.signed pos ++ " beyond "
        ++ Text.decimal c.data.size ++ " bytes")))) := by
  rw [seekTo, Cursor.seek_eq c h]
  split_ifs <;> rfl

theorem passes_of_recordBytes {size : Nat} {raw : Bytes} (hs : size < 2 ^ 63)
    (h : recordBytes c record size = .ok (raw, c')) : raw.size = size ∧ c.Passes raw c' :=
  Cursor.passes_of_bytes hs (Cursor.reading_eq_ok.mp h)

theorem parse_of_recordBytes (format : RecordFormat α) {raw : Bytes}
    (h : recordBytes c record format.size = .ok (raw, c')) : ∃ a, format.parse raw = .ok a :=
  format.parse_of_size_le (Nat.le_of_eq (passes_of_recordBytes format.size_lt h).1.symm)

/-- A record that was parsed stands in the file where the cursor was. -/
theorem passes_of_parse (format : RecordFormat α) {raw : Bytes} {a : α}
    (h : recordBytes c record format.size = .ok (raw, c')) (parsed : format.parse raw = .ok a) :
    c.Passes (format.encode a) c' := by
  obtain ⟨size, passes⟩ := passes_of_recordBytes format.size_lt h
  rwa [(format.encode_of_parse parsed).2, take_of_size_le (Nat.le_of_eq size)]

theorem of_seekTo {pos : Nat} (hp : pos < 2 ^ 63) (h : seekTo c record pos = .ok c') :
    c'.data = c.data ∧ c'.pos = pos := by
  rw [seekTo_eq hp] at h
  split_ifs at h
  cases h
  exact ⟨rfl, rfl⟩

/-- A table that was read stands in the file where the cursor was, record after record. -/
theorem of_readRecords {format : RecordFormat α} {label : Nat → Bytes} {n i : Nat} {acc r : Array α}
    (h : readRecords format label n i acc c = .ok (r, c')) :
    ∃ l : List α, r = acc ++ l.toArray ∧ l.length = n ∧ c.Passes (concat (l.map format.encode)) c' := by
  induction n generalizing i acc c with
  | zero =>
    cases h
    exact ⟨[], by simp, rfl, .refl _⟩
  | succ n ih =>
    simp only [readRecords, Attempt.bind_eq_ok, Prod.exists] at h
    obtain ⟨raw, d, read, a, parsed, rest⟩ := h
    have first := passes_of_parse format read parsed
    obtain ⟨l, eq, length, passes⟩ := ih rest
    refine ⟨a :: l, by simp [eq], by simp [length], ?_⟩
    rw [List.map_cons, concat_cons]
    exact first.append passes

/-- The relocations are as many as the header says, and stand where it says. -/
def Relocated (data : Bytes) (h : SectionHeader) (rs : List RelocationRecord) : Prop :=
  rs.length = h.relocationCount.toNat ∧
    concat (rs.map (·.encode)) = data.slice h.relocations.toNat (concat (rs.map (·.encode))).size

/-- Each header leads to its own relocations, wherever the ones before were. -/
theorem of_readAllRelocations {i : Nat} {acc r : Array (Array RelocationRecord)} {hs : List SectionHeader}
    (h : readAllRelocations i acc c hs = .ok (r, c')) : c'.data = c.data ∧
      ∃ rss : List (List RelocationRecord), r = acc ++ (rss.map List.toArray).toArray ∧
        List.Forall₂ (Relocated c.data) hs rss := by
  induction hs generalizing i acc c with
  | nil =>
    cases h
    exact ⟨rfl, [], by simp, .nil⟩
  | cons head rest ih =>
    rw [readAllRelocations] at h
    split_ifs at h with none
    · obtain ⟨kept, rss, eq, all⟩ := ih h
      refine ⟨kept, [] :: rss, by simp [eq], .cons ⟨?_, ?_⟩ all⟩
      · simp [none]
      · exact (slice_zero _ _).symm
    · simp only [Attempt.bind_eq_ok, Prod.exists] at h
      obtain ⟨d, sought, records, e, read, more⟩ := h
      have small : head.relocations.toNat < 2 ^ 63 := Nat.lt_trans head.relocations.toNat_lt (by decide)
      obtain ⟨data, pos⟩ := of_seekTo small sought
      rw [readRelocations_eq] at read
      obtain ⟨l, rfl, length, passes⟩ := of_readRecords read
      obtain ⟨kept, rss, eq, all⟩ := ih more
      have same : e.data = c.data := passes.data_eq.trans data
      have place := passes.part_eq
      rw [same] at kept all
      rw [data, pos] at place
      exact ⟨kept, l :: rss, by simp [eq], .cons ⟨length, place⟩ all⟩

private theorem of_readAux {slot : UInt32} {n k : Nat} {aux : List (Field 18)}
    (h : readAux slot n k c = .ok (aux, c')) : aux.length = n ∧ c.Passes (concat (aux.map (·.bytes))) c' := by
  induction n generalizing k c aux with
  | zero =>
    cases h
    exact ⟨rfl, .refl _⟩
  | succ n ih =>
    simp only [readAux, Attempt.bind_eq_ok, Prod.exists] at h
    obtain ⟨raw, d, read, rest, e, more, made⟩ := h
    cases made
    obtain ⟨size, first⟩ := passes_of_recordBytes (by decide) read
    obtain ⟨length, passes⟩ := ih more
    have field : (Field.pad 18 raw).bytes = raw := by
      rw [Field.pad_bytes 18 raw (Nat.le_of_eq size), size]
      exact ByteArray.append_empty
    refine ⟨by simp [length], ?_⟩
    rw [List.map_cons, concat_cons, field]
    exact first.append passes

theorem of_readSymbol {slot : UInt32} {e : SymbolEntry} (h : readSymbol slot c = .ok (e, c')) :
    e.index = slot ∧ e.record.auxCount.toNat = e.aux.length ∧ c.Passes e.encode c' := by
  simp only [readSymbol, Attempt.bind_eq_ok, Prod.exists] at h
  obtain ⟨raw, d, read, record, parsed, aux, d', more, made⟩ := h
  cases made
  have first := passes_of_parse SymbolRecord.format read parsed
  obtain ⟨length, passes⟩ := of_readAux more
  exact ⟨rfl, length.symm, first.append passes⟩

end Image

namespace SymbolEntry

theorem Contiguous.cons {slot : Nat} {e : SymbolEntry} {rest : List SymbolEntry}
    (index : e.index.toNat = slot) (count : e.record.auxCount.toNat = e.aux.length)
    (h : Contiguous (slot + e.slots) rest) : Contiguous slot (e :: rest) := by
  intro k x hk
  cases k with
  | zero =>
    obtain rfl : e = x := by simpa using hk
    exact ⟨by simpa using index, count⟩
  | succ k =>
    obtain ⟨next, counts⟩ := h k x (by simpa using hk)
    refine ⟨?_, counts⟩
    rw [next, List.take_succ_cons, List.map_cons, List.sum_cons, Nat.add_assoc]

/-- The entries take the slots from `slot` to `count`. The last of them may take more. -/
structure Fill (es : List SymbolEntry) (slot count : Nat) : Prop where
  contiguous : Contiguous slot es
  index_lt : ∀ e ∈ es, e.index.toNat < count
  stop_ge : count ≤ slot + (es.map slots).sum
  stop_le : slot ≤ count + 255 → slot + (es.map slots).sum ≤ count + 255

theorem Fill.nil {slot count : Nat} (h : count ≤ slot) : Fill [] slot count := by
  refine ⟨?_, by simp, by simpa using h, by simp⟩
  intro k e none
  simp at none

/-- Only the last entry may go beyond the slots that are announced. -/
theorem Fill.cons {slot count : Nat} {e : SymbolEntry} {rest : List SymbolEntry}
    (h : Fill rest (slot + e.slots) count) (index : e.index.toNat = slot)
    (aux : e.record.auxCount.toNat = e.aux.length) (lt : slot < count) (few : e.slots ≤ 256) :
    Fill (e :: rest) slot count := by
  refine ⟨.cons index aux h.contiguous, ?_, ?_, ?_⟩
  · intro x hx
    rcases List.mem_cons.mp hx with rfl | later
    · exact index.trans_lt lt
    · exact h.index_lt x later
  · rw [List.map_cons, List.sum_cons, ← Nat.add_assoc]
    exact h.stop_ge
  · intro _
    rw [List.map_cons, List.sum_cons, ← Nat.add_assoc]
    exact h.stop_le (by omega)

end SymbolEntry

namespace Image

variable {c c' : Cursor}

/-- Each slot takes more than one byte, so slots do not overflow while there are fewer than `2 ^ 32` bytes. -/
theorem of_readSymbols {count slot : UInt32} {acc r : Array SymbolEntry}
    (h : readSymbols count slot acc c = .ok (r, c')) :
    ∃ es : List SymbolEntry, r = acc ++ es.toArray ∧ c.Passes (concat (es.map (·.encode))) c' ∧
      (slot.toNat + c.remaining < UInt32.size → SymbolEntry.Fill es slot.toNat count.toNat) := by
  fun_induction readSymbols count slot acc c with
  | case1 slot acc c go e failed => cases h
  | case2 slot acc c go entry d read ih =>
    obtain ⟨rfl, aux, first⟩ := of_readSymbol read
    obtain ⟨es, eq, passes, fill⟩ := ih h
    refine ⟨entry :: es, by simp [eq], ?_, ?_⟩
    · rw [List.map_cons, concat_cons]
      exact first.append passes
    · intro room
      have consumed := first.remaining_eq
      rw [SymbolEntry.size_encode, SymbolRecord.size] at consumed
      have few := entry.record.auxCount.toNat_lt
      have bound : UInt32.size = 2 ^ 32 := rfl
      have slots : entry.slots = 1 + entry.record.auxCount.toNat := by rw [SymbolEntry.slots, aux]
      have next : (entry.index + 1 + entry.record.auxCount.toUInt32).toNat =
          entry.index.toNat + entry.slots := by
        simp only [UInt32.toNat_add, UInt8.toNat_toUInt32, UInt32.toNat_one, slots]
        omega
      rw [next] at fill
      rw [UInt32.lt_iff_toNat_lt] at go
      exact (fill (by omega)).cons rfl aux go (by omega)
  | case3 slot acc c stop =>
    cases h
    rw [UInt32.lt_iff_toNat_lt] at stop
    exact ⟨[], by simp, .refl _, fun _ => .nil (Nat.not_lt.mp stop)⟩

/-- The string table is what comes next in the file, its length first. -/
theorem of_readStrings {c : Cursor} {t : StringTable} (h : readStrings c = .ok t) :
    t.lengthBytes ++ t.blob = c.data.slice c.pos (4 + t.size) := by
  simp only [readStrings, Attempt.bind_eq_ok, Prod.exists] at h
  obtain ⟨size, d, length, rest⟩ := h
  split_ifs at rest
  obtain ⟨_, -, -, passes⟩ := Cursor.passes_of_u32 (Cursor.reading_eq_ok.mp length)
  obtain ⟨fits, content⟩ := StringTable.of_read (Cursor.reading_eq_ok.mp rest)
  rw [passes.data_eq, drop, size_slice, Nat.min_self] at fits
  rw [content, passes.data_eq, drop, take_slice _ _ fits]

/-- The readings that made an image, one after the other. -/
theorem of_inspect {data : Bytes} {img : Image} (h : inspect data = .ok img) :
    ∃ c₁ c₂ c₃ c₄ : Cursor, (Cursor.start data).Passes img.header.encode c₁ ∧
      c₂.data = data ∧ c₂.pos = FileHeader.size + img.header.optionalHeader.toNat ∧
      readSections img.header.sections.toNat 0 #[] c₂ = .ok (img.sections, c₃) ∧
      readAllRelocations 0 #[] c₃ img.sections.toList = .ok (img.relocations, c₄) ∧
      if img.header.symbolTable = 0 ∧ img.header.symbols = 0 then img.symbols = #[] ∧ img.strings = {}
      else ∃ c₅ c₆, seekTo c₄ (fun _ => "symbol table") img.header.symbolTable.toNat = .ok c₅ ∧
        readSymbols img.header.symbols 0 #[] c₅ = .ok (img.symbols, c₆) ∧
        readStrings c₆ = .ok img.strings := by
  simp only [inspect, Attempt.bind_eq_ok, Prod.exists] at h
  obtain ⟨raw, c₁, read, header, parsed, c₂, sought, sections, c₃, directory, relocations, c₄, all, rest⟩ := h
  have first := passes_of_parse FileHeader.format read parsed
  have start : c₁.pos = FileHeader.size := by
    rw [first.pos_eq, FileHeader.format.size_encode]
    exact Nat.zero_add _
  have short := header.optionalHeader.toNat_lt
  have twenty : FileHeader.size = 20 := rfl
  obtain ⟨same, pos⟩ := of_seekTo (by omega) sought
  rw [first.data_eq] at same
  rw [start] at pos
  refine ⟨c₁, c₂, c₃, c₄, ?_⟩
  split_ifs at rest with none
  · cases rest
    exact ⟨first, same, pos, directory, all, by rw [if_pos none]; exact ⟨rfl, rfl⟩⟩
  · simp only [Attempt.bind_eq_ok, Prod.exists] at rest
    obtain ⟨c₅, table, symbols, c₆, listed, strings, stored, made⟩ := rest
    cases made
    exact ⟨first, same, pos, directory, all, by rw [if_neg none]; exact ⟨c₅, c₆, table, listed, stored⟩⟩

end Image

end CoffWorks
