import CoffWorks.Proofs.Image.Safety
import CoffWorks.Proofs.Object.RoundTrip

namespace CoffWorks

open Bytes

namespace Cursor

/-- The cursor in a file that is followed by `t`. -/
def followedBy (c : Cursor) (t : Bytes) : Cursor :=
  ⟨c.data ++ t, c.pos, Nat.le_trans c.pos_le (by rw [ByteArray.size_append]; omega)⟩

variable {c c' : Cursor} (t : Bytes)

@[simp] theorem followedBy_data : (c.followedBy t).data = c.data ++ t := rfl

@[simp] theorem followedBy_pos : (c.followedBy t).pos = c.pos := rfl

private theorem followedBy_size : (c.followedBy t).data.size = c.data.size + t.size := ByteArray.size_append

private theorem seek_followedBy {pos : Int64} (h : c.seek pos = .ok c') :
    (c.followedBy t).seek pos = .ok (c'.followedBy t) := by
  have size := followedBy_size (c := c) t
  unfold seek at h
  split at h
  · next inside =>
    cases h
    exact dif_pos ⟨inside.1, by omega⟩
  · cases h

/-- Bytes that were there are read as well if more follow. -/
theorem bytes_followedBy {n : Int64} {b : Bytes} (h : c.bytes n = .ok (b, c')) :
    (c.followedBy t).bytes n = .ok (b, c'.followedBy t) := by
  have size := followedBy_size (c := c) t
  unfold bytes at h
  split at h
  · cases h
  · next passed =>
    split at h
    · next inside =>
      cases h
      have passes : ¬ (n < 0 ∨ (Int64.ofNat c.pos + n).toInt > (c.followedBy t).data.size) :=
        fun refused => passed (refused.imp_right fun beyond => by omega)
      have there : c.pos + n.toInt.toNat ≤ (c.followedBy t).data.size := by omega
      have part : (c.followedBy t).data.slice c.pos n.toInt.toNat = c.data.slice c.pos n.toInt.toNat :=
        slice_append_left c.data t inside
      rw [bytes, followedBy_pos, if_neg passes, dif_pos there, part]
      rfl
    · cases h

private theorem u32_followedBy {v : UInt32} (h : c.u32 = .ok (v, c')) :
    (c.followedBy t).u32 = .ok (v, c'.followedBy t) := by
  simp only [u32, Attempt.bind_eq_ok, Prod.exists] at h ⊢
  obtain ⟨b, d, read, made⟩ := h
  cases made
  exact ⟨b, _, bytes_followedBy t read, rfl⟩

end Cursor

/-- A string table tells its own length. -/
theorem StringTable.read_append {data : Bytes} {table : StringTable} (h : read { data } = .ok table)
    (t : Bytes) : read { data := data ++ t } = .ok table := by
  obtain ⟨fits, rfl⟩ := read_eq_ok.mp h
  have length : (data ++ t).u32At 0 = data.u32At 0 := by
    rw [← u32At_slice (data ++ t) 0 (Nat.le_refl 4), slice_append_left data t (by omega),
      u32At_slice data 0 (Nat.le_refl 4)]
  rw [read_eq_ok, length, ByteArray.size_append, slice_append_left data t fits]
  exact ⟨by omega, rfl⟩

namespace Image

variable {c c' : Cursor} {record : Unit → Bytes} (t : Bytes)

private theorem recordBytes_followedBy {size : Nat} {raw : Bytes} (h : recordBytes c record size = .ok (raw, c')) :
    recordBytes (c.followedBy t) record size = .ok (raw, c'.followedBy t) :=
  Cursor.reading_eq_ok.mpr (Cursor.bytes_followedBy t (Cursor.reading_eq_ok.mp h))

private theorem seekTo_followedBy {pos : Nat} (h : seekTo c record pos = .ok c') :
    seekTo (c.followedBy t) record pos = .ok (c'.followedBy t) :=
  Cursor.reading_eq_ok.mpr (Cursor.seek_followedBy t (Cursor.reading_eq_ok.mp h))

/-- A table is read to its last record, whatever follows. -/
theorem readRecords_followedBy {α : Type} {format : RecordFormat α} {label : Nat → Bytes} {n i : Nat}
    {acc r : Array α} (h : readRecords format label n i acc c = .ok (r, c')) :
    readRecords format label n i acc (c.followedBy t) = .ok (r, c'.followedBy t) := by
  induction n generalizing i acc c with
  | zero =>
    cases h
    rfl
  | succ n ih =>
    simp only [readRecords, Attempt.bind_eq_ok, Prod.exists] at h ⊢
    obtain ⟨raw, d, read, a, parsed, rest⟩ := h
    exact ⟨raw, d.followedBy t, recordBytes_followedBy t read, a, parsed, ih rest⟩

private theorem readAllRelocations_followedBy {i : Nat} {acc r : Array (Array RelocationRecord)}
    {hs : List SectionHeader} (h : readAllRelocations i acc c hs = .ok (r, c')) :
    readAllRelocations i acc (c.followedBy t) hs = .ok (r, c'.followedBy t) := by
  induction hs generalizing i acc c with
  | nil =>
    cases h
    rfl
  | cons head rest ih =>
    rw [readAllRelocations] at h ⊢
    split_ifs at h ⊢
    · exact ih h
    · simp only [readRelocations_eq, Attempt.bind_eq_ok, Prod.exists] at h ⊢
      obtain ⟨d, sought, records, e, read, more⟩ := h
      exact ⟨d.followedBy t, seekTo_followedBy t sought, records, e.followedBy t,
        readRecords_followedBy t read, ih more⟩

private theorem readAux_followedBy {slot : UInt32} {n k : Nat} {aux : List (Field 18)}
    (h : readAux slot n k c = .ok (aux, c')) :
    readAux slot n k (c.followedBy t) = .ok (aux, c'.followedBy t) := by
  induction n generalizing k c aux with
  | zero =>
    cases h
    rfl
  | succ n ih =>
    simp only [readAux, Attempt.bind_eq_ok, Prod.exists] at h ⊢
    obtain ⟨raw, d, read, rest, e, more, made⟩ := h
    cases made
    exact ⟨raw, d.followedBy t, recordBytes_followedBy t read, rest, _, ih more, rfl⟩

private theorem readSymbol_followedBy {slot : UInt32} {e : SymbolEntry} (h : readSymbol slot c = .ok (e, c')) :
    readSymbol slot (c.followedBy t) = .ok (e, c'.followedBy t) := by
  simp only [readSymbol, Attempt.bind_eq_ok, Prod.exists] at h ⊢
  obtain ⟨raw, d, read, symbol, parsed, aux, d', more, made⟩ := h
  cases made
  exact ⟨raw, d.followedBy t, recordBytes_followedBy t read, symbol, parsed, aux, _,
    readAux_followedBy t more, rfl⟩

private theorem readSymbols_followedBy {count slot : UInt32} {acc r : Array SymbolEntry}
    (h : readSymbols count slot acc c = .ok (r, c')) :
    readSymbols count slot acc (c.followedBy t) = .ok (r, c'.followedBy t) := by
  fun_induction readSymbols count slot acc c with
  | case1 slot acc c go e failed => cases h
  | case2 slot acc c go entry d read ih =>
    have again := readSymbol_followedBy t read
    rw [readSymbols, if_pos go]
    split
    · next failed =>
      rw [again] at failed
      cases failed
    · next same =>
      rw [again] at same
      cases same
      exact ih h
  | case3 slot acc c stop =>
    cases h
    rw [readSymbols, if_neg stop]

private theorem readStrings_followedBy {table : StringTable} (h : readStrings c = .ok table) :
    readStrings (c.followedBy t) = .ok table := by
  simp only [readStrings, Attempt.bind_eq_ok, Prod.exists] at h ⊢
  obtain ⟨size, d, length, rest⟩ := h
  have longer : (Cursor.followedBy d t).remaining = d.remaining + t.size := by
    have inside := d.pos_le
    simp only [Cursor.remaining, Cursor.followedBy_data, Cursor.followedBy_pos, ByteArray.size_append]
    omega
  refine ⟨size, d.followedBy t, Cursor.reading_eq_ok.mpr
    (Cursor.u32_followedBy t (Cursor.reading_eq_ok.mp length)), ?_⟩
  split_ifs at rest with short
  rw [if_neg (by omega), Cursor.reading_eq_ok]
  obtain ⟨part, -, -, passes⟩ := Cursor.passes_of_u32 (Cursor.reading_eq_ok.mp length)
  have start : c.pos ≤ d.data.size := by
    rw [passes.data_eq]
    exact c.pos_le
  rw [Cursor.followedBy_data, Cursor.followedBy_pos, drop_append_left d.data t start]
  exact StringTable.read_append (Cursor.reading_eq_ok.mp rest) t

/-- An image is not changed by what follows the file. -/
theorem inspect_append {data : Bytes} {img : Image} (h : inspect data = .ok img) :
    inspect (data ++ t) = .ok img := by
  have start : Cursor.start (data ++ t) = (Cursor.start data).followedBy t := rfl
  simp only [inspect, readSections_eq, Attempt.bind_eq_ok, Prod.exists, start] at h ⊢
  obtain ⟨raw, c₁, read, header, parsed, c₂, sought, sections, c₃, directory, relocations, c₄, all, rest⟩ := h
  refine ⟨raw, c₁.followedBy t, recordBytes_followedBy t read, header, parsed, c₂.followedBy t,
    seekTo_followedBy t sought, sections, c₃.followedBy t, readRecords_followedBy t directory,
    relocations, c₄.followedBy t, readAllRelocations_followedBy t all, ?_⟩
  split_ifs at rest ⊢
  · exact rest
  · simp only [Attempt.bind_eq_ok, Prod.exists] at rest ⊢
    obtain ⟨c₅, table, symbols, c₆, listed, strings, stored, made⟩ := rest
    exact ⟨c₅.followedBy t, seekTo_followedBy t table, symbols, c₆.followedBy t,
      readSymbols_followedBy t listed, strings, readStrings_followedBy t stored, made⟩

/-- The string table comes after the symbols and is read to its end. -/
theorem le_size_of_inspect {data : Bytes} {img : Image} (h : inspect data = .ok img)
    (tables : ¬ (img.header.symbolTable = 0 ∧ img.header.symbols = 0)) :
    img.header.symbolTable.toNat + (concat (img.symbols.toList.map (·.encode))).size +
      (4 + img.strings.size) ≤ data.size := by
  obtain ⟨c₁, c₂, c₃, c₄, -, data₂, -, directory, all, rest⟩ := of_inspect h
  rw [if_neg tables] at rest
  obtain ⟨c₅, c₆, sought, listed, stored⟩ := rest
  rw [readSections_eq] at directory
  obtain ⟨hs, -, -, passes⟩ := of_readRecords directory
  have data₄ := (of_readAllRelocations all).1
  rw [passes.data_eq, data₂] at data₄
  have bound : img.header.symbolTable.toNat < 2 ^ 63 :=
    Nat.lt_trans img.header.symbolTable.toNat_lt (by decide)
  obtain ⟨data₅, pos₅⟩ := of_seekTo bound sought
  obtain ⟨es, eq, passes, -⟩ := of_readSymbols listed
  have content := congrArg ByteArray.size (of_readStrings stored)
  rw [passes.data_eq, passes.pos_eq, data₅, data₄, pos₅, size_slice, ByteArray.size_append,
    StringTable.size_lengthBytes, ← StringTable.size] at content
  have list : img.symbols.toList = es := by simp [eq]
  rw [list]
  omega

end Image

namespace ObjectFile

variable {f : ObjectFile} {p : Pool}

/-- The image of an encoded file takes all of its bytes. -/
theorem size_layout (h : f.Encodable p) : (f.layout p).size = (f.image p).header.symbolTable.toNat +
    (concat ((f.image p).symbols.toList.map (·.encode))).size + (4 + (f.image p).strings.size) := by
  have position : (f.image p).header.symbolTable.toNat = (f.before p f.sections.size).size := by
    rw [size_before]
    exact UInt32.toNat_ofNat_of_lt' h.symbolTable_lt
  have symbols : concat ((f.image p).symbols.toList.map (·.encode)) = f.symbolTable p := rfl
  have strings : (f.image p).strings.size = (f.strings p).blob.size := rfl
  rw [position, symbols, strings]
  simp only [layout, before, ByteArray.size_append, StringTable.size_lengthBytes]
  omega

private theorem size_layout_lt (h : f.Encodable p) (hb : (f.strings p).size < UInt32.size) :
    (f.layout p).size + SectionHeader.size < 2 ^ 63 := by
  have position := (f.image p).header.symbolTable.toNat_lt
  have symbols : (concat ((f.image p).symbols.toList.map (·.encode))).size = SymbolRecord.size * f.slotCount p :=
    size_symbolTable
  have slots : f.slotCount p < 2 ^ 32 := h.slots_lt
  have strings : (f.image p).strings.size < 2 ^ 32 := hb
  rw [size_layout h, symbols, SymbolRecord.size, SectionHeader.size]
  omega

private theorem symbolTable_ne_zero (h : f.Encodable p) : (f.header p).symbolTable ≠ 0 := by
  intro absent
  have position : (f.header p).symbolTable.toNat = f.symbolTablePosition p :=
    UInt32.toNat_ofNat_of_lt' h.symbolTable_lt
  rw [absent, symbolTablePosition, bodyPosition, Encode.headerPosition, FileHeader.size] at position
  simp at position
  omega

/-- An encoded file delimits itself. It is read as the same image whatever follows it, and if any of its
last bytes are missing, reading stops where they are missed. -/
theorem inspect_bytes_delimited (f : ObjectFile) (p : Pool) {d : Bytes} (h : f.bytes p = .ok d)
    (hb : (Encode.script p f).strings.size < UInt32.size) :
    ∃ img, Image.inspect d = .ok img ∧ (∀ t, Image.inspect (d ++ t) = .ok img) ∧
      ∀ n < d.size, ∃ e, Image.inspect (d.take n) = .error e ∧ Image.Stops (d.take n) e := by
  obtain ⟨c, rfl⟩ := bytes_eq_ok.mp h
  rw [c.script_strings] at hb
  have read : Image.inspect (f.layout p) = .ok (f.image p) := by
    rw [inspect_layout c, StringTable.covered_eq hb]
    rfl
  refine ⟨f.image p, read, fun t => Image.inspect_append t read, ?_⟩
  intro n cut
  have size : ((f.layout p).take n).size = n := by
    rw [size_take]
    omega
  cases result : Image.inspect ((f.layout p).take n) with
  | ok img =>
    -- what is read of the front is the image of the whole, which ends with the last byte
    have whole := Image.inspect_append ((f.layout p).drop n) result
    rw [take_append_drop _ (Nat.le_of_lt cut), read] at whole
    obtain rfl := Except.ok.inj whole
    have needed := Image.le_size_of_inspect result fun none => symbolTable_ne_zero c none.1
    rw [← size_layout c, size] at needed
    omega
  | error e =>
    have small := size_layout_lt c hb
    exact ⟨e, rfl, Image.inspect_fails (by omega) e result⟩

/-- The sample is read as well with a copy of itself behind it, and not without its last byte. -/
theorem inspect_sampleFile_delimited : ∃ d img, sampleFile.bytes samplePool = .ok d ∧ d.size = 256 ∧
    Image.inspect d = .ok img ∧ Image.inspect (d ++ d) = .ok img ∧
    ∃ e, Image.inspect (d.take 255) = .error e ∧ Image.Stops (d.take 255) e := by
  obtain ⟨img, read, more, cut⟩ := inspect_bytes_delimited _ _ sampleFile_bytes sampleFile_strings
  have size : (sampleFile.layout samplePool).size = 256 := by decide +kernel
  exact ⟨_, img, sampleFile_bytes, size, read, more _, cut 255 (by omega)⟩

end ObjectFile

end CoffWorks
