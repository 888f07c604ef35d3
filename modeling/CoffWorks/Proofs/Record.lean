import CoffWorks.Proofs.Bytes.Slice
import CoffWorks.Record

namespace CoffWorks

open Bytes

theorem checkRecord_eq_ok (record : Bytes) (size : Nat) (data : Bytes) (h : size ≤ data.size) :
    checkRecord record size data = .ok () :=
  if_neg (Nat.not_lt.mpr h)

/-- Parsing only asks for the bytes of the record. -/
private theorem checkRecord_bind_eq_ok {α : Type} {record data : Bytes} {size : Nat} {x : Attempt α} {a : α} :
    (checkRecord record size data >>= fun _ => x) = .ok a ↔ size ≤ data.size ∧ x = .ok a := by
  unfold checkRecord
  split_ifs with short
  · simp [reject, bind, Except.bind, Nat.not_le.mpr short]
  · simp [bind, Except.bind, Nat.not_lt.mp short]

namespace FileHeader

theorem encode_eq (h : FileHeader) : h.encode = word 2 h.machine.code.toNat ++ (word 2 h.sections.toNat ++
    (word 4 h.timestamp.toNat ++ (word 4 h.symbolTable.toNat ++ (word 4 h.symbols.toNat ++
    (word 2 h.optionalHeader.toNat ++ word 2 h.flags.bits.toNat))))) := by
  simp only [encode, pushTo, push16_eq_append, push32_eq_append, ByteArray.empty_append,
    ByteArray.append_assoc]

@[simp] theorem size_encode (h : FileHeader) : h.encode.size = size := by
  simp [encode_eq, size]

/-- Parsing gives back what was encoded, whatever stands behind it. -/
theorem parse_encode (h : FileHeader) (rest : Bytes) : parse (h.encode ++ rest) = .ok h := by
  have long : size ≤ (h.encode ++ rest).size := by simp
  rw [parse, checkRecord_eq_ok _ _ _ long, encode_eq]
  simp only [bind, Except.bind, pure, Except.pure, ByteArray.append_assoc]
  simp [u16At_skip, u32At_skip, u16At_word, u32At_word]

theorem parse_of_size_le {data : Bytes} (h : size ≤ data.size) : ∃ header, parse data = .ok header :=
  ⟨_, checkRecord_bind_eq_ok.mpr ⟨h, rfl⟩⟩

/-- Encoding what was parsed gives back the bytes that it was parsed from. -/
theorem encode_of_parse {data : Bytes} {h : FileHeader} (parsed : parse data = .ok h) :
    size ≤ data.size ∧ h.encode = data.take size := by
  obtain ⟨long, made⟩ := checkRecord_bind_eq_ok.mp parsed
  refine ⟨long, ?_⟩
  unfold size at long
  rw [← Except.ok.inj made, encode_eq]
  simp (disch := omega) only [word_u16At, word_u32At]
  change _ = data.slice 0 (2 + (2 + (4 + (4 + (4 + (2 + 2))))))
  simp only [slice_add]

/-- Filling in the pointer to the symbol table. -/
theorem overwrite_symbolTable (h : FileHeader) (c : Bytes) (n : Nat) :
    (h.encode ++ c).overwrite symbolTableField (word 4 n) =
      { h with symbolTable := .ofNat n }.encode ++ c := by
  have patched := overwrite_middle
    (word 2 h.machine.code.toNat ++ (word 2 h.sections.toNat ++ word 4 h.timestamp.toNat))
    (word 4 h.symbolTable.toNat)
    (word 4 h.symbols.toNat ++ (word 2 h.optionalHeader.toNat ++ (word 2 h.flags.bits.toNat ++ c)))
    (word 4 n) (by simp)
  simpa only [encode_eq, ByteArray.append_assoc, ByteArray.size_append, size_word, word_toNat_ofNat,
    symbolTableField, Nat.reduceAdd] using patched

end FileHeader

namespace SectionHeader

theorem encode_eq (h : SectionHeader) : h.encode = h.name.bytes ++ (word 4 h.virtualSize.toNat ++
    (word 4 h.virtualAddress.toNat ++ (word 4 h.rawSize.toNat ++ (word 4 h.rawData.toNat ++
    (word 4 h.relocations.toNat ++ (word 4 h.lineNumbers.toNat ++ (word 2 h.relocationCount.toNat ++
    (word 2 h.lineNumberCount.toNat ++ word 4 h.flags.bits.toNat)))))))) := by
  simp only [encode, pushTo, push16_eq_append, push32_eq_append, ByteArray.empty_append,
    ByteArray.append_assoc]

@[simp] theorem size_encode (h : SectionHeader) : h.encode.size = size := by
  simp [encode_eq, size, h.name.size_eq]

theorem parse_encode (h : SectionHeader) (rest : Bytes) : parse (h.encode ++ rest) = .ok h := by
  have long : size ≤ (h.encode ++ rest).size := by simp
  have name (c : Bytes) : Field.at 8 (h.name.bytes ++ c) 0 = h.name := by
    simpa using Field.at_append .empty c h.name
  rw [parse, checkRecord_eq_ok _ _ _ long, encode_eq]
  simp only [bind, Except.bind, pure, Except.pure, ByteArray.append_assoc]
  simp [u16At_skip, u32At_skip, u16At_word, u32At_word, h.name.size_eq, name]

theorem parse_of_size_le {data : Bytes} (h : size ≤ data.size) : ∃ header, parse data = .ok header :=
  ⟨_, checkRecord_bind_eq_ok.mpr ⟨h, rfl⟩⟩

theorem encode_of_parse {data : Bytes} {h : SectionHeader} (parsed : parse data = .ok h) :
    size ≤ data.size ∧ h.encode = data.take size := by
  obtain ⟨long, made⟩ := checkRecord_bind_eq_ok.mp parsed
  refine ⟨long, ?_⟩
  unfold size at long
  rw [← Except.ok.inj made, encode_eq]
  simp (disch := omega) only [Field.at_bytes, word_u16At, word_u32At]
  change _ = data.slice 0 (8 + (4 + (4 + (4 + (4 + (4 + (4 + (2 + (2 + 4)))))))))
  simp only [slice_add]

/-- The fields before the pointers. -/
def front (h : SectionHeader) : Bytes :=
  h.name.bytes ++ (word 4 h.virtualSize.toNat ++ (word 4 h.virtualAddress.toNat ++ word 4 h.rawSize.toNat))

/-- The fields after the pointers. -/
def back (h : SectionHeader) : Bytes :=
  word 2 h.relocationCount.toNat ++ (word 2 h.lineNumberCount.toNat ++ word 4 h.flags.bits.toNat)

theorem size_front (h : SectionHeader) : h.front.size = rawDataField := by
  simp [front, h.name.size_eq, rawDataField]

/-- The three pointers stand together, so that each can be filled in between what is before and after them. -/
theorem encode_eq_pointers (h : SectionHeader) : h.encode = h.front ++ (word 4 h.rawData.toNat ++
    (word 4 h.relocations.toNat ++ (word 4 h.lineNumbers.toNat ++ h.back))) := by
  simp only [encode_eq, front, back, ByteArray.append_assoc]

/-- Filling in a pointer of an encoded header is encoding the header with that pointer. -/
theorem overwrite_rawData (a c : Bytes) (h : SectionHeader) (n : Nat) :
    (a ++ (h.encode ++ c)).overwrite (a.size + rawDataField) (word 4 n) =
      a ++ ({ h with rawData := .ofNat n }.encode ++ c) := by
  have patched := overwrite_middle (a ++ h.front) (word 4 h.rawData.toNat)
    (word 4 h.relocations.toNat ++ (word 4 h.lineNumbers.toNat ++ (h.back ++ c))) (word 4 n) (by simp)
  simp only [ByteArray.append_assoc, ByteArray.size_append, size_front] at patched
  simp only [encode_eq_pointers, ByteArray.append_assoc, word_toNat_ofNat]
  exact patched

theorem overwrite_relocations (a c : Bytes) (h : SectionHeader) (n : Nat) :
    (a ++ (h.encode ++ c)).overwrite (a.size + relocationsField) (word 4 n) =
      a ++ ({ h with relocations := .ofNat n }.encode ++ c) := by
  have patched := overwrite_middle (a ++ (h.front ++ word 4 h.rawData.toNat)) (word 4 h.relocations.toNat)
    (word 4 h.lineNumbers.toNat ++ (h.back ++ c)) (word 4 n) (by simp)
  simp only [ByteArray.append_assoc, ByteArray.size_append, size_front, size_word] at patched
  simp only [encode_eq_pointers, ByteArray.append_assoc, word_toNat_ofNat]
  exact patched

theorem overwrite_lineNumbers (a c : Bytes) (h : SectionHeader) (n : Nat) :
    (a ++ (h.encode ++ c)).overwrite (a.size + lineNumbersField) (word 4 n) =
      a ++ ({ h with lineNumbers := .ofNat n }.encode ++ c) := by
  have patched := overwrite_middle
    (a ++ (h.front ++ (word 4 h.rawData.toNat ++ word 4 h.relocations.toNat)))
    (word 4 h.lineNumbers.toNat) (h.back ++ c) (word 4 n) (by simp)
  simp only [ByteArray.append_assoc, ByteArray.size_append, size_front, size_word] at patched
  simp only [encode_eq_pointers, ByteArray.append_assoc, word_toNat_ofNat]
  exact patched

end SectionHeader

namespace SymbolRecord

theorem encode_eq (r : SymbolRecord) : r.encode = r.name.bytes ++ (word 4 r.value.toNat ++
    (word 2 r.sectionNumber.toUInt16.toNat ++ (ofOctet r.type.base.code ++ (ofOctet r.type.complex.code ++
    (ofOctet r.storageClass.code ++ ofOctet r.auxCount))))) := by
  simp only [encode, pushTo, push_eq_append, push16_eq_append, push32_eq_append,
    ByteArray.empty_append, ByteArray.append_assoc]

@[simp] theorem size_encode (r : SymbolRecord) : r.encode.size = size := by
  simp [encode_eq, size, r.name.size_eq]

theorem parse_encode (r : SymbolRecord) (rest : Bytes) : parse (r.encode ++ rest) = .ok r := by
  have long : size ≤ (r.encode ++ rest).size := by simp
  have name (c : Bytes) : Field.at 8 (r.name.bytes ++ c) 0 = r.name := by
    simpa using Field.at_append .empty c r.name
  rw [parse, checkRecord_eq_ok _ _ _ long, encode_eq]
  simp only [bind, Except.bind, pure, Except.pure, ByteArray.append_assoc]
  simp [byteAt_skip, u16At_skip, u32At_skip, byteAt_octet, u16At_word, u32At_word, r.name.size_eq, name]

theorem parse_of_size_le {data : Bytes} (h : size ≤ data.size) : ∃ record, parse data = .ok record :=
  ⟨_, checkRecord_bind_eq_ok.mpr ⟨h, rfl⟩⟩

theorem encode_of_parse {data : Bytes} {r : SymbolRecord} (parsed : parse data = .ok r) :
    size ≤ data.size ∧ r.encode = data.take size := by
  obtain ⟨long, made⟩ := checkRecord_bind_eq_ok.mp parsed
  refine ⟨long, ?_⟩
  unfold size at long
  rw [← Except.ok.inj made, encode_eq]
  simp (disch := omega) only [Field.at_bytes, word_u16At, word_u32At, ofOctet_byteAt,
    UInt16.toUInt16_toInt16]
  change _ = data.slice 0 (8 + (4 + (2 + (1 + (1 + (1 + 1))))))
  simp only [slice_add]

end SymbolRecord

namespace RelocationRecord

theorem encode_eq (r : RelocationRecord) : r.encode =
    word 4 r.address.toNat ++ (word 4 r.symbolIndex.toNat ++ word 2 r.type.code.toNat) := by
  simp only [encode, pushTo, push16_eq_append, push32_eq_append, ByteArray.empty_append,
    ByteArray.append_assoc]

theorem pushTo_eq_append (r : RelocationRecord) (b : Bytes) : r.pushTo b = b ++ r.encode := by
  simp only [encode_eq, pushTo, push16_eq_append, push32_eq_append, ByteArray.append_assoc]

@[simp] theorem size_encode (r : RelocationRecord) : r.encode.size = size := by
  simp [encode_eq, size]

theorem parse_encode (r : RelocationRecord) (rest : Bytes) : parse (r.encode ++ rest) = .ok r := by
  have long : size ≤ (r.encode ++ rest).size := by simp
  rw [parse, checkRecord_eq_ok _ _ _ long, encode_eq]
  simp only [bind, Except.bind, pure, Except.pure, ByteArray.append_assoc]
  simp [u16At_skip, u32At_skip, u16At_word, u32At_word]

theorem parse_of_size_le {data : Bytes} (h : size ≤ data.size) : ∃ record, parse data = .ok record :=
  ⟨_, checkRecord_bind_eq_ok.mpr ⟨h, rfl⟩⟩

theorem encode_of_parse {data : Bytes} {r : RelocationRecord} (parsed : parse data = .ok r) :
    size ≤ data.size ∧ r.encode = data.take size := by
  obtain ⟨long, made⟩ := checkRecord_bind_eq_ok.mp parsed
  refine ⟨long, ?_⟩
  unfold size at long
  rw [← Except.ok.inj made, encode_eq]
  simp (disch := omega) only [word_u16At, word_u32At]
  change _ = data.slice 0 (4 + (4 + 2))
  simp only [slice_add]

end RelocationRecord

/-- How the records of a sort are written and read. -/
structure RecordFormat (α : Type) where
  size : Nat
  encode : α → Bytes
  parse : Bytes → Attempt α
  size_le : size ≤ SectionHeader.size
  size_encode : ∀ a, (encode a).size = size
  parse_encode : ∀ a rest, parse (encode a ++ rest) = .ok a
  parse_of_size_le : ∀ {data : Bytes}, size ≤ data.size → ∃ a, parse data = .ok a
  encode_of_parse : ∀ {data : Bytes} {a}, parse data = .ok a → size ≤ data.size ∧ encode a = data.take size

theorem RecordFormat.size_lt {α : Type} (format : RecordFormat α) : format.size < 2 ^ 63 :=
  Nat.lt_of_le_of_lt format.size_le (by decide)

def FileHeader.format : RecordFormat FileHeader :=
  ⟨size, encode, parse, by decide, size_encode, parse_encode, parse_of_size_le, encode_of_parse⟩

def SectionHeader.format : RecordFormat SectionHeader :=
  ⟨size, encode, parse, by decide, size_encode, parse_encode, parse_of_size_le, encode_of_parse⟩

def SymbolRecord.format : RecordFormat SymbolRecord :=
  ⟨size, encode, parse, by decide, size_encode, parse_encode, parse_of_size_le, encode_of_parse⟩

def RelocationRecord.format : RecordFormat RelocationRecord :=
  ⟨size, encode, parse, by decide, size_encode, parse_encode, parse_of_size_le, encode_of_parse⟩

/-- A record is parsed from just the data that start with its encoding. -/
private theorem RecordFormat.parse_eq_ok_iff {α : Type} (format : RecordFormat α) {data : Bytes} {a : α} :
    format.parse data = .ok a ↔ ∃ rest, data = format.encode a ++ rest := by
  constructor
  · intro parsed
    obtain ⟨long, front⟩ := format.encode_of_parse parsed
    exact ⟨data.drop format.size, by rw [front, take_append_drop data long]⟩
  · rintro ⟨rest, rfl⟩
    exact format.parse_encode a rest

/-- Records take `size` bytes each. Encoding and parsing undo each other, and parsing asks for that many
bytes and looks at no others. -/
structure MutuallyInverse {α : Type} (size : Nat) (encode : α → Bytes) (parse : Bytes → Attempt α) : Prop where
  size_encode : ∀ a, (encode a).size = size
  parse_encode : ∀ a rest, parse (encode a ++ rest) = .ok a
  parse_succeeds : ∀ data : Bytes, (∃ a, parse data = .ok a) ↔ size ≤ data.size
  parse_congr : ∀ data other : Bytes, data.take size = other.take size → parse data = parse other
  encode_parse : ∀ (data : Bytes) a, parse data = .ok a → encode a = data.take size

/-- What a format says about single records makes its two functions undo each other. -/
theorem RecordFormat.mutuallyInverse {α : Type} (format : RecordFormat α) :
    MutuallyInverse format.size format.encode format.parse where
  size_encode := format.size_encode
  parse_encode := format.parse_encode
  parse_succeeds data := ⟨fun ⟨_, parsed⟩ => (format.encode_of_parse parsed).1, format.parse_of_size_le⟩
  parse_congr data other same := by
    have sizes := congrArg ByteArray.size same
    rw [size_take, size_take] at sizes
    rcases Nat.lt_or_ge data.size format.size with short | long
    · -- then both are compared as a whole
      rw [take_of_size_le (by omega), take_of_size_le (by omega)] at same
      rw [same]
    · obtain ⟨a, parsed⟩ := format.parse_of_size_le long
      have front := (format.encode_of_parse parsed).2
      rw [parsed, eq_comm, format.parse_eq_ok_iff]
      exact ⟨other.drop format.size, by rw [front, same, take_append_drop other (by omega)]⟩
  encode_parse data a parsed := (format.encode_of_parse parsed).2

/-- The four sorts of records, with their sizes. -/
theorem records_mutuallyInverse :
    MutuallyInverse 20 FileHeader.encode FileHeader.parse ∧
    MutuallyInverse 40 SectionHeader.encode SectionHeader.parse ∧
    MutuallyInverse 18 SymbolRecord.encode SymbolRecord.parse ∧
    MutuallyInverse 10 RelocationRecord.encode RelocationRecord.parse :=
  ⟨FileHeader.format.mutuallyInverse, SectionHeader.format.mutuallyInverse,
    SymbolRecord.format.mutuallyInverse, RelocationRecord.format.mutuallyInverse⟩

end CoffWorks
