import CoffWorks.Proofs.Bytes.Cursor
import CoffWorks.Proofs.Record

namespace CoffWorks

open Bytes

/-- Reads that follow each other, each from where the one before it stopped. -/
abbrev Reading : Type → Type := StateT Cursor Attempt

namespace Reading

variable {α β : Type} {m : Reading α} {c d : Cursor} {a : α}

theorem bind_of_ok (first : m c = .ok (a, d)) (next : α → Reading β) : (m >>= next) c = next a d := by
  change (m c >>= fun r => next r.1 r.2) = _
  rw [first]
  rfl

private theorem run'_of_ok (h : m c = .ok (a, d)) : m.run' c = .ok a := by
  change Prod.fst <$> m c = _
  rw [h]
  rfl

end Reading

namespace Cursor

variable {data : Bytes} {pos : Nat} {inside : pos ≤ data.size}

private theorem byte_at (h : pos + 1 ≤ data.size) :
    byte ⟨data, pos, inside⟩ = .ok (data.byteAt pos, ⟨data, pos + 1, h⟩) := by
  have some : pos < data.size := h
  rw [byte, dif_pos some, byteAt, dif_pos some]
  rfl

private theorem u16_at (h : pos + 2 ≤ data.size) (small : pos + 2 < 2 ^ 63) :
    u16 ⟨data, pos, inside⟩ = .ok (data.u16At pos, ⟨data, pos + 2, h⟩) := by
  change (bytes _ (.ofNat 2) >>= _) = _
  rw [bytes_eq _ small, dif_pos h]
  simp [bind, Except.bind, pure, Except.pure, u16At, wordAt_slice]

private theorem i16_at (h : pos + 2 ≤ data.size) (small : pos + 2 < 2 ^ 63) :
    i16 ⟨data, pos, inside⟩ = .ok ((data.u16At pos).toInt16, ⟨data, pos + 2, h⟩) := by
  rw [i16, u16_at h small]
  rfl

private theorem u32_at (h : pos + 4 ≤ data.size) (small : pos + 4 < 2 ^ 63) :
    u32 ⟨data, pos, inside⟩ = .ok (data.u32At pos, ⟨data, pos + 4, h⟩) := by
  rw [u32_eq _ small, dif_pos h]

private theorem field8_at (h : pos + 8 ≤ data.size) (small : pos + 8 < 2 ^ 63) :
    field8 ⟨data, pos, inside⟩ = .ok (.at 8 data pos, ⟨data, pos + 8, h⟩) := by
  change (bytes _ (.ofNat 8) >>= _) = _
  rw [bytes_eq _ small, dif_pos h]
  rfl

end Cursor

/-- A record that is parsed at fixed places is the one that is read field after field from as many bytes as it
takes, and none of these reads fails. -/
theorem RecordFormat.parse_eq_reading {α : Type} (format : RecordFormat α) (fields : Reading α) {record : Bytes}
    {result : Bytes → α} (parse_eq : ∀ data, format.parse data =
      (checkRecord record format.size data >>= fun _ => .ok (result data)))
    (read : ∀ data : Bytes, data.size = format.size → ∃ c, fields (.start data) = .ok (result data, c)) (data : Bytes) :
    format.parse data =
      (checkRecord record format.size data >>= fun _ => fields.run' (.start (data.take format.size))) := by
  rcases Nat.lt_or_ge data.size format.size with short | long
  · rw [parse_eq, checkRecord, if_pos short]
    rfl
  · have cut : (data.take format.size).size = format.size := by rw [size_take, Nat.min_eq_left long]
    have same := format.mutuallyInverse.parse_congr (data.take format.size) data (take_of_size_le cut.le)
    obtain ⟨c, made⟩ := read _ cut
    rw [← same, parse_eq, checkRecord_eq_ok _ _ _ long, checkRecord_eq_ok _ _ _ cut.ge, Reading.run'_of_ok made]

namespace FileHeader

/-- The fields of a header in the order in which they stand. -/
def fields : Reading FileHeader := do
  let machine ← Cursor.u16
  let sections ← Cursor.u16
  let timestamp ← Cursor.u32
  let symbolTable ← Cursor.u32
  let symbols ← Cursor.u32
  let optionalHeader ← Cursor.u16
  let flags ← Cursor.u16
  return { machine := ⟨machine⟩, sections, timestamp, symbolTable, symbols, optionalHeader, flags := ⟨flags⟩ }

/-- A file header is what is read of its fields one by one. -/
theorem parse_eq_fields (data : Bytes) : parse data =
    (checkRecord "file header" size data >>= fun _ => fields.run' (.start (data.take size))) := by
  refine format.parse_eq_reading fields (fun _ => rfl) (fun data exactly => ?_) data
  change data.size = 20 at exactly
  unfold fields Cursor.start
  iterate 2 rw [Reading.bind_of_ok (Cursor.u16_at (by omega) (by decide))]
  iterate 3 rw [Reading.bind_of_ok (Cursor.u32_at (by omega) (by decide))]
  iterate 2 rw [Reading.bind_of_ok (Cursor.u16_at (by omega) (by decide))]
  exact ⟨_, rfl⟩

end FileHeader

namespace SectionHeader

def fields : Reading SectionHeader := do
  let name ← Cursor.field8
  let virtualSize ← Cursor.u32
  let virtualAddress ← Cursor.u32
  let rawSize ← Cursor.u32
  let rawData ← Cursor.u32
  let relocations ← Cursor.u32
  let lineNumbers ← Cursor.u32
  let relocationCount ← Cursor.u16
  let lineNumberCount ← Cursor.u16
  let flags ← Cursor.u32
  return { name, virtualSize, virtualAddress, rawSize, rawData, relocations, lineNumbers, relocationCount,
           lineNumberCount, flags := ⟨flags⟩ }

theorem parse_eq_fields (data : Bytes) : parse data =
    (checkRecord "section header" size data >>= fun _ => fields.run' (.start (data.take size))) := by
  refine format.parse_eq_reading fields (fun _ => rfl) (fun data exactly => ?_) data
  change data.size = 40 at exactly
  unfold fields Cursor.start
  rw [Reading.bind_of_ok (Cursor.field8_at (by omega) (by decide))]
  iterate 6 rw [Reading.bind_of_ok (Cursor.u32_at (by omega) (by decide))]
  iterate 2 rw [Reading.bind_of_ok (Cursor.u16_at (by omega) (by decide))]
  rw [Reading.bind_of_ok (Cursor.u32_at (by omega) (by decide))]
  exact ⟨_, rfl⟩

end SectionHeader

namespace SymbolRecord

def fields : Reading SymbolRecord := do
  let name ← Cursor.field8
  let value ← Cursor.u32
  let sectionNumber ← Cursor.i16
  let base ← Cursor.byte
  let complex ← Cursor.byte
  let storageClass ← Cursor.byte
  let auxCount ← Cursor.byte
  return { name, value, sectionNumber, type := { base := ⟨base⟩, complex := ⟨complex⟩ },
           storageClass := ⟨storageClass⟩, auxCount }

theorem parse_eq_fields (data : Bytes) : parse data =
    (checkRecord "symbol record" size data >>= fun _ => fields.run' (.start (data.take size))) := by
  refine format.parse_eq_reading fields (fun _ => rfl) (fun data exactly => ?_) data
  change data.size = 18 at exactly
  unfold fields Cursor.start
  rw [Reading.bind_of_ok (Cursor.field8_at (by omega) (by decide)),
    Reading.bind_of_ok (Cursor.u32_at (by omega) (by decide)),
    Reading.bind_of_ok (Cursor.i16_at (by omega) (by decide))]
  iterate 4 rw [Reading.bind_of_ok (Cursor.byte_at (by omega))]
  exact ⟨_, rfl⟩

end SymbolRecord

namespace RelocationRecord

def fields : Reading RelocationRecord := do
  let address ← Cursor.u32
  let symbolIndex ← Cursor.u32
  let type ← Cursor.u16
  return { address, symbolIndex, type := ⟨type⟩ }

theorem parse_eq_fields (data : Bytes) : parse data =
    (checkRecord "relocation" size data >>= fun _ => fields.run' (.start (data.take size))) := by
  refine format.parse_eq_reading fields (fun _ => rfl) (fun data exactly => ?_) data
  change data.size = 10 at exactly
  unfold fields Cursor.start
  iterate 2 rw [Reading.bind_of_ok (Cursor.u32_at (by omega) (by decide))]
  rw [Reading.bind_of_ok (Cursor.u16_at (by omega) (by decide))]
  exact ⟨_, rfl⟩

end RelocationRecord

end CoffWorks
