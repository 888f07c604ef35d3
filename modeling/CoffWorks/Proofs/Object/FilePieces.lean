import CoffWorks.Proofs.Object.FileName
import CoffWorks.Proofs.Object.Making

namespace CoffWorks

open Bytes

namespace FileName

/-- The piece with the number `i`. -/
def piece (name : Bytes) (i : Nat) : FileName := ofBytes (name.slice (i * auxSize) auxSize)

private theorem text_piece (name : Bytes) (i : Nat) : (piece name i).text = name.slice (i * auxSize) auxSize :=
  text_ofBytes (size_slice_le name _)

private theorem field_piece (name : Bytes) (i : Nat) : (piece name i).field.bytes =
    name.slice (i * auxSize) auxSize ++ zeros (18 - (name.slice (i * auxSize) auxSize).size) :=
  Field.pad_bytes 18 _ (size_slice_le name _)

/-- The bytes that the records before the last one hold, and that the last one reaches. -/
private theorem recordCount_bounds (size : Nat) : ∃ last, recordCount size = last + 1 ∧ last * 18 ≤ size ∧
    size ≤ (last + 1) * 18 ∧ (size ≠ 0 → last * 18 < size) := by
  have record : auxSize = 18 := rfl
  refine ⟨recordCount size - 1, ?_⟩
  rw [recordCount, record]
  omega

/-- The records of a name: the full ones, and the last. -/
theorem exists_last {name : Bytes} {pieces : List FileName} (h : records name = .ok pieces) : ∃ last,
    pieces = (List.range last).map (piece name) ++ [piece name last] ∧ last * 18 ≤ name.size ∧
      name.size ≤ (last + 1) * 18 ∧ (name.size ≠ 0 → last * 18 < name.size) := by
  obtain ⟨-, -, rfl⟩ := records_eq_ok.mp h
  obtain ⟨last, count, bounds⟩ := recordCount_bounds name.size
  refine ⟨last, ?_, bounds⟩
  rw [count, List.range_succ, List.map_append, List.map_singleton]
  rfl

private theorem size_slice_of_lt {name : Bytes} {last i : Nat} (inside : last * 18 ≤ name.size) (hi : i < last) :
    (name.slice (i * auxSize) auxSize).size = 18 := by
  have record : auxSize = 18 := rfl
  rw [size_slice, record]
  omega

/-- The pieces put together are the name. -/
theorem concat_texts {name : Bytes} {pieces : List FileName} (h : records name = .ok pieces) :
    concat (pieces.map text) = name := by
  obtain ⟨-, -, rfl⟩ := records_eq_ok.mp h
  obtain ⟨last, count, -, reach, -⟩ := recordCount_bounds name.size
  have texts : ((List.range (last + 1)).map (piece name)).map text =
      (List.range (last + 1)).map fun i => name.slice (i * 18) 18 := by
    rw [List.map_map]
    apply List.map_congr_left
    intro i _
    exact text_piece name i
  change concat (((List.range (recordCount name.size)).map (piece name)).map text) = name
  rw [count, texts, concat_slices, take_of_size_le reach]

/-- The records before the last one have no room for zeros. -/
private theorem concat_full {name : Bytes} {last : Nat} (inside : last * 18 ≤ name.size) :
    concat (((List.range last).map (piece name)).map (·.field.bytes)) = name.take (last * 18) := by
  have full : ((List.range last).map (piece name)).map (·.field.bytes) =
      (List.range last).map fun i => name.slice (i * 18) 18 := by
    rw [List.map_map]
    apply List.map_congr_left
    intro i hi
    rw [Function.comp_apply, field_piece, size_slice_of_lt inside (List.mem_range.mp hi), Nat.sub_self]
    exact ByteArray.append_empty
  rw [full, concat_slices]

/-- The records hold the name and the zeros that fill the last one. -/
theorem concat_fields {name : Bytes} {pieces : List FileName} (h : records name = .ok pieces) :
    ∃ n, concat (pieces.map (·.field.bytes)) = name ++ zeros n ∧ if name.size = 0 then n = 18 else n < 18 := by
  obtain ⟨last, parts, inside, reach, some_byte⟩ := exists_last h
  have record : auxSize = 18 := rfl
  have rest : (name.slice (last * 18) 18).size = name.size - last * 18 := by
    rw [size_slice]
    omega
  have whole : name.take (last * 18) ++ name.slice (last * 18) 18 = name := by
    have both := slice_add name 0 (last * 18) 18
    rw [Nat.zero_add, ← Nat.succ_mul] at both
    rw [take, ← both]
    exact take_of_size_le reach
  refine ⟨18 - (name.size - last * 18), ?_, ?_⟩
  · rw [parts, List.map_append, concat_append, concat_full inside, List.map_singleton, concat_cons, concat_nil,
      ByteArray.append_empty, field_piece, record, rest, ← ByteArray.append_assoc, whole]
  · split_ifs with none
    · omega
    · have nonempty := some_byte none
      omega

/-- The records of a name hold it, and nothing else but zeros. -/
structure Cut (name : Bytes) (pieces : List FileName) : Prop where
  count_eq : pieces.length = max 1 (name.size ⌈/⌉ 18)
  full : ∀ piece ∈ pieces.dropLast, piece.text.size = 18
  texts_eq : concat (pieces.map text) = name
  fields_eq : ∃ n, concat (pieces.map (·.field.bytes)) = name ++ zeros n ∧
    if name.size = 0 then n = 18 else n < 18
  accepted : ∀ (spec : SymbolSpec) (p : Pool), ∃ id q,
    Making.newSymbol { spec with aux := pieces.map fun piece => some (.fileName piece) } p = .ok (id, q) ∧
      (q.getSymbol id).aux = pieces.map .fileName
  single_eq : name.size ≤ 18 → ∃ piece, pieces = [piece] ∧ single name = .ok piece

theorem cut_of_records {name : Bytes} {pieces : List FileName} (h : records name = .ok pieces) : Cut name pieces := by
  obtain ⟨valid, few, -⟩ := records_eq_ok.mp h
  refine ⟨length_records h, ?_, concat_texts h, concat_fields h, ?_, ?_⟩
  · obtain ⟨last, parts, inside, -⟩ := exists_last h
    rw [parts, List.dropLast_concat]
    intro piece mem
    obtain ⟨i, hi, rfl⟩ := List.mem_map.mp mem
    rw [text_piece, size_slice_of_lt inside (List.mem_range.mp hi)]
  · intro spec p
    apply Making.exists_newSymbol
    · rw [List.map_map]
      rfl
    · rwa [List.length_map, length_records h, ← recordCount_eq]
  · intro short
    have one := single_eq_ok.mpr ⟨short, valid, rfl⟩
    have cut := records_text one
    rw [text_ofBytes short, h] at cut
    exact ⟨ofBytes name, Except.ok.inj cut, one⟩

/-- A name can be cut into records exactly if it is a text of at most 4590 bytes, and nothing of it is lost. -/
theorem records_lossless (name : Bytes) :
    ((∃ pieces, records name = .ok pieces) ↔ Text.isValid name ∧ name.size ≤ 4590) ∧
      ∀ pieces, records name = .ok pieces → Cut name pieces :=
  ⟨exists_records, fun _ h => cut_of_records h⟩

/-- The second piece of this name starts inside a character. -/
theorem records_lossless_split : ∃ pieces, records "aaaaaaaaaaaaaaaaaé".toUTF8 = .ok pieces ∧
    Cut "aaaaaaaaaaaaaaaaaé".toUTF8 pieces ∧ pieces.length = 2 := by
  obtain ⟨accepted, cut⟩ := records_lossless "aaaaaaaaaaaaaaaaaé".toUTF8
  obtain ⟨pieces, made⟩ := accepted.mpr (by decide +kernel)
  refine ⟨pieces, made, cut pieces made, ?_⟩
  rw [(cut pieces made).count_eq]
  decide

end FileName

end CoffWorks
