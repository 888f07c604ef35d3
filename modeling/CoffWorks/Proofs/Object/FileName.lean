import CoffWorks.Proofs.Bytes.Append
import CoffWorks.Object.FileName

namespace CoffWorks.FileName

theorem text_ofBytes {b : Bytes} (h : b.size ≤ auxSize) : (ofBytes b).text = b := by
  rw [text, ofBytes, Field.pad_bytes 18 b h, Bytes.take_append]

theorem single_eq_ok {name : Bytes} {piece : FileName} :
    single name = .ok piece ↔ name.size ≤ auxSize ∧ Text.isValid name ∧ ofBytes name = piece := by
  unfold single
  split_ifs with long valid
  · simp [reject, Nat.not_le.mpr long]
  · simp [Nat.not_lt.mp long, valid]
  · simp [reject, valid]

/-- A name is cut every eighteen bytes, if it is a text and not too long. -/
theorem records_eq_ok {name : Bytes} {pieces : List FileName} :
    records name = .ok pieces ↔ Text.isValid name ∧ recordCount name.size ≤ maxAux ∧
      ((List.range (recordCount name.size)).map fun i => ofBytes (name.slice (i * auxSize) auxSize)) = pieces := by
  unfold records
  split_ifs with valid many
  · simp only [reject, reduceCtorEq, false_iff]
    exact fun h => Nat.not_le.mpr many h.2.1
  · simp [valid, Nat.not_lt.mp many]
  · simp [reject, valid]

theorem recordCount_eq (size : Nat) : recordCount size = max 1 (size ⌈/⌉ 18) := by
  rw [recordCount, Nat.ceilDiv_eq_add_pred_div]
  rfl

private theorem recordCount_le_maxAux {size : Nat} : recordCount size ≤ maxAux ↔ size ≤ 4590 := by
  have record : auxSize = 18 := rfl
  rw [recordCount, record, maxAux]
  omega

/-- The names that can be cut. -/
theorem exists_records {name : Bytes} : (∃ pieces, records name = .ok pieces) ↔
    Text.isValid name ∧ name.size ≤ 4590 := by
  simp only [records_eq_ok, recordCount_le_maxAux, ← and_assoc]
  exact ⟨fun ⟨_, fits, _⟩ => fits, fun fits => ⟨_, fits, rfl⟩⟩

theorem length_records {name : Bytes} {pieces : List FileName} (h : records name = .ok pieces) :
    pieces.length = max 1 (name.size ⌈/⌉ 18) := by
  obtain ⟨-, -, rfl⟩ := records_eq_ok.mp h
  rw [List.length_map, List.length_range, recordCount_eq]

/-- A piece that is a text by itself is cut no further. -/
theorem records_text {name : Bytes} {piece : FileName} (h : single name = .ok piece) :
    records piece.text = .ok [piece] := by
  obtain ⟨short, valid, rfl⟩ := single_eq_ok.mp h
  have one : recordCount name.size = 1 := by
    have size : auxSize = 18 := rfl
    rw [size] at short
    rw [recordCount, size]
    omega
  rw [text_ofBytes short, records_eq_ok, one]
  refine ⟨valid, by decide, ?_⟩
  rw [List.range_one, List.map_singleton, Nat.zero_mul]
  exact congrArg (fun b => [ofBytes b]) (Bytes.take_of_size_le short)

/-- The cuts, every 18 bytes, do not go through a character. -/
def CutsClean (name : Bytes) : Prop := ∀ i, Text.isValid (name.slice (i * auxSize) auxSize)

theorem size_slice_le (name : Bytes) (pos : Nat) : (name.slice pos auxSize).size ≤ auxSize := by
  rw [Bytes.size_slice]
  exact Nat.min_le_left ..

/-- A name is cut between characters if all its pieces are texts. -/
theorem cutsClean_iff {name : Bytes} {pieces : List FileName} (h : records name = .ok pieces) :
    CutsClean name ↔ ∀ piece ∈ pieces, Text.isValid piece.text := by
  obtain ⟨-, -, rfl⟩ := records_eq_ok.mp h
  simp only [List.forall_mem_map, List.mem_range, text_ofBytes (size_slice_le name _)]
  refine ⟨fun clean i _ => clean i, fun valid i => ?_⟩
  by_cases inside : i < recordCount name.size
  · exact valid i inside
  · -- nothing is left after the last record
    have behind : ¬ i * auxSize < name.size := by
      have size : auxSize = 18 := rfl
      rw [recordCount, size] at inside
      rw [size]
      omega
    rw [Bytes.slice, if_neg behind]
    decide +kernel

/-- The piece is a record of some name. -/
def Made (piece : FileName) : Prop := ∃ name pieces, records name = .ok pieces ∧ piece ∈ pieces

theorem made_of_single (name : Bytes) {piece : FileName} (h : single name = .ok piece) : piece.Made :=
  ⟨_, _, records_text h, List.mem_singleton_self piece⟩

/-- A record is the only one of what it says, if that is a text. -/
theorem Made.records_text {piece : FileName} (h : piece.Made) (valid : Text.isValid piece.text) :
    records piece.text = .ok [piece] := by
  obtain ⟨name, pieces, cut, mem⟩ := h
  obtain ⟨-, -, rfl⟩ := records_eq_ok.mp cut
  obtain ⟨i, -, rfl⟩ := List.mem_map.mp mem
  rw [text_ofBytes (size_slice_le name _)] at valid
  exact FileName.records_text (single_eq_ok.mpr ⟨size_slice_le name _, valid, rfl⟩)

end CoffWorks.FileName
