import CoffWorks.Proofs.Image.Reading

namespace CoffWorks

open Bytes

namespace Image

/-- What can be missing when the reader stands at `position`: bytes of a record, the target of a pointer,
or texts of the string table. -/
inductive Missing (data : Bytes) (position : Nat) : Failure → Prop
  | record (short : data.size < position + SectionHeader.size) :
      Missing data position (.within ("at position " ++ Text.decimal position) .unexpectedEnd)
  | target {pos : Nat} (beyond : data.size < pos) :
      Missing data position (.within ("at position " ++ Text.decimal position)
        (.plain ("seek to " ++ Text.signed pos ++ " beyond " ++ Text.decimal data.size ++ " bytes")))
  | strings {size : Nat} (short : data.size < position + size) :
      Missing data position (.fault (.shortRead ["string table", "blob"] size (data.size - position : Nat)))

/-- Reading stopped within the file, where something is missing. -/
def Stops (data : Bytes) (e : Failure) : Prop :=
  ∃ record position cause, e = .parsing record position cause ∧ position ≤ data.size ∧
    Missing data position cause

open Attempt

variable {data : Bytes} {c : Cursor} {record : Unit → Bytes}

private theorem seekTo_fails {pos : Nat} (hd : c.data = data) (hp : pos < 2 ^ 63) :
    Fails (Stops data) (seekTo c record pos) := by
  subst hd
  intro e he
  rw [seekTo_eq hp] at he
  split_ifs at he with inside
  cases he
  exact ⟨_, c.pos, _, rfl, c.pos_le, .target (Nat.not_le.mp inside)⟩

/-- If the length was read and that many bytes follow, the whole table is there. -/
private theorem read_of_u32 {d : Cursor} {size : UInt32} (read : c.u32 = .ok (size, d))
    (fits : size.toNat ≤ d.remaining) : ∃ t, StringTable.read { data := d.data.drop c.pos } = .ok t := by
  obtain ⟨part, four, rfl, passes⟩ := Cursor.passes_of_u32 read
  have more : d.remaining + 4 = c.data.size - c.pos := four ▸ passes.remaining_eq
  have length : (d.data.drop c.pos).u32At 0 = c.data.u32At c.pos := by
    rw [passes.data_eq, drop, u32At_slice _ _ (by omega)]
  refine ⟨_, StringTable.read_eq_ok.mpr ⟨?_, rfl⟩⟩
  rw [length, passes.data_eq, drop, size_slice, Nat.min_self]
  omega

section Readers

-- so that no position in the file overflows, nor one that is a record further on
variable (small : data.size + SectionHeader.size < 2 ^ 63)
include small

private theorem recordBytes_fails {size : Nat} (hd : c.data = data) (hs : size ≤ SectionHeader.size) :
    Fails (Stops data) (recordBytes c record size) := by
  subst hd
  have le := c.pos_le
  intro e he
  rw [recordBytes_eq (by omega)] at he
  split_ifs at he with inside
  cases he
  exact ⟨_, c.pos, _, rfl, le, .record (by omega)⟩

/-- Once its bytes are there, a record can be parsed, so that only the rest of a reader may fail. -/
theorem readRecord_fails {α β : Type} (format : RecordFormat α) {rest : Bytes × Cursor → Attempt β}
    (hd : c.data = data) (hr : ∀ raw a d, format.parse raw = .ok a → c.Passes (format.encode a) d →
      d.data = data → Fails (Stops data) (rest (raw, d))) :
    Fails (Stops data) (recordBytes c record format.size >>= rest) := by
  refine (recordBytes_fails small hd format.size_le).bind ?_
  rintro ⟨raw, d⟩ read
  obtain ⟨a, parsed⟩ := parse_of_recordBytes format read
  have passes := passes_of_parse format read parsed
  exact hr raw a d parsed passes (passes.data_eq.trans hd)

theorem readRecords_fails {α : Type} (format : RecordFormat α) (label : Nat → Bytes) {n i : Nat}
    {acc : Array α} (hd : c.data = data) : Fails (Stops data) (readRecords format label n i acc c) := by
  induction n generalizing i acc c with
  | zero => exact .of_ok rfl
  | succ n ih =>
    refine readRecord_fails small format hd ?_
    intro raw a d parsed _ there
    exact .bind_ok parsed (ih there)

private theorem readAllRelocations_fails {i : Nat} {acc : Array (Array RelocationRecord)} {hs : List SectionHeader}
    (hd : c.data = data) : Fails (Stops data) (readAllRelocations i acc c hs) := by
  induction hs generalizing i acc c with
  | nil => exact .of_ok rfl
  | cons h rest ih =>
    rw [readAllRelocations]
    split_ifs
    · exact ih hd
    · have pointer : h.relocations.toNat < 2 ^ 63 := Nat.lt_trans h.relocations.toNat_lt (by decide)
      refine (seekTo_fails hd pointer).bind ?_
      intro d sought
      have there : d.data = data := (of_seekTo pointer sought).1.trans hd
      rw [readRelocations_eq]
      refine (readRecords_fails small RelocationRecord.format _ there).bind ?_
      rintro ⟨records, e⟩ read
      obtain ⟨l, -, -, passes⟩ := of_readRecords read
      exact ih (passes.data_eq.trans there)

private theorem readAux_fails {slot : UInt32} {n k : Nat} (hd : c.data = data) :
    Fails (Stops data) (readAux slot n k c) := by
  induction n generalizing k c with
  | zero => exact .of_ok rfl
  | succ n ih =>
    refine (recordBytes_fails small hd (by decide)).bind ?_
    rintro ⟨raw, d⟩ read
    have passes := (passes_of_recordBytes (by decide) read).2
    refine (ih (passes.data_eq.trans hd)).bind ?_
    intro rest _
    exact .of_ok rfl

private theorem readSymbol_fails {slot : UInt32} (hd : c.data = data) : Fails (Stops data) (readSymbol slot c) := by
  refine readRecord_fails small SymbolRecord.format hd ?_
  intro raw record d parsed _ there
  refine .bind_ok parsed ((readAux_fails small there).bind ?_)
  intro aux _
  exact .of_ok rfl

private theorem readSymbols_fails {count slot : UInt32} {acc : Array SymbolEntry} (hd : c.data = data) :
    Fails (Stops data) (readSymbols count slot acc c) := by
  fun_induction readSymbols count slot acc c with
  | case1 slot acc c go e failed =>
    intro e' he
    cases he
    exact readSymbol_fails small hd e failed
  | case2 slot acc c go entry d read ih => exact ih ((of_readSymbol read).2.2.data_eq.trans hd)
  | case3 slot acc c stop => exact .of_ok rfl

private theorem readStrings_fails (hd : c.data = data) : Fails (Stops data) (readStrings c) := by
  subst hd
  have le := c.pos_le
  have forty : SectionHeader.size = 40 := rfl
  refine Fails.bind (x := c.reading _ c.u32) ?_ ?_
  · intro e he
    rw [Cursor.u32_eq c (by omega)] at he
    split_ifs at he with inside
    · cases he
    · cases he
      exact ⟨_, c.pos, _, rfl, le, .record (by omega)⟩
  · rintro ⟨size, d⟩ length
    have read := Cursor.reading_eq_ok.mp length
    obtain ⟨part, -, -, passes⟩ := Cursor.passes_of_u32 read
    dsimp only
    split_ifs with short
    · intro e he
      cases he
      rw [Cursor.remaining] at short
      rw [← passes.data_eq]
      exact ⟨_, d.pos, _, rfl, d.pos_le, .strings (by omega)⟩
    · obtain ⟨t, stored⟩ := read_of_u32 read (Nat.not_lt.mp short)
      exact .of_ok (Cursor.reading_eq_ok.mpr stored)

/-- Every reader stops within the file, and so does all of them together. -/
theorem inspect_fails : Fails (Stops data) (inspect data) := by
  refine readRecord_fails (c := .start data) small FileHeader.format rfl ?_
  intro raw header c₁ parsed first there
  have directory : c₁.pos + header.optionalHeader.toNat < 2 ^ 63 := by
    have few := header.optionalHeader.toNat_lt
    have start : c₁.pos = 0 + 20 := first.pos_eq.trans (by rw [FileHeader.format.size_encode]; rfl)
    omega
  have table : header.symbolTable.toNat < 2 ^ 63 := Nat.lt_trans header.symbolTable.toNat_lt (by decide)
  refine .bind_ok parsed ((seekTo_fails there directory).bind ?_)
  intro c₂ sought
  replace there := (of_seekTo directory sought).1.trans there
  rw [readSections_eq]
  refine (readRecords_fails small SectionHeader.format _ there).bind ?_
  rintro ⟨sections, c₃⟩ read
  obtain ⟨hs, -, -, passes⟩ := of_readRecords read
  replace there := passes.data_eq.trans there
  refine (readAllRelocations_fails small there).bind ?_
  rintro ⟨relocations, c₄⟩ read
  replace there := (of_readAllRelocations read).1.trans there
  dsimp only
  split_ifs
  · exact .of_ok rfl
  · refine (seekTo_fails there table).bind ?_
    intro c₅ sought
    replace there := (of_seekTo table sought).1.trans there
    refine (readSymbols_fails small there).bind ?_
    rintro ⟨symbols, c₆⟩ read
    obtain ⟨es, -, passes, -⟩ := of_readSymbols read
    refine (readStrings_fails small (passes.data_eq.trans there)).bind ?_
    intro strings _
    exact .of_ok rfl

end Readers

/-- No record that is read of `data` is too short to be parsed, and no string table is too short for its
length. -/
structure ParsesWhole (data : Bytes) : Prop where
  fileHeader : ∀ c c' record raw, c.data = data →
    recordBytes c record FileHeader.size = .ok (raw, c') → ∃ h, FileHeader.parse raw = .ok h
  sectionHeader : ∀ c c' record raw, c.data = data →
    recordBytes c record SectionHeader.size = .ok (raw, c') → ∃ h, SectionHeader.parse raw = .ok h
  relocation : ∀ c c' record raw, c.data = data →
    recordBytes c record RelocationRecord.size = .ok (raw, c') → ∃ r, RelocationRecord.parse raw = .ok r
  symbol : ∀ c c' record raw, c.data = data →
    recordBytes c record SymbolRecord.size = .ok (raw, c') → ∃ r, SymbolRecord.parse raw = .ok r
  strings : ∀ (c c' : Cursor) (size : UInt32), c.data = data → c.u32 = .ok (size, c') →
    size.toNat ≤ c'.remaining → ∃ t, StringTable.read { data := data.drop c.pos } = .ok t

theorem parsesWhole (data : Bytes) : ParsesWhole data where
  fileHeader _ _ _ _ _ read := parse_of_recordBytes FileHeader.format read
  sectionHeader _ _ _ _ _ read := parse_of_recordBytes SectionHeader.format read
  relocation _ _ _ _ _ read := parse_of_recordBytes RelocationRecord.format read
  symbol _ _ _ _ _ read := parse_of_recordBytes SymbolRecord.format read
  strings := by
    rintro c c' size rfl read fits
    obtain ⟨part, -, -, passes⟩ := Cursor.passes_of_u32 read
    rw [← passes.data_eq]
    exact read_of_u32 read fits

/-- Section data is had if its range lies within the file. -/
theorem sectionData_eq_ok {img : Image} {i : Int} {b : Bytes} : img.sectionData data i = .ok b ↔
    ∃ h, img.section? i = some h ∧ h.rawData.toNat + h.rawSize.toNat ≤ data.size ∧
      data.slice h.rawData.toNat h.rawSize.toNat = b := by
  unfold sectionData
  cases img.section? i with
  | none => simp
  | some h =>
    have pointer := h.rawData.toNat_lt
    have count := h.rawSize.toNat_lt
    simp only [Attempt.bind_eq_ok, Prod.exists, Option.some.injEq, exists_eq_left']
    constructor
    · rintro ⟨c, sought, raw, d, read, made⟩
      cases made
      obtain ⟨same, pos⟩ := of_seekTo (by omega) sought
      obtain ⟨size, passes⟩ := passes_of_recordBytes (by omega) read
      have inside := d.pos_le
      have part := passes.part_eq
      rw [passes.data_eq, passes.pos_eq, size, same, pos] at inside
      rw [size, same, pos] at part
      exact ⟨inside, part.symm⟩
    · rintro ⟨fits, rfl⟩
      have reach : h.rawData.toNat ≤ data.size := by omega
      refine ⟨⟨data, h.rawData.toNat, reach⟩, ?_, _, ⟨data, h.rawData.toNat + h.rawSize.toNat, fits⟩, ?_, rfl⟩
      · rw [seekTo_eq (by omega)]
        exact dif_pos reach
      · rw [recordBytes_eq (by dsimp only; omega)]
        exact dif_pos fits

private theorem sectionData_fails (img : Image) (i : Int) : Fails (· ≠ .trap) (img.sectionData data i) := by
  unfold sectionData
  cases img.section? i with
  | none =>
    rintro e he rfl
    cases he
  | some h =>
    have pointer := h.rawData.toNat_lt
    have count := h.rawSize.toNat_lt
    refine Fails.bind (x := seekTo (.start data) _ h.rawData.toNat) ?_ ?_
    · rintro e he rfl
      obtain ⟨_, _, _, impossible, -⟩ := seekTo_fails rfl (by omega) _ he
      cases impossible
    · intro c sought
      obtain ⟨same, pos⟩ := of_seekTo (by omega) sought
      refine Fails.bind (x := recordBytes c _ h.rawSize.toNat) ?_ fun _ _ => .of_ok rfl
      rintro e he rfl
      rw [recordBytes_eq (by omega)] at he
      split_ifs at he
      cases he

/-- A file that a careless or hostile hand has made: the symbol table and the string table lie in the section
header, the first relocation in the file header, and the one symbol that is announced takes two slots. -/
def knotted : Bytes :=
  { machine := ⟨0x14c⟩, sections := 1, symbolTable := 20, symbols := 1 : FileHeader }.encode ++
    { name := .pad 8 "a", rawSize := 256, relocationCount := 1 : SectionHeader }.encode

/-- Reading ends with an image, or at a position within the file where something is missing, and never by
an access outside of it. Section data is had exactly if it lies within the file. -/
theorem inspect_safe (data : Bytes) (small : data.size + SectionHeader.size < 2 ^ 63) :
    ((∃ img, inspect data = .ok img) ∨ ∃ record position cause,
      inspect data = .error (.parsing record position cause) ∧ position ≤ data.size ∧
        Missing data position cause) ∧
    ParsesWhole data ∧
    ∀ (img : Image) (i : Int), inspect data = .ok img →
      (∀ b, img.sectionData data i = .ok b ↔ ∃ h, 0 ≤ i ∧ img.sections[i.toNat]? = some h ∧
        h.rawData.toNat + h.rawSize.toNat ≤ data.size ∧ data.slice h.rawData.toNat h.rawSize.toNat = b) ∧
      img.sectionData data i ≠ .error .trap := by
  refine ⟨?_, parsesWhole data, ?_⟩
  · cases result : inspect data with
    | ok img => exact .inl ⟨img, rfl⟩
    | error e =>
      obtain ⟨record, position, cause, rfl, inside, missing⟩ := inspect_fails small e result
      exact .inr ⟨record, position, cause, rfl, inside, missing⟩
  · intro img i _
    refine ⟨?_, fun trapped => sectionData_fails img i _ trapped rfl⟩
    intro b
    rw [sectionData_eq_ok]
    simp only [section?, Option.ite_none_right_eq_some, and_assoc]

/-- The knotted file is read, and its one section points beyond it. Without its last byte it is refused. -/
theorem inspect_knotted_safe :
    (∃ img, inspect knotted = .ok img ∧ ∀ b, img.sectionData knotted 0 ≠ .ok b) ∧
    ∃ record position cause, inspect (knotted.take 59) = .error (.parsing record position cause) ∧
      position ≤ 59 ∧ Missing (knotted.take 59) position cause := by
  obtain ⟨-, -, data⟩ := inspect_safe knotted (by decide +kernel)
  obtain ⟨result, -, -⟩ := inspect_safe (knotted.take 59) (by decide +kernel)
  have read : (inspect knotted).map (fun img => img.sections[0]?.map (·.rawSize)) = .ok (some 256) := by
    decide +kernel
  have cut : (inspect (knotted.take 59)).isOk = false := by decide +kernel
  have whole : knotted.size = 60 := by decide +kernel
  refine ⟨?_, ?_⟩
  · obtain ⟨img, known, size⟩ := Attempt.map_eq_ok.mp read
    refine ⟨img, known, ?_⟩
    intro b found
    obtain ⟨h, -, head, fits, -⟩ := ((data img 0 known).1 b).mp found
    have large : h.rawSize = 256 := by
      rw [Int.toNat_zero] at head
      simpa [head] using size
    have many : (256 : UInt32).toNat = 256 := rfl
    rw [large, many, whole] at fits
    omega
  · rcases result with ⟨img, known⟩ | ⟨record, position, cause, failed, inside, missing⟩
    · rw [known] at cut
      cases cut
    · rw [size_take, whole] at inside
      exact ⟨record, position, cause, failed, inside, missing⟩

end Image

end CoffWorks
