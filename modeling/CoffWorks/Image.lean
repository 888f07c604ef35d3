import CoffWorks.Record

namespace CoffWorks

/-- A symbol record, its slot in the symbol table, and the auxiliary records that follow it. -/
structure SymbolEntry where
  record : SymbolRecord
  index : UInt32
  aux : List (Field 18)
deriving DecidableEq

/-- The records of an encoded file. -/
structure Image where
  header : FileHeader
  sections : Array SectionHeader
  relocations : Array (Array RelocationRecord)
  symbols : Array SymbolEntry
  strings : StringTable
deriving DecidableEq

namespace Image

/-- The next `size` bytes, which are those of a record. -/
def recordBytes (c : Cursor) (record : Unit → Bytes) (size : Nat) : Attempt (Bytes × Cursor) :=
  c.reading record (c.bytes (.ofNat size))

/-- Move to where a record's pointer says. -/
def seekTo (c : Cursor) (record : Unit → Bytes) (pos : Nat) : Attempt Cursor :=
  c.reading record (c.seek (.ofNat pos))

/-- `n` section headers, the first of which is number `i`. -/
def readSections : Nat → Nat → Array SectionHeader → Cursor → Attempt (Array SectionHeader × Cursor)
  | 0, _, acc, c => .ok (acc, c)
  | n + 1, i, acc, c => do
    let (raw, c) ← recordBytes c (fun _ => "section header " ++ Text.decimal i) SectionHeader.size
    let header ← SectionHeader.parse raw
    readSections n (i + 1) (acc.push header) c

/-- `n` relocations of section number `i`, the first of which is number `j`. -/
def readRelocations (i : Nat) :
    Nat → Nat → Array RelocationRecord → Cursor → Attempt (Array RelocationRecord × Cursor)
  | 0, _, acc, c => .ok (acc, c)
  | n + 1, j, acc, c => do
    let (raw, c) ← recordBytes c
      (fun _ => "relocation " ++ Text.decimal j ++ " of section " ++ Text.decimal i) RelocationRecord.size
    let record ← RelocationRecord.parse raw
    readRelocations i n (j + 1) (acc.push record) c

/-- The relocations of the sections from number `i` on. -/
def readAllRelocations : Nat → Array (Array RelocationRecord) → Cursor → List SectionHeader →
    Attempt (Array (Array RelocationRecord) × Cursor)
  | _, acc, c, [] => .ok (acc, c)
  | i, acc, c, h :: rest => do
    if h.relocationCount = 0 then readAllRelocations (i + 1) (acc.push #[]) c rest
    else
      let c ← seekTo c (fun _ => "relocations of section " ++ Text.decimal i) h.relocations.toNat
      let (records, c) ← readRelocations i h.relocationCount.toNat 0 #[] c
      readAllRelocations (i + 1) (acc.push records) c rest

/-- `n` auxiliary records of the symbol in slot `slot`, the first of which is number `k`. -/
def readAux (slot : UInt32) : Nat → Nat → Cursor → Attempt (List (Field 18) × Cursor)
  | 0, _, c => .ok ([], c)
  | n + 1, k, c => do
    let (raw, c) ← recordBytes c
      (fun _ => "aux " ++ Text.decimal k ++ " of symbol " ++ Text.decimal slot.toNat) auxSize
    let (rest, c) ← readAux slot n (k + 1) c
    return (.pad 18 raw :: rest, c)

/-- The symbol in slot `slot`. -/
def readSymbol (slot : UInt32) (c : Cursor) : Attempt (SymbolEntry × Cursor) := do
  let (raw, c) ← recordBytes c (fun _ => "symbol " ++ Text.decimal slot.toNat) SymbolRecord.size
  let record ← SymbolRecord.parse raw
  let (aux, c) ← readAux slot record.auxCount.toNat 0 c
  return ({ record, index := slot, aux }, c)

theorem remaining_of_recordBytes {c c' : Cursor} {record : Unit → Bytes} {size : Nat} {b : Bytes}
    (h : recordBytes c record size = .ok (b, c')) : c'.remaining ≤ c.remaining := by
  have := Cursor.remaining_of_bytes (Cursor.reading_eq_ok.mp h)
  omega

theorem remaining_of_readAux {slot : UInt32} {n k : Nat} {c c' : Cursor} {l : List (Field 18)}
    (h : readAux slot n k c = .ok (l, c')) : c'.remaining ≤ c.remaining := by
  induction n generalizing k c l with
  | zero => cases h; exact Nat.le_refl _
  | succ n ih =>
    unfold readAux at h
    simp only [bind, Except.bind, pure, Except.pure] at h
    split at h
    · cases h
    · next r hr =>
      split at h
      · cases h
      · next r' hr' =>
        cases h
        exact Nat.le_trans (ih hr') (remaining_of_recordBytes hr)

theorem remaining_of_readSymbol {slot : UInt32} {c c' : Cursor} {e : SymbolEntry}
    (h : readSymbol slot c = .ok (e, c')) : c'.remaining < c.remaining := by
  unfold readSymbol at h
  simp only [bind, Except.bind, pure, Except.pure] at h
  split at h
  · cases h
  · next r hr =>
    split at h
    · cases h
    · split at h
      · cases h
      · next r' hr' =>
        cases h
        have h1 := remaining_of_readAux hr'
        have h2 := Cursor.remaining_of_bytes (Cursor.reading_eq_ok.mp hr)
        have h3 : (Int64.ofNat SymbolRecord.size).toInt.toNat = 18 := by decide
        omega

/-- The symbols from `slot` on, up to slot `count`. A symbol takes a slot for its record and one for
each auxiliary record; slots are 32-bit numbers. Each symbol consumes bytes, so this ends. -/
def readSymbols (count slot : UInt32) (acc : Array SymbolEntry) (c : Cursor) :
    Attempt (Array SymbolEntry × Cursor) :=
  if slot < count then
    match h : readSymbol slot c with
    | .error e => .error e
    | .ok (entry, c') =>
      readSymbols count (slot + 1 + entry.record.auxCount.toUInt32) (acc.push entry) c'
  else .ok (acc, c)
termination_by c.remaining
decreasing_by exact remaining_of_readSymbol h

/-- The string table at the cursor. -/
def readStrings (c : Cursor) : Attempt StringTable := do
  let start := c.pos
  let (size, c) ← c.reading (fun _ => "string table length") c.u32
  if size.toNat > c.remaining then
    .error (c.parsing "string table"
      (.fault (.shortRead ["string table", "blob"] size.toNat c.remaining)))
  else c.reading (fun _ => "string table") (StringTable.read { data := c.data.drop start })

/-- The records of a file. Reading follows the file's own pointers and counts and checks nothing but that
each record lies within the file. -/
def inspect (data : Bytes) : Attempt Image := do
  let c := Cursor.start data
  let (raw, c) ← recordBytes c (fun _ => "file header") FileHeader.size
  let header ← FileHeader.parse raw
  let c ← seekTo c (fun _ => "optional header") (c.pos + header.optionalHeader.toNat)
  let (sections, c) ← readSections header.sections.toNat 0 #[] c
  let (relocations, c) ← readAllRelocations 0 #[] c sections.toList
  if header.symbolTable = 0 ∧ header.symbols = 0 then
    return { header, sections, relocations, symbols := #[], strings := {} }
  let c ← seekTo c (fun _ => "symbol table") header.symbolTable.toNat
  let (symbols, c) ← readSymbols header.symbols 0 #[] c
  let strings ← readStrings c
  return { header, sections, relocations, symbols, strings }

/-- The header of section number `i`. -/
def section? (img : Image) (i : Int) : Option SectionHeader :=
  if 0 ≤ i then img.sections[i.toNat]? else none

/-- The raw data of section number `i`. -/
def sectionData (img : Image) (data : Bytes) (i : Int) : Attempt Bytes :=
  match img.section? i with
  | some header => do
    let c ← seekTo (.start data) (fun _ => "section data") header.rawData.toNat
    let (raw, _) ← recordBytes c (fun _ => "section data") header.rawSize.toNat
    return raw
  | none => .error (.plain ("section " ++ Text.signed i ++ " out of range"))

end Image

end CoffWorks
