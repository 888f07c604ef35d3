import CoffWorks.Object.Builder
import CoffWorks.Object.Script
import Std.Data.HashMap

namespace CoffWorks

/-- The size of the zero block in place of line numbers. -/
def lineNumberBlock : Nat := 8

/-- Slots of the symbol table by symbol. -/
abbrev Slots := Std.HashMap SymbolId UInt32

namespace Encode

def sectionPath (i : Nat) (s : Section) : List Bytes :=
  ["section " ++ Text.decimal i ++ " " ++ Text.quote s.name]

def symbolPath (i : Nat) (s : Symbol) : List Bytes :=
  ["symbol " ++ Text.decimal i ++ " " ++ Text.quote s.name]

/-- `n` as a field of `bits` bits. The path is only looked at if it does not fit. -/
def narrow (bits n : Nat) (path : Unit → List Bytes) (field : Bytes) : Attempt Nat :=
  if n < 1 <<< bits then .ok n else reject (.overflow .encode (path ()) (.int n) field)

def narrow8 (n : Nat) (path : Unit → List Bytes) (field : Bytes) : Attempt UInt8 :=
  (narrow 8 n path field).map UInt8.ofNat

def narrow16 (n : Nat) (path : Unit → List Bytes) (field : Bytes) : Attempt UInt16 :=
  (narrow 16 n path field).map UInt16.ofNat

def narrow32 (n : Nat) (path : Unit → List Bytes) (field : Bytes) : Attempt UInt32 :=
  (narrow 32 n path field).map UInt32.ofNat

/-- The slots of the symbols from number `i` on, which starts at `slot`. A symbol listed twice keeps
its first. -/
def slotsFrom (p : Pool) : Nat → Nat → Slots → List SymbolId → Attempt Slots
  | _, _, slots, [] => .ok slots
  | i, slot, slots, s :: rest =>
    let x := p.getSymbol s
    if slot ≥ UInt32.size then
      reject (.overflow .encode (symbolPath i x) (.int slot) "symbol index")
    else
      slotsFrom p (i + 1) (slot + 1 + x.aux.length) (slots.insertIfNew s (UInt32.ofNat slot)) rest

def assignSlots (p : Pool) (f : ObjectFile) : Attempt Slots :=
  slotsFrom p 0 0 ∅ f.symbols.toList

def fileHeader (p : Pool) (f : ObjectFile) (s : Script) : Script :=
  s.emit fun _ => do
    let sections ← narrow16 f.sections.size (fun _ => ["file header"]) "NumberOfSections"
    let symbols ← narrow32 (f.slotCount p) (fun _ => ["file header"]) "NumberOfSymbols"
    return { machine := f.machine, sections, symbols, flags := f.flags : FileHeader }.encode

def sectionHeader (i : Nat) (x : Section) (s : Script) : Script :=
  s.emitNamed fun strings => do
    let (name, strings) ← strings.add x.name
    let field ← name.sectionField
    let size ← narrow32 x.data.size (fun _ => sectionPath i x) "SizeOfRawData"
    let count ← narrow16 x.relocations.size (fun _ => sectionPath i x) "NumberOfRelocations"
    let header : SectionHeader :=
      { name := field, virtualSize := size, virtualAddress := x.address, rawSize := size,
        relocationCount := count, flags := x.flags }
    return (header.encode, strings)

/-- The records of the relocations from number `j` on, after `acc`. -/
def relocationBytes (slots : Slots) (path : Unit → List Bytes) :
    Nat → Bytes → List Relocation → Attempt Bytes
  | _, acc, [] => .ok acc
  | j, acc, r :: rest =>
    match slots[r.symbol]? with
    | none => reject (.invariant (path () ++ ["relocation " ++ Text.decimal j])
        "relocation references a symbol outside the object file")
    | some slot =>
      relocationBytes slots path (j + 1)
        ({ address := r.address, symbolIndex := slot, type := r.type : RelocationRecord }.pushTo acc) rest

/-- Where the header of section number `i` stands. -/
def headerPosition (i : Nat) : Nat := FileHeader.size + SectionHeader.size * i

/-- The data of a section, its relocations and the line number block, each pointed to from its
header. -/
def sectionBody (slots : Slots) (i : Nat) (x : Section) (s : Script) : Script :=
  let header := headerPosition i
  s.point (header + SectionHeader.rawDataField) "PointerToRawData"
    |>.append x.data
    |>.point (header + SectionHeader.relocationsField) "PointerToRelocations"
    |>.emit (fun _ => relocationBytes slots (fun _ => sectionPath i x) 0 .empty x.relocations.toList)
    |>.point (header + SectionHeader.lineNumbersField) "PointerToLineNumbers"
    |>.append (Bytes.zeros lineNumberBlock)

/-- `b` followed by an auxiliary record. -/
def auxBytes (p : Pool) (path : Unit → List Bytes) (b : Bytes) : Aux → Attempt Bytes
  | .definition none _ => reject (.nilPointer .encode (path ()) "section definition target")
  | .definition (some target) number => do
    let x := p.getSection target
    let length ← narrow32 x.data.size path "Length"
    let count ← narrow16 x.relocations.size path "NumberOfRelocations"
    return (b.push32 length |>.push16 count |>.push16 0 |>.push32 0 |>.push16 number).pushZeros 4
  | .fileName piece => .ok (b ++ piece.field.bytes)
  | .unknown => reject (.unsupported .encode "auxiliary record type")

/-- `b` followed by the auxiliary records from number `j` on. -/
def auxRecords (p : Pool) (path : Unit → List Bytes) : Nat → Bytes → List Aux → Attempt Bytes
  | _, b, [] => .ok b
  | j, b, a :: rest => do
    let b ← auxBytes p (fun _ => path () ++ ["aux " ++ Text.decimal j]) b a
    auxRecords p path (j + 1) b rest

/-- The section number of a symbol, zero without a section. -/
def sectionNumber (p : Pool) (f : ObjectFile) (path : Unit → List Bytes) :
    Option SectionId → Attempt UInt16
  | none => .ok 0
  | some owner =>
    match f.sectionIndex owner with
    | 0 => reject (.invariant (path ()) ("owning section " ++ Text.quote (p.getSection owner).name
        ++ " is not in the object file"))
    | number => narrow16 number path "SectionNumber"

/-- A symbol's record and its auxiliary records. -/
def symbol (p : Pool) (f : ObjectFile) (i : Nat) (x : Symbol) (s : Script) : Script :=
  s.emitNamed fun strings => do
    let path := fun _ => symbolPath i x
    let number ← sectionNumber p f path x.owner
    let auxCount ← narrow8 x.aux.length path "NumberOfAuxSymbols"
    let (name, strings) ← strings.add x.name
    let record : SymbolRecord :=
      { name := name.symbolField, value := x.value, sectionNumber := number.toInt16, type := x.type,
        storageClass := x.storageClass, auxCount }
    let bytes ← auxRecords p path 0 record.encode x.aux
    return (bytes, strings)

/-- The string table, its length first. -/
def stringTable (s : Script) : Script :=
  let strings := s.strings
  s.append strings.lengthBytes |>.append strings.blob

/-- Apply `f` to the items from number `i` on. -/
def each {α : Type} (f : Nat → α → Script → Script) : Nat → List α → Script → Script
  | _, [], s => s
  | i, a :: rest, s => each f (i + 1) rest (f i a s)

/-- How to write the file: the file header, the section directory, for each section its data, relocations
and an empty block of line numbers, then the symbol table and the string table. -/
def script (p : Pool) (f : ObjectFile) : Script :=
  match assignSlots p f with
  | .error e => { failure := some e }
  | .ok slots =>
    let s := fileHeader p f {}
    let s := each (fun i x s => sectionHeader i (p.getSection x) s) 0 f.sections.toList s
    let s := each (fun i x s => sectionBody slots i (p.getSection x) s) 0 f.sections.toList s
    let s := s.point FileHeader.symbolTableField "PointerToSymbolTable"
    let s := each (fun i x s => symbol p f i (p.getSymbol x) s) 0 f.symbols.toList s
    stringTable s

end Encode

namespace ObjectFile

/-- Write the file to a sink. What fails in the sink is reported as it is, and what was written
stays. -/
def encode {σ : Type} [Sink σ] (f : ObjectFile) (p : Pool) (sink : σ) : σ × Option Failure :=
  (Encode.script p f).run sink

/-- Write a file that may be absent to a sink that may be. -/
def encode? {σ : Type} [Sink σ] (f : Option ObjectFile) (p : Pool) (sink : Option σ) :
    Option σ × Option Failure :=
  match sink, f with
  | none, _ => (none, some (.fault (.nilPointer .encode [] "sink")))
  | some sink, none => (some sink, some (.fault (.nilPointer .encode [] "object file")))
  | some sink, some f =>
    let (sink, failure) := f.encode p sink
    (some sink, failure)

/-- The file in memory. -/
def bytes? (f : Option ObjectFile) (p : Pool) : Attempt Bytes :=
  match encode? f p (some ({} : Staging)) with
  | (some stage, none) => .ok stage.data
  | (_, some e) => .error e
  | (none, none) => .ok .empty

/-- The file in memory. -/
def bytes (f : ObjectFile) (p : Pool) : Attempt Bytes := bytes? (some f) p

/-- Encode in memory, then send it on; nothing is sent if that fails. -/
def writeTo {ω : Type} [Writer ω] (f : Option ObjectFile) (p : Pool) (out : ω) : Stored ω :=
  match bytes? f p with
  | .ok b => Writer.write out b
  | .error e => { out, count := 0, failure := some e }

end ObjectFile

end CoffWorks
