import CoffWorks.Bytes.Cursor
import CoffWorks.StringTable
import CoffWorks.Vocabulary.Flags
import CoffWorks.Vocabulary.Machine
import CoffWorks.Vocabulary.Relocation
import CoffWorks.Vocabulary.Symbol

namespace CoffWorks

/-- The start of a file. -/
structure FileHeader where
  machine : Machine := ⟨0⟩
  sections : UInt16 := 0
  timestamp : UInt32 := 0
  symbolTable : UInt32 := 0
  symbols : UInt32 := 0
  optionalHeader : UInt16 := 0
  flags : FileFlags := ⟨0⟩
deriving DecidableEq, Inhabited

/-- An entry of the section directory. -/
structure SectionHeader where
  name : Field 8 := .pad 8 .empty
  virtualSize : UInt32 := 0
  virtualAddress : UInt32 := 0
  rawSize : UInt32 := 0
  rawData : UInt32 := 0
  relocations : UInt32 := 0
  lineNumbers : UInt32 := 0
  relocationCount : UInt16 := 0
  lineNumberCount : UInt16 := 0
  flags : SectionFlags := ⟨0⟩
deriving DecidableEq, Inhabited

/-- The main record of a symbol. Its section number counts from one; zero is for undefined symbols,
and negative numbers have special meanings. -/
structure SymbolRecord where
  name : Field 8 := .pad 8 .empty
  value : UInt32 := 0
  sectionNumber : Int16 := 0
  type : SymbolType := {}
  storageClass : StorageClass := ⟨0⟩
  auxCount : UInt8 := 0
deriving DecidableEq, Inhabited

/-- A relocation that names its symbol by the slot in the symbol table. -/
structure RelocationRecord where
  address : UInt32 := 0
  symbolIndex : UInt32 := 0
  type : RelocationType := ⟨0⟩
deriving DecidableEq, Inhabited

/-- A record of `size` bytes needs that many. -/
def checkRecord (record : Bytes) (size : Nat) (data : Bytes) : Attempt Unit :=
  if data.size < size then reject (.shortRead [record] size data.size) else .ok ()

namespace FileHeader

def size : Nat := 20

/-- Where the pointer to the symbol table stands in the header. -/
def symbolTableField : Nat := 8

def pushTo (h : FileHeader) (b : Bytes) : Bytes :=
  b.push16 h.machine.code |>.push16 h.sections |>.push32 h.timestamp |>.push32 h.symbolTable
    |>.push32 h.symbols |>.push16 h.optionalHeader |>.push16 h.flags.bits

def encode (h : FileHeader) : Bytes := h.pushTo .empty

def parse (data : Bytes) : Attempt FileHeader := do
  checkRecord "file header" size data
  return { machine := ⟨data.u16At 0⟩, sections := data.u16At 2, timestamp := data.u32At 4,
           symbolTable := data.u32At 8, symbols := data.u32At 12, optionalHeader := data.u16At 16,
           flags := ⟨data.u16At 18⟩ }

end FileHeader

namespace SectionHeader

def size : Nat := 40

/-- Where the three file pointers stand in the header. -/
def rawDataField : Nat := 20
def relocationsField : Nat := 24
def lineNumbersField : Nat := 28

def pushTo (h : SectionHeader) (b : Bytes) : Bytes :=
  (b ++ h.name.bytes).push32 h.virtualSize |>.push32 h.virtualAddress |>.push32 h.rawSize
    |>.push32 h.rawData |>.push32 h.relocations |>.push32 h.lineNumbers
    |>.push16 h.relocationCount |>.push16 h.lineNumberCount |>.push32 h.flags.bits

def encode (h : SectionHeader) : Bytes := h.pushTo .empty

def parse (data : Bytes) : Attempt SectionHeader := do
  checkRecord "section header" size data
  return { name := .at 8 data 0, virtualSize := data.u32At 8, virtualAddress := data.u32At 12,
           rawSize := data.u32At 16, rawData := data.u32At 20, relocations := data.u32At 24,
           lineNumbers := data.u32At 28, relocationCount := data.u16At 32,
           lineNumberCount := data.u16At 34, flags := ⟨data.u32At 36⟩ }

/-- The section's name, with the table for long ones. -/
def resolveName (h : SectionHeader) (t : StringTable) : Attempt Bytes :=
  t.resolve (Name.ofSectionField h.name)

end SectionHeader

namespace SymbolRecord

def size : Nat := 18

def pushTo (r : SymbolRecord) (b : Bytes) : Bytes :=
  (b ++ r.name.bytes).push32 r.value |>.push16 r.sectionNumber.toUInt16
    |>.push r.type.base.code |>.push r.type.complex.code |>.push r.storageClass.code
    |>.push r.auxCount

def encode (r : SymbolRecord) : Bytes := r.pushTo .empty

def parse (data : Bytes) : Attempt SymbolRecord := do
  checkRecord "symbol record" size data
  return { name := .at 8 data 0, value := data.u32At 8, sectionNumber := (data.u16At 12).toInt16,
           type := { base := ⟨data.byteAt 14⟩, complex := ⟨data.byteAt 15⟩ },
           storageClass := ⟨data.byteAt 16⟩, auxCount := data.byteAt 17 }

/-- The symbol's name, with the table for long ones. -/
def resolveName (r : SymbolRecord) (t : StringTable) : Attempt Bytes := do
  let name ← Name.ofSymbolField r.name
  t.resolve name

end SymbolRecord

namespace RelocationRecord

def size : Nat := 10

def pushTo (r : RelocationRecord) (b : Bytes) : Bytes :=
  b.push32 r.address |>.push32 r.symbolIndex |>.push16 r.type.code

def encode (r : RelocationRecord) : Bytes := r.pushTo .empty

def parse (data : Bytes) : Attempt RelocationRecord := do
  checkRecord "relocation" size data
  return { address := data.u32At 0, symbolIndex := data.u32At 4, type := ⟨data.u16At 8⟩ }

end RelocationRecord

/-- The size of an auxiliary record. -/
def auxSize : Nat := SymbolRecord.size

end CoffWorks
