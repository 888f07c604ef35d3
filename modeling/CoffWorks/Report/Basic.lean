import CoffWorks.Image
import CoffWorks.Text.ByteSize

namespace CoffWorks

/-- A titled table; every row has a cell for each column. -/
structure Grid where
  title : Bytes
  columns : List Bytes
  rows : List (List Bytes) := []
deriving DecidableEq

/-- The records of an object file as tables of texts. -/
structure Report where
  path : Bytes
  header : List (Bytes × Bytes)
  sections : Grid
  symbols : Grid
  relocations : Grid
  strings : Grid
deriving DecidableEq

namespace Report

/-- The names of flags in one text. -/
def joinFlags (names : List Bytes) : Bytes := if names.isEmpty then "-" else Bytes.join " " names

def word32 (v : UInt32) : Bytes := "0x" ++ Text.hex 8 v.toNat

/-- A name, or in its place why it cannot be told. -/
def nameOr : Attempt Bytes → Bytes
  | .ok name => name
  | .error e => "<" ++ e.message ++ ">"

/-- The section a symbol belongs to, by number and name. Zero and the two numbers below it have a
meaning of their own. -/
def sectionLabel (n : Int16) (names : Array Bytes) : Bytes :=
  if n = 0 then "UNDEF"
  else if n = -1 then "ABS"
  else if n = -2 then "DEBUG"
  else if n < 0 then Text.signed n.toInt
  else
    match names[n.toInt.toNat - 1]? with
    | some name => Text.signed n.toInt ++ " " ++ name
    | none => Text.signed n.toInt

def headerRows (h : FileHeader) (size : Nat) : List (Bytes × Bytes) :=
  [("Machine", h.machine.label),
   ("Size", Text.byteSize size),
   ("Sections", Text.decimal h.sections.toNat),
   ("Symbols", Text.withCommas h.symbols.toNat),
   ("Symbol table", word32 h.symbolTable),
   ("Characteristics", joinFlags h.flags.names)]

def sectionRow (number : Nat) (name : Bytes) (h : SectionHeader) : List Bytes :=
  [Text.decimal number, name, Text.byteSize h.rawSize.toNat, word32 h.rawData,
   Text.decimal h.relocationCount.toNat, word32 h.lineNumbers, joinFlags h.flags.names]

def symbolRow (sections : Array Bytes) (name : Bytes) (e : SymbolEntry) : List Bytes :=
  [Text.decimal e.index.toNat, name, word32 e.record.value,
   sectionLabel e.record.sectionNumber sections, e.record.type.label, e.record.storageClass.label,
   Text.decimal e.record.auxCount.toNat]

/-- The names in the slots of a symbol table; those of auxiliary records have none. -/
def slotNames (symbols : List (Bytes × SymbolEntry)) : Array (Option Bytes) :=
  symbols.foldl (fun acc e => acc.push (some e.1) ++ Array.replicate e.2.aux.length none) #[]

/-- The name of the symbol in a slot. -/
def slotName (names : Array (Option Bytes)) (slot : UInt32) : Bytes :=
  match names[slot.toNat]? with
  | some (some name) => name
  | _ => "?"

def relocationRow (machine : Machine) (names : Array (Option Bytes)) (sectionName : Bytes)
    (r : RelocationRecord) : List Bytes :=
  [sectionName, word32 r.address, r.type.label machine, Text.decimal r.symbolIndex.toNat,
   slotName names r.symbolIndex]

/-- The rows for headers, the first of which has the given number. -/
def sectionRows : Nat → List (Bytes × SectionHeader) → List (List Bytes)
  | _, [] => []
  | n, (name, h) :: rest => sectionRow n name h :: sectionRows (n + 1) rest

/-- The tables of an image that was read from `size` bytes. -/
def ofImage (path : Bytes) (size : Nat) (img : Image) : Report :=
  let sections := img.sections.map fun h => nameOr (h.resolveName img.strings)
  let symbols := img.symbols.toList.map fun e => (nameOr (e.record.resolveName img.strings), e)
  let slots := slotNames symbols
  { path
    header := headerRows img.header size
    sections :=
      { title := "Sections"
        columns := ["#", "Name", "Raw size", "Raw data", "Relocs", "Line nums", "Flags"]
        rows := sectionRows 1 (sections.toList.zip img.sections.toList) }
    symbols :=
      { title := "Symbols"
        columns := ["Slot", "Name", "Value", "Section", "Type", "Class", "Aux"]
        rows := symbols.map fun e => symbolRow sections e.1 e.2 }
    relocations :=
      { title := "Relocations"
        columns := ["Section", "Offset", "Type", "Slot", "Symbol"]
        rows := (sections.toList.zip img.relocations.toList).flatMap fun e =>
          e.2.toList.map (relocationRow img.header.machine slots e.1) }
    strings :=
      { title := "String table"
        columns := ["Offset", "Text"]
        rows := img.strings.entries.toList.map fun e => [Text.decimal e.offset.toNat, e.text] } }

/-- The report on the content of a file. -/
def ofBytes (path data : Bytes) : Attempt Report :=
  match Image.inspect data with
  | .ok img => .ok (ofImage path data.size img)
  | .error e => .error (.within ("inspect " ++ path) e)

def tables (r : Report) : List Grid := [r.sections, r.symbols, r.relocations, r.strings]

end Report

end CoffWorks
