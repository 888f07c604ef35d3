import CoffWorks.Manifest.Basic
import CoffWorks.Object.Builder
import CoffWorks.Text.Hex
import CoffWorks.Text.PathName

namespace CoffWorks.Manifest

/-- A part of what is at `path`. -/
def below (path : List Bytes) (name : Bytes) : List Bytes := path ++ [name]

/-- The text at `path` is not valid, for a reason. -/
def invalid (path : List Bytes) (cause : Failure) : Failure :=
  .caused { phase := .load, kind := .invalidData, path } cause

def inconsistent (path : List Bytes) (detail : Bytes) : Failure :=
  .fault { phase := .load, kind := .invalidData, path, detail }

/-- There is nothing with the name that is used at `path`. -/
def unknownName (path : List Bytes) (what name : Bytes) : Failure :=
  .fault { phase := .load, kind := .notFound, path, value := .text name,
           detail := what ++ " " ++ Text.quote name ++ " not found" }

/-- The text at `path`, read by `parse`. -/
def readAt {α : Type} (path : List Bytes) (parse : Bytes → Attempt α) (text : Bytes) : Attempt α :=
  match parse text with
  | .ok a => .ok a
  | .error e => .error (invalid path e)

/-- As `readAt`, but an empty text stands for a default. -/
def readOr {α : Type} (default : α) (path : List Bytes) (parse : Bytes → Attempt α) (text : Bytes) :
    Attempt α :=
  if text.isEmpty then .ok default else readAt path parse text

/-- All flags of a list together. -/
def readFlags {α : Type} [OrOp α] (zero : α) (path : List Bytes) (parse : Bytes → Attempt α)
    (texts : List Bytes) : Attempt α :=
  texts.foldlM (fun f text => do return f ||| (← readAt path parse text)) zero

def Section.path (s : Section) : List Bytes := ["sections", s.name]

/-- The path of a data file: one that is not absolute is seen from `baseDir`, if that is given. -/
def resolvePath (baseDir p : Bytes) : Bytes :=
  if Text.PathName.isAbsolute p ∨ baseDir.isEmpty then p else Text.PathName.join baseDir p

section
variable {m : Type → Type} [Monad m] (readFile : Bytes → m (Attempt Bytes)) (baseDir : Bytes)

/-- The data of a section. -/
def Section.load (s : Section) : m (Attempt Bytes) :=
  if ¬ s.data.isEmpty ∧ ¬ s.dataFile.isEmpty then
    pure (.error (inconsistent s.path "data and data_file are mutually exclusive"))
  else if ¬ s.data.isEmpty then
    pure (readAt (below s.path "data") Text.Hex.decode (Text.withoutBlanks s.data))
  else if ¬ s.dataFile.isEmpty then do
    let p := resolvePath baseDir s.dataFile
    match ← readFile p with
    | .ok b => return .ok b
    | .error e =>
      return .error (.caused { phase := .load, kind := .notFound, path := below s.path "data_file",
                               value := .text p } e)
  else pure (.ok .empty)

def Section.spec (s : Section) : m (Attempt SectionSpec) :=
  match readFlags ⟨0⟩ (below s.path "characteristics") SectionFlags.parse s.flags with
  | .error e => pure (.error e)
  | .ok flags => do
    match ← s.load readFile baseDir with
    | .error e => return .error e
    | .ok data => return .ok { name := s.name, data, address := s.address, flags }

/-- All sections, up to the first that is not in order. Data files are read one after the other as far as that. -/
def sectionSpecs : List Section → List SectionSpec → m (Attempt (List SectionSpec))
  | [], acc => pure (.ok acc.reverse)
  | s :: rest, acc => do
    match ← s.spec readFile baseDir with
    | .error e => return .error e
    | .ok spec => sectionSpecs rest (spec :: acc)

end

/-- Things with their names, in order. -/
abbrev Named (α : Type) := List (Bytes × α)

/-- The first with a name; a name that occurs more than once refers to its first bearer. -/
def Named.first? {α : Type} (l : Named α) (name : Bytes) : Option α :=
  (l.find? fun e => e.1 == name).map Prod.snd

/-- Sections by name, with their numbers from one on. -/
abbrev SectionNames := Named (SectionId × Nat)

def Aux.records (path : List Bytes) (sections : SectionNames) (a : Aux) : Attempt (List CoffWorks.Aux) :=
  match a.definition, a.fileName with
  | some _, some _ =>
    .error (inconsistent path "aux entry sets both section_definition and file_name")
  | some d, none =>
    match sections.first? d.sectionName with
    | none => .error (unknownName path "section" d.sectionName)
    | some (s, i) => .ok [.definition (some s) (d.number.getD (UInt16.ofNat i))]
  | none, some name => (FileName.records name).map fun pieces => pieces.map .fileName
  | none, none => .error (inconsistent path "empty aux entry")

/-- The auxiliary records of all entries; `i` is the number of the first. -/
def auxRecords (path : List Bytes) (sections : SectionNames) : Nat → List Aux →
    Attempt (List CoffWorks.Aux)
  | _, [] => .ok []
  | i, a :: rest => do
    let records ← a.records (below path ("aux[" ++ Text.decimal i ++ "]")) sections
    return records ++ (← auxRecords path sections (i + 1) rest)

def TypeNames.read (path : List Bytes) (t : TypeNames) : Attempt SymbolType := do
  let base ← readOr ⟨0⟩ path BaseType.parse t.base
  let complex ← readOr ⟨0⟩ path ComplexType.parse t.complex
  return { base, complex }

def Symbol.owner (path : List Bytes) (sections : SectionNames) (s : Symbol) :
    Attempt (Option SectionId) :=
  if s.sectionName.isEmpty then .ok none
  else
    match sections.first? s.sectionName with
    | some (id, _) => .ok (some id)
    | none => .error (unknownName path "section" s.sectionName)

def Symbol.spec (sections : SectionNames) (s : Symbol) : Attempt SymbolSpec := do
  let path : List Bytes := ["symbols", s.name]
  let owner ← s.owner path sections
  let storageClass ← readOr ⟨0⟩ (below path "storage_class") StorageClass.parse s.storageClass
  let type ← match s.type with
    | some t => t.read (below path "type")
    | none => .ok {}
  let aux ← auxRecords path sections 0 s.aux
  return { name := s.name, owner, value := s.value, type, storageClass, aux := aux.map some }

/-- Add the sections; `i` is the number of the first. -/
def addSections (b : BuilderId) : Nat → List SectionSpec → SectionNames → Making SectionNames
  | _, [], acc => return acc.reverse
  | i, spec :: rest, acc => do
    let id ← Making.addSection b spec
    addSections b (i + 1) rest ((spec.name, id, i) :: acc)

def addSymbols (b : BuilderId) (sections : SectionNames) : List Symbol → Named SymbolId →
    Making (Named SymbolId)
  | [], acc => return acc.reverse
  | s :: rest, acc => do
    let id ← Making.addSymbol b (← s.spec sections)
    addSymbols b sections rest ((s.name, id) :: acc)

/-- Add relocations to a section; `j` is the number of the first. -/
def addRelocations (b : BuilderId) (machine : Machine) (symbols : Named SymbolId) (id : SectionId)
    (path : List Bytes) : Nat → List Relocation → Making Unit
  | _, [] => return
  | j, r :: rest => do
    let path' := below path ("relocations[" ++ Text.decimal j ++ "]")
    match symbols.first? r.symbol with
    | none => throw (unknownName path' "symbol" r.symbol)
    | some symbol =>
      let type ← readAt path' (RelocationType.parse machine) r.type
      Making.addRelocation b (some id) { symbol := some symbol, address := r.offset, type }
      addRelocations b machine symbols id path (j + 1) rest

def addAllRelocations (b : BuilderId) (machine : Machine) (symbols : Named SymbolId) :
    List Section → SectionNames → Making Unit
  | s :: rest, (_, id, _) :: ids => do
    addRelocations b machine symbols id s.path 0 s.relocations
    addAllRelocations b machine symbols rest ids
  | _, _ => return

/-- The object file with given sections, and the symbols and relocations of the manifest. Sections come
first, then symbols, then relocations, so that each may refer to those before it, wherever they stand in the
manifest. -/
def assemble (x : Manifest) (machine : Machine) (flags : FileFlags) (specs : List SectionSpec) :
    Making ObjectFile := do
  let b ← Making.newBuilder machine flags
  let sections ← addSections b 1 specs []
  let symbols ← addSymbols b sections x.symbols []
  addAllRelocations b machine symbols x.sections sections
  Making.build b

/-- The machine and the flags of the file. -/
def header (x : Manifest) : Attempt (Machine × FileFlags) := do
  let machine ← readAt ["machine"] Machine.parse x.machine
  let flags ← readFlags ⟨0⟩ ["characteristics"] FileFlags.parse x.flags
  return (machine, flags)

/-- The object file of a manifest, added to a pool. -/
def build {m : Type → Type} [Monad m] (readFile : Bytes → m (Attempt Bytes)) (baseDir : Bytes)
    (x : Manifest) (p : Pool) : m (Attempt (ObjectFile × Pool)) :=
  match x.header with
  | .error e => pure (.error e)
  | .ok (machine, flags) => do
    match ← sectionSpecs readFile baseDir x.sections [] with
    | .error e => return .error e
    | .ok specs => return (x.assemble machine flags specs).run p

end CoffWorks.Manifest
