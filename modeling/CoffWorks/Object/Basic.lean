import CoffWorks.Object.FileName

namespace CoffWorks

structure SectionId where
  index : Nat
deriving DecidableEq, Inhabited

structure SymbolId where
  index : Nat
deriving DecidableEq, Hashable, Inhabited

structure BuilderId where
  index : Nat
deriving DecidableEq, Inhabited

/-- A place in a section that depends on the final address of a symbol. -/
structure Relocation where
  symbol : SymbolId
  address : UInt32
  type : RelocationType
deriving DecidableEq, Inhabited

/-- A named region of data with its relocations. As long as it has an owner, that builder may add
relocations. -/
structure Section where
  name : Bytes := .empty
  data : Bytes := .empty
  address : UInt32 := 0
  flags : SectionFlags := ⟨0⟩
  relocations : Array Relocation := #[]
  owner : Option BuilderId := none
deriving DecidableEq, Inhabited

/-- An auxiliary record of a symbol. -/
inductive Aux where
  /-- Describes a section, as it is when the file is written. -/
  | definition (target : Option SectionId) (number : UInt16)
  | fileName (piece : FileName)
  /-- A record of some other sort, which cannot be written. -/
  | unknown
deriving DecidableEq

/-- A named location, or a reference to another object. -/
structure Symbol where
  name : Bytes := .empty
  owner : Option SectionId := none
  value : UInt32 := 0
  type : SymbolType := {}
  storageClass : StorageClass := ⟨0⟩
  aux : List Aux := []
deriving DecidableEq, Inhabited

/-- Collects the parts of a file until it is sealed. -/
structure Builder where
  machine : Machine := ⟨0⟩
  flags : FileFlags := ⟨0⟩
  sections : Array SectionId := #[]
  symbols : Array SymbolId := #[]
  isSealed : Bool := false
deriving DecidableEq, Inhabited

/-- A file lists handles, and its content is what the pool holds for them. -/
structure ObjectFile where
  machine : Machine := ⟨0⟩
  flags : FileFlags := ⟨0⟩
  sections : Array SectionId := #[]
  symbols : Array SymbolId := #[]
deriving DecidableEq, Inhabited

/-- All sections, symbols and builders made so far. They refer to each other, also before they are complete,
so they are known by handles; two sections are the same if their handles are. -/
structure Pool where
  sections : Array Section := #[]
  symbols : Array Symbol := #[]
  builders : Array Builder := #[]
deriving DecidableEq, Inhabited

namespace Pool

def getSection (p : Pool) (s : SectionId) : Section := p.sections.getD s.index {}

def getSymbol (p : Pool) (s : SymbolId) : Symbol := p.symbols.getD s.index {}

def getBuilder (p : Pool) (b : BuilderId) : Builder := p.builders.getD b.index {}

end Pool

namespace ObjectFile

/-- The position of a section in the file, counted from one; zero if it is not in it. -/
def sectionIndex (f : ObjectFile) (s : SectionId) : Nat :=
  match f.sections.findIdx? (· = s) with
  | some i => i + 1
  | none => 0

/-- The slots of the symbol table: one for each symbol and each auxiliary record. -/
def slotCount (f : ObjectFile) (p : Pool) : Nat :=
  f.symbols.foldl (fun n s => n + 1 + (p.getSymbol s).aux.length) 0

end ObjectFile

/-- A reference that has to be there. -/
def present {α : Type} : Option α → Attempt α
  | some a => .ok a
  | none => .error .trap

end CoffWorks
