import CoffWorks.Bytes.Basic

namespace CoffWorks

namespace Manifest

structure Relocation where
  symbol : Bytes := .empty
  type : Bytes := .empty
  offset : UInt32 := 0
deriving DecidableEq

/-- A section. Its data are given in hexadecimal or by the path of a file, not by both. -/
structure Section where
  name : Bytes := .empty
  data : Bytes := .empty
  dataFile : Bytes := .empty
  flags : List Bytes := []
  relocations : List Relocation := []
  address : UInt32 := 0
deriving DecidableEq

/-- The type of a symbol; an empty text leaves a part at its default. -/
structure TypeNames where
  base : Bytes := .empty
  complex : Bytes := .empty
deriving DecidableEq

/-- A description of a section; without a number it is the one of the section. -/
structure Definition where
  sectionName : Bytes := .empty
  number : Option UInt16 := none
deriving DecidableEq

/-- An auxiliary entry, which has exactly one of its parts. -/
structure Aux where
  definition : Option Definition := none
  fileName : Option Bytes := none
deriving DecidableEq

/-- A symbol. It belongs to no section if the name of that is empty. -/
structure Symbol where
  name : Bytes := .empty
  sectionName : Bytes := .empty
  storageClass : Bytes := .empty
  type : Option TypeNames := none
  aux : List Aux := []
  value : UInt32 := 0
deriving DecidableEq

end Manifest

/-- An object file described by texts. Sections and symbols are referred to by their names, and codes by the
names in the vocabulary or by numbers. -/
structure Manifest where
  machine : Bytes := .empty
  flags : List Bytes := []
  sections : List Manifest.Section := []
  symbols : List Manifest.Symbol := []
deriving DecidableEq

end CoffWorks
