import CoffWorks.Failure
import CoffWorks.Manifest.Basic
import CoffWorks.Yaml.Node.Compose
import CoffWorks.Yaml.Shape
import CoffWorks.Yaml.Tree

namespace CoffWorks.Manifest

open Yaml

def word32 : Shape UInt32 :=
  { typeName := "uint32", decode := fun n => return (← (Shape.word 32).decode n).map UInt32.ofNat }

def word16 : Shape UInt16 :=
  { typeName := "uint16", decode := fun n => return (← (Shape.word 16).decode n).map UInt16.ofNat }

def texts : Shape (List Bytes) := .list .text

def relocationShape : Shape Relocation := .record "manifest.Relocation" {}
  [.of "symbol" .text fun r v => { r with symbol := v },
   .of "type" .text fun r v => { r with type := v },
   .of "offset" word32 fun r v => { r with offset := v }]

def sectionShape : Shape Section := .record "manifest.Section" {}
  [.of "name" .text fun s v => { s with name := v },
   .of "data" .text fun s v => { s with data := v },
   .of "data_file" .text fun s v => { s with dataFile := v },
   .of "characteristics" texts fun s v => { s with flags := v },
   .of "relocations" (.list relocationShape) fun s v => { s with relocations := v },
   .of "virtual_address" word32 fun s v => { s with address := v }]

def typeShape : Shape TypeNames := .record "manifest.Type" {}
  [.of "base" .text fun t v => { t with base := v },
   .of "complex" .text fun t v => { t with complex := v }]

def definitionShape : Shape Definition := .record "manifest.SectionDefinition" {}
  [.of "section" .text fun d v => { d with sectionName := v },
   .of "number" (.optional word16) fun d v => { d with number := v }]

def auxShape : Shape Aux := .record "manifest.Aux" {}
  [.of "section_definition" (.optional definitionShape) fun a v => { a with definition := v },
   .of "file_name" (.optional .text) fun a v => { a with fileName := v }]

def symbolShape : Shape Symbol := .record "manifest.Symbol" {}
  [.of "name" .text fun s v => { s with name := v },
   .of "section" .text fun s v => { s with sectionName := v },
   .of "storage_class" .text fun s v => { s with storageClass := v },
   .of "type" (.optional typeShape) fun s v => { s with type := v },
   .of "aux" (.list auxShape) fun s v => { s with aux := v },
   .of "value" word32 fun s v => { s with value := v }]

def shape : Shape Manifest := .record "manifest.Manifest" {}
  [.of "machine" .text fun m v => { m with machine := v },
   .of "characteristics" texts fun m v => { m with flags := v },
   .of "sections" (.list sectionShape) fun m v => { m with sections := v },
   .of "symbols" (.list symbolShape) fun m v => { m with symbols := v }]

/-- A document as such cannot be read. -/
def unreadable (detail : Bytes) : Fault := .invalidData .load [] detail

def problemText : Problem → Bytes
  | .malformed => "yaml"
  | .misfits complaints => Bytes.join "\n  " ("yaml: unmarshal errors:" :: complaints)

/-- The manifest in the first document of a text. -/
def parse (b : Bytes) : Attempt Manifest :=
  match Document.first b with
  | .error _ => .error (failed .malformed)
  | .ok none => reject (unreadable "empty manifest")
  | .ok (some d) =>
    match d.decode shape with
    | .error p => .error (failed p)
    | .ok m => .ok (m.getD {})
where
  failed (p : Problem) : Failure := .caused (unreadable "parse manifest") (.plain (problemText p))

def textTrees (bs : List Bytes) : List Tree := bs.map .text

def Relocation.tree (r : Relocation) : Tree :=
  .record [("symbol", .text r.symbol), ("type", .text r.type), ("offset", .number r.offset.toNat)]

def Section.tree (s : Section) : Tree :=
  .record (("name", .text s.name)
    :: (Tree.field "data" (Tree.textOrNone s.data)
    ++ Tree.field "data_file" (Tree.textOrNone s.dataFile)
    ++ Tree.field "characteristics" (Tree.listOrNone (textTrees s.flags))
    ++ Tree.field "relocations" (Tree.listOrNone (s.relocations.map Relocation.tree))
    ++ Tree.field "virtual_address" (Tree.numberOrNone s.address.toNat)))

def TypeNames.tree (t : TypeNames) : Tree :=
  .record (Tree.field "base" (Tree.textOrNone t.base) ++ Tree.field "complex" (Tree.textOrNone t.complex))

def Definition.tree (d : Definition) : Tree :=
  .record (("section", .text d.sectionName)
    :: Tree.field "number" (d.number.map fun n => .number n.toNat))

def Aux.tree (a : Aux) : Tree :=
  .record (Tree.field "section_definition" (a.definition.map Definition.tree)
    ++ Tree.field "file_name" (a.fileName.map .text))

def Symbol.tree (s : Symbol) : Tree :=
  .record (("name", .text s.name)
    :: (Tree.field "section" (Tree.textOrNone s.sectionName)
    ++ Tree.field "storage_class" (Tree.textOrNone s.storageClass)
    ++ Tree.field "type" (s.type.map TypeNames.tree)
    ++ Tree.field "aux" (Tree.listOrNone (s.aux.map Aux.tree))
    ++ Tree.field "value" (Tree.numberOrNone s.value.toNat)))

def tree (m : Manifest) : Tree :=
  .record (("machine", .text m.machine)
    :: (Tree.field "characteristics" (Tree.listOrNone (textTrees m.flags))
    ++ Tree.field "sections" (Tree.listOrNone (m.sections.map Section.tree))
    ++ Tree.field "symbols" (Tree.listOrNone (m.symbols.map Symbol.tree))))

/-- The manifest as a text. -/
def render (m : Manifest) : Bytes := m.tree.render

end CoffWorks.Manifest
