import CoffWorks.Manifest.Basic
import CoffWorks.Object.Basic
import CoffWorks.Text.Hex

namespace CoffWorks

namespace Machine

/-- A text that names the machine. -/
def spelling (m : Machine) : Bytes := m.name?.getD ("0x" ++ Text.hex 4 m.code.toNat)

end Machine

namespace StorageClass

/-- A text that names the class. -/
def spelling (c : StorageClass) : Bytes := c.name?.getD (Text.decimal c.code.toNat)

end StorageClass

namespace FileFlags

/-- The bits without a name. -/
def unnamed (f : FileFlags) : UInt16 :=
  (table.filter fun e => f.bits &&& e.2 = e.2).foldl (fun w e => w &&& ~~~e.2) f.bits

/-- Texts that together make up the flags: the names, and one number for the rest. -/
def spelling (f : FileFlags) : List Bytes :=
  f.names ++ if f.unnamed = 0 then [] else ["0x" ++ Text.hex 4 f.unnamed.toNat]

end FileFlags

namespace SectionFlags

/-- The bits without a name. -/
def unnamed (f : SectionFlags) : UInt32 :=
  let named := table.filter fun e => (f.bits &&& ~~~alignmentMask) &&& e.2 = e.2
  let rest := named.foldl (fun w e => w &&& ~~~e.2) f.bits
  if f.alignment = 0 then rest else rest &&& ~~~alignmentMask

/-- Texts that together make up the flags: the names, and one number for the rest. -/
def spelling (f : SectionFlags) : List Bytes :=
  f.names ++ if f.unnamed = 0 then [] else ["0x" ++ Text.hex 8 f.unnamed.toNat]

end SectionFlags

namespace Manifest

def Relocation.ofObject (p : Pool) (machine : Machine) (r : CoffWorks.Relocation) : Relocation :=
  { symbol := (p.getSymbol r.symbol).name, type := r.type.label machine, offset := r.address }

def Section.ofObject (p : Pool) (machine : Machine) (s : CoffWorks.Section) : Section :=
  { name := s.name, data := Text.Hex.encode s.data, flags := s.flags.spelling,
    relocations := s.relocations.toList.map (Relocation.ofObject p machine), address := s.address }

/-- The entry for an auxiliary record, none for one of an unknown sort. -/
def Aux.ofObject (p : Pool) : CoffWorks.Aux → Attempt (Option Aux)
  | .definition (some s) number =>
    .ok (some { definition := some { sectionName := (p.getSection s).name, number := some number } })
  | .definition none _ => .error .trap
  | .fileName piece => .ok (some { fileName := some piece.text })
  | .unknown => .ok none

def Symbol.ofObject (p : Pool) (s : CoffWorks.Symbol) : Attempt Symbol := do
  let aux ← s.aux.mapM (Aux.ofObject p)
  return { name := s.name, storageClass := s.storageClass.spelling, value := s.value,
           sectionName := match s.owner with
             | some id => (p.getSection id).name
             | none => .empty
           type := if s.type = {} then none
             else some { base := s.type.base.label, complex := s.type.complex.label }
           aux := aux.filterMap id }

/-- A description of an object file, with references by name. -/
def ofObject (p : Pool) (f : ObjectFile) : Attempt Manifest := do
  let symbols ← f.symbols.toList.mapM fun s => Symbol.ofObject p (p.getSymbol s)
  return { machine := f.machine.spelling, flags := f.flags.spelling,
           sections := f.sections.toList.map fun s => Section.ofObject p f.machine (p.getSection s),
           symbols }

end Manifest

end CoffWorks
