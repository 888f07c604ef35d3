import CoffWorks.Object.Builder

namespace CoffWorks

/-- A label in the code. An external one is defined elsewhere, a public one is seen from elsewhere. -/
structure CodeLabel where
  name : Bytes := .empty
  offset : UInt32 := 0
  isExternal : Bool := false
  isPublic : Bool := false
deriving DecidableEq, Inhabited

/-- A place in the code that refers to a label. Zero bits stand for 32. -/
structure CodeFixup where
  symbol : Bytes := .empty
  offset : UInt32 := 0
  bits : Int64 := 0
  isRelative : Bool := false
deriving DecidableEq, Inhabited

namespace Code

/-- The source file recorded if none is given. -/
def defaultSource : Bytes := "fake"

/-- The alignment of the sections, for the machines that are supported. -/
def alignment? (m : Machine) : Option SectionFlags :=
  if m = .amd64 then some (.alignedTo 4)
  else if m = .i386 then some (.alignedTo 2)
  else none

def relocationType (m : Machine) (r : CodeFixup) : Attempt RelocationType :=
  if r.bits ≠ 0 ∧ r.bits ≠ 32 then
    reject { phase := .construct, kind := .unsupported, path := ["relocation " ++ r.symbol],
             value := .int r.bits.toInt,
             detail := Text.signed r.bits.toInt ++ "-bit relocations are not supported" }
  else if m = .amd64 then .ok (if r.isRelative then .amd64Rel32 else .amd64Addr32)
  else .ok (if r.isRelative then .i386Rel32 else .i386Dir32)

/-- Every fixup names a label. -/
def checkFixups (labels : List CodeLabel) : List CodeFixup → Attempt Unit
  | [] => .ok ()
  | r :: rest =>
    if labels.any (·.name == r.symbol) then checkFixups labels rest
    else reject (.notFound .construct "relocation symbol" r.symbol)

/-- Relocations for the fixups that name `label`. -/
def addFixups (m : Machine) (b : BuilderId) (text : SectionId) (label : CodeLabel) (symbol : SymbolId) :
    List CodeFixup → Making Unit
  | [] => return
  | r :: rest => do
    if r.symbol == label.name then
      let type ← relocationType m r
      Making.addRelocation b (some text) { symbol := some symbol, address := r.offset, type }
    addFixups m b text label symbol rest

def labelSpec (text : SectionId) (label : CodeLabel) : SymbolSpec :=
  { name := label.name, value := label.offset,
    owner := if label.isExternal then none else some text,
    storageClass := if label.isExternal ∨ label.isPublic then .external else .static }

/-- The labels as symbols, each followed by its relocations. -/
def addLabels (m : Machine) (b : BuilderId) (text : SectionId) (fixups : List CodeFixup) :
    List CodeLabel → Making Unit
  | [] => return
  | label :: rest => do
    let symbol ← Making.addSymbol b (labelSpec text label)
    addFixups m b text label symbol fixups
    addLabels m b text fixups rest

/-- A static symbol that describes a section. -/
def addSectionSymbol (b : BuilderId) (name : Bytes) (s : SectionId) (number : UInt16) : Making Unit := do
  let describing ← Aux.describing (some s) number
  let _ ← Making.addSymbol b
    { name, owner := some s, storageClass := .static, aux := [some describing] }

/-- The object for a piece of code that comes from the file `source`: sections `.text`, `.data` and `.bss`,
a symbol for the source file, one for each section, and then the given labels. The relocations stand in the
order of the labels they refer to. -/
def object (m : Machine) (code : Bytes) (labels : List CodeLabel) (fixups : List CodeFixup)
    (source : Bytes) : Making ObjectFile := do
  match alignment? m with
  | none => Making.refuse (.unsupported .construct ("code objects for machine " ++ m.label))
  | some align =>
    let b ← Making.newBuilder m ⟨0⟩
    let text ← Making.addSection b
      { name := ".text", data := code, flags := .execute ||| .read ||| .code ||| align }
    let data ← Making.addSection b
      { name := ".data", flags := .read ||| .write ||| .initializedData ||| align }
    let bss ← Making.addSection b
      { name := ".bss", flags := .read ||| .write ||| .uninitializedData ||| align }
    let pieces ← FileName.records source
    let _ ← Making.addSymbol b
      { name := ".file", owner := some text, storageClass := .file,
        aux := pieces.map fun piece => some (.fileName piece) }
    addSectionSymbol b ".text" text 1
    addSectionSymbol b ".data" data 2
    addSectionSymbol b ".bss" bss 3
    checkFixups labels fixups
    addLabels m b text fixups labels
    Making.build b

end Code

end CoffWorks
