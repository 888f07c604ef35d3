import CoffWorks.Object.Basic

namespace CoffWorks

/-- A step that may add to the pool or change it; one that fails leaves it as it was. -/
abbrev Making := StateT Pool Attempt

/-- A relocation asked for. -/
structure RelocationSpec where
  symbol : Option SymbolId := none
  address : UInt32 := 0
  type : RelocationType := ⟨0⟩
deriving Inhabited

structure SectionSpec where
  name : Bytes := .empty
  data : Bytes := .empty
  address : UInt32 := 0
  flags : SectionFlags := ⟨0⟩
deriving Inhabited

structure SymbolSpec where
  name : Bytes := .empty
  owner : Option SectionId := none
  value : UInt32 := 0
  type : SymbolType := {}
  storageClass : StorageClass := ⟨0⟩
  aux : List (Option Aux) := []
deriving Inhabited

namespace Making

def refuse {α : Type} (f : Fault) : Making α := throw (.fault f)

/-- Put a section into the pool. -/
def placeSection (s : Section) : Making SectionId := fun p =>
  .ok (⟨p.sections.size⟩, { p with sections := p.sections.push s })

/-- Put a symbol into the pool. -/
def placeSymbol (s : Symbol) : Making SymbolId := fun p =>
  .ok (⟨p.symbols.size⟩, { p with symbols := p.symbols.push s })

/-- Every relocation names a symbol; `i` is the number of the first. -/
def settleRelocations (sectionName : Bytes) : Nat → Array Relocation → List RelocationSpec →
    Attempt (Array Relocation)
  | _, acc, [] => .ok acc
  | i, acc, r :: rest =>
    match r.symbol with
    | some symbol =>
      settleRelocations sectionName (i + 1) (acc.push ⟨symbol, r.address, r.type⟩) rest
    | none => reject (.nilPointer .construct
        ["section " ++ sectionName, "relocation " ++ Text.decimal i] "symbol")

/-- A section that belongs to no builder. -/
def newSection (spec : SectionSpec) (relocations : List RelocationSpec) : Making SectionId := do
  let relocations ← settleRelocations spec.name 0 #[] relocations
  placeSection { name := spec.name, data := spec.data, address := spec.address, flags := spec.flags,
                 relocations }

/-- Every auxiliary record is there; `i` is the number of the first. -/
def settleAux (symbolName : Bytes) : Nat → List (Option Aux) → Attempt (List Aux)
  | _, [] => .ok []
  | i, some a :: rest => (settleAux symbolName (i + 1) rest).map (a :: ·)
  | i, none :: _ => reject (.nilPointer .construct
      ["symbol " ++ symbolName, "aux " ++ Text.decimal i] "auxiliary record")

def settleSymbol (spec : SymbolSpec) : Attempt Symbol := do
  if spec.aux.length > maxAux then
    reject { phase := .construct, kind := .overflow, path := ["symbol " ++ spec.name],
             field := "NumberOfAuxSymbols", value := .int spec.aux.length,
             detail := Text.decimal spec.aux.length ++ " auxiliary records exceed " ++ Text.decimal maxAux }
  let aux ← settleAux spec.name 0 spec.aux
  return { name := spec.name, owner := spec.owner, value := spec.value, type := spec.type,
           storageClass := spec.storageClass, aux }

def newSymbol (spec : SymbolSpec) : Making SymbolId := do
  placeSymbol (← settleSymbol spec)

def newBuilder (machine : Machine) (flags : FileFlags) : Making BuilderId := fun p =>
  .ok (⟨p.builders.size⟩, { p with builders := p.builders.push { machine, flags } })

/-- A builder that is not sealed may do `operation`. -/
def checkOpen (b : BuilderId) (operation : Bytes) : Making Unit := do
  if ((← get).getBuilder b).isSealed then refuse (.invalidInput .construct (operation ++ " after Build"))

def modifyBuilder (b : BuilderId) (f : Builder → Builder) : Making Unit :=
  modify fun p => { p with builders := p.builders.modify b.index f }

def modifySection (s : SectionId) (f : Section → Section) : Making Unit :=
  modify fun p => { p with sections := p.sections.modify s.index f }

/-- A section of the builder's file. -/
def addSection (b : BuilderId) (spec : SectionSpec) : Making SectionId := do
  checkOpen b "AddSection"
  let s ← placeSection { name := spec.name, data := spec.data, address := spec.address,
                         flags := spec.flags, owner := some b }
  modifyBuilder b fun x => { x with sections := x.sections.push s }
  return s

/-- A symbol of the builder's file. -/
def addSymbol (b : BuilderId) (spec : SymbolSpec) : Making SymbolId := do
  checkOpen b "AddSymbol"
  let s ← newSymbol spec
  modifyBuilder b fun x => { x with symbols := x.symbols.push s }
  return s

/-- Append a relocation to a section that this builder made. -/
def addRelocation (b : BuilderId) (s : Option SectionId) (r : RelocationSpec) : Making Unit := do
  checkOpen b "AddRelocation"
  match s with
  | none => refuse (.nilPointer .construct ["relocation"] "section")
  | some s =>
    let x := (← get).getSection s
    if x.owner ≠ some b then
      refuse (.invalidInput .construct ("section " ++ x.name ++ " was not created by this builder"))
    else
      match r.symbol with
      | none => refuse (.nilPointer .construct ["section " ++ x.name, "relocation"] "symbol")
      | some symbol =>
        modifySection s fun x =>
          { x with relocations := x.relocations.push ⟨symbol, r.address, r.type⟩ }

/-- Release a section from its builder. -/
def release (p : Pool) (s : SectionId) : Pool :=
  { p with sections := p.sections.modify s.index fun x => { x with owner := none } }

/-- Seal the builder and hand out its file. From then on it refuses every operation, and its sections take
no more relocations. -/
def build (b : BuilderId) : Making ObjectFile := do
  checkOpen b "Build"
  let x := (← get).getBuilder b
  modifyBuilder b fun x => { x with isSealed := true }
  modify fun p => x.sections.foldl release p
  return { machine := x.machine, flags := x.flags, sections := x.sections, symbols := x.symbols }

end Making

namespace ObjectFile

/-- All of the references, or a complaint about the first that is absent. -/
def settle {α : Type} (what : Bytes) : Nat → Array α → List (Option α) → Attempt (Array α)
  | _, acc, [] => .ok acc
  | i, acc, some a :: rest => settle what (i + 1) (acc.push a) rest
  | i, _, none :: _ => reject (.nilPointer .construct [what ++ " " ++ Text.decimal i] what)

/-- A file of sections and symbols that exist already. -/
def create (machine : Machine) (flags : FileFlags) (sections : List (Option SectionId))
    (symbols : List (Option SymbolId)) : Attempt ObjectFile := do
  let sections ← settle "section" 0 #[] sections
  let symbols ← settle "symbol" 0 #[] symbols
  return { machine, flags, sections, symbols }

/-- A file with a single executable section. -/
def ofCode (code : Bytes) : Making ObjectFile := do
  let s ← Making.placeSection { name := "code", data := code, flags := .execute ||| .read ||| .code }
  return { machine := .i386, sections := #[s] }

end ObjectFile

/-- The auxiliary record that describes a section. -/
def Aux.describing (target : Option SectionId) (number : UInt16) : Attempt Aux :=
  match target with
  | some s => .ok (.definition (some s) number)
  | none => reject (.nilPointer .construct ["section definition"] "target section")

end CoffWorks
