import CoffWorks.Yaml.Node
import CoffWorks.Yaml.Token.Sequence

namespace CoffWorks.Yaml

/-- Composing so far: the number of the next token, the handles of tags, the anchors with their
slots, latest first. -/
structure Composer where
  next : Nat := 0
  handles : List (Bytes × Bytes) := []
  anchors : List (Bytes × Nat) := []
  anchored : Array (Option Node) := #[]
  aliases : Nat := 0

/-- A step of composing, which may fail. -/
abbrev Compose := ReaderT Tokens (EStateM Unit Composer)

namespace Compose

def fail {α : Type} : Compose α := throw ()

/-- The next token. Two more tokens are always taken in with it. -/
def peek : Compose Token := do
  let ts ← read
  let k := (← get).next
  if ts.settled.any fun n => k + 2 ≥ n then fail
  return ts.tokens.getD k ⟨.streamEnd, 0⟩

def skip : Compose Unit := modify fun x => { x with next := x.next + 1 }

/-- Whether the next token is none of these. -/
def isContent (others : List Lexeme) : Compose Bool := do return !others.contains (← peek).lexeme

/-- A slot for the node of an anchor. -/
def newSlot (name : Bytes) : Compose Nat := do
  let slot := (← get).anchored.size
  modify fun x =>
    { x with anchors := (name, slot) :: x.anchors, anchored := x.anchored.push none }
  return slot

def fill (slot : Option Nat) (n : Node) : Compose Node := do
  match slot with
  | some i => modify fun x => { x with anchored := x.anchored.setIfInBounds i (some n) }
  | none => pure ()
  return n

def aliasNode (line : Nat) (name : Bytes) : Compose Node := do
  match (← get).anchors.lookup name with
  | none => fail
  | some slot =>
    let id := (← get).aliases
    modify fun x => { x with aliases := id + 1 }
    return .aliasOf line name id slot

/-- The tag of a node, empty if none is given or only the mark for none. -/
def givenTag (handle suffix : Bytes) : Compose Bytes := do
  let tag ←
    if handle.isEmpty then pure suffix
    else match (← get).handles.lookup handle with
      | some start => pure (start ++ suffix)
      | none => fail
  if tag.isEmpty then fail
  return if tag = "!" then .empty else Tag.short tag

/-- A node's anchor and tag, in either order, each at most once. -/
structure Properties where
  anchor : Option Bytes := none
  tag : Option Bytes := none
  line : Option Nat := none

def properties : Nat → Properties → Compose Properties
  | 0, p => pure p
  | fuel + 1, p => do
    let t ← peek
    match t.lexeme with
    | .anchor name =>
      if p.anchor.isSome then return p
      skip
      properties fuel { p with anchor := some name, line := p.line.or (some t.line) }
    | .tag handle suffix =>
      if p.tag.isSome then return p
      skip
      let tag ← givenTag handle suffix
      properties fuel { p with tag := some tag, line := p.line.or (some t.line) }
    | _ => return p

/-- The tag of a scalar: the given one, or by its style and text. -/
def scalarTag (given text : Bytes) (isPlain : Bool) : Bytes :=
  if !given.isEmpty then given
  else if !isPlain then Tag.str
  else if text == ("<<" : Bytes) then Tag.merge
  else (Meaning.ofText true text).tag

def orTag (given usual : Bytes) : Bytes := if given.isEmpty then usual else given

/-- A scalar without text, where a node is left out. -/
def emptyAt (line : Nat) : Node := .scalar (line + 1) Tag.null .empty

/-- Only an anchor or a tag: the text is empty. -/
def hollow (p : Properties) (slot : Option Nat) (line : Nat) (tag : Bytes) : Compose Node := do
  if p.anchor.isNone ∧ p.tag.isNone then fail
  fill slot (.scalar line (scalarTag tag .empty true) .empty)

/-- Past the comma before an item; false at the end of the collection. -/
def separated (first : Bool) (close : Lexeme) : Compose Bool := do
  let t ← peek
  if t.lexeme = close then return false
  if !first then
    if t.lexeme ≠ .flowEntry then fail
    skip
  return true

mutual

/-- A node. `block` if it may be a block collection, `bare` if it may be a sequence that is not
indented. -/
def node : Nat → Bool → Bool → Compose Node
  | 0, _, _ => fail
  | fuel + 1, block, bare => do
    let t ← peek
    match t.lexeme with
    | .aliasOf name =>
      skip
      aliasNode (t.line + 1) name
    | _ =>
      let p ← properties 2 {}
      let t ← peek
      let line := p.line.getD t.line + 1
      let tag := p.tag.getD .empty
      let slot ← match p.anchor with
        | some name => some <$> newSlot name
        | none => pure none
      match t.lexeme with
      | .scalar text isPlain =>
        skip
        fill slot (.scalar line (scalarTag tag text isPlain) text)
      | .blockEntry =>
        if bare then fill slot (.sequence line (orTag tag Tag.seq) (← bareItems fuel []))
        else hollow p slot line tag
      | .flowSequence =>
        skip
        fill slot (.sequence line (orTag tag Tag.seq) (← flowItems fuel true []))
      | .flowMapping =>
        skip
        fill slot (.mapping line (orTag tag Tag.map) (← flowPairs fuel true []))
      | .blockSequence =>
        if block then
          skip
          fill slot (.sequence line (orTag tag Tag.seq) (← blockItems fuel []))
        else hollow p slot line tag
      | .blockMapping =>
        if block then
          skip
          fill slot (.mapping line (orTag tag Tag.map) (← blockPairs fuel []))
        else hollow p slot line tag
      | _ => hollow p slot line tag

/-- The items of a block sequence. -/
def blockItems : Nat → List Node → Compose (List Node)
  | 0, _ => fail
  | fuel + 1, acc => do
    let t ← peek
    skip
    match t.lexeme with
    | .blockEntry =>
      if ← isContent [.blockEntry, .blockEnd] then
        let n ← node fuel true false
        blockItems fuel (n :: acc)
      else blockItems fuel (emptyAt t.line :: acc)
    | .blockEnd => return acc.reverse
    | _ => fail

/-- The items of a sequence that is not indented. -/
def bareItems : Nat → List Node → Compose (List Node)
  | 0, _ => fail
  | fuel + 1, acc => do
    let t ← peek
    match t.lexeme with
    | .blockEntry =>
      skip
      if ← isContent [.blockEntry, .key, .value, .blockEnd] then
        let n ← node fuel true false
        bareItems fuel (n :: acc)
      else bareItems fuel (emptyAt t.line :: acc)
    | _ => return acc.reverse

/-- The pairs of a block mapping. -/
def blockPairs : Nat → List (Node × Node) → Compose (List (Node × Node))
  | 0, _ => fail
  | fuel + 1, acc => do
    let t ← peek
    skip
    match t.lexeme with
    | .key =>
      let k ←
        if ← isContent [.key, .value, .blockEnd] then node fuel true true
        else pure (emptyAt t.line)
      let v ← blockValue fuel
      blockPairs fuel ((k, v) :: acc)
    | .blockEnd => return acc.reverse
    | _ => fail

def blockValue : Nat → Compose Node
  | 0 => fail
  | fuel + 1 => do
    let t ← peek
    match t.lexeme with
    | .value =>
      skip
      if ← isContent [.key, .value, .blockEnd] then node fuel true true
      else return emptyAt t.line
    | _ => return emptyAt t.line

/-- The items of a sequence in brackets; a pair is a mapping of its own. -/
def flowItems : Nat → Bool → List Node → Compose (List Node)
  | 0, _, _ => fail
  | fuel + 1, first, acc => do
    if ← separated first .flowSequenceEnd then
      let t ← peek
      match t.lexeme with
      | .key =>
        skip
        let k ← flowPairKey fuel
        let v ← flowPairValue fuel
        flowItems fuel false (.mapping (t.line + 1) Tag.map [(k, v)] :: acc)
      | .flowSequenceEnd =>
        skip
        return acc.reverse
      | _ =>
        let n ← node fuel false false
        flowItems fuel false (n :: acc)
    else
      skip
      return acc.reverse

/-- The key of a pair in a sequence. A missing one takes the next token with it. -/
def flowPairKey : Nat → Compose Node
  | 0 => fail
  | fuel + 1 => do
    if ← isContent [.value, .flowEntry, .flowSequenceEnd] then node fuel false false
    else
      let t ← peek
      skip
      return emptyAt t.line

def flowPairValue : Nat → Compose Node
  | 0 => fail
  | fuel + 1 => do
    if (← peek).lexeme = .value then
      skip
      if ← isContent [.flowEntry, .flowSequenceEnd] then return (← node fuel false false)
    return emptyAt (← peek).line

/-- The pairs of a mapping in braces. -/
def flowPairs : Nat → Bool → List (Node × Node) → Compose (List (Node × Node))
  | 0, _, _ => fail
  | fuel + 1, first, acc => do
    if ← separated first .flowMappingEnd then
      let t ← peek
      match t.lexeme with
      | .key =>
        skip
        let k ←
          if ← isContent [.value, .flowEntry, .flowMappingEnd] then node fuel false false
          else pure (emptyAt (← peek).line)
        let v ← flowValue fuel
        flowPairs fuel false ((k, v) :: acc)
      | .flowMappingEnd =>
        skip
        return acc.reverse
      | _ =>
        let k ← node fuel false false
        let v := emptyAt (← peek).line
        flowPairs fuel false ((k, v) :: acc)
    else
      skip
      return acc.reverse

def flowValue : Nat → Compose Node
  | 0 => fail
  | fuel + 1 => do
    if (← peek).lexeme = .value then
      skip
      if ← isContent [.flowEntry, .flowMappingEnd] then return (← node fuel false false)
    return emptyAt (← peek).line

end

/-- The handles that are always there. -/
def usualHandles : List (Bytes × Bytes) := [("!", "!"), ("!!", Tag.schema)]

/-- Directives before a document: at most one version, which is 1.1, and each handle once. -/
def directives : Nat → Bool → List (Bytes × Bytes) → Compose (List (Bytes × Bytes))
  | 0, _, _ => fail
  | fuel + 1, versioned, acc => do
    match (← peek).lexeme with
    | .version major minor =>
      if versioned ∨ major ≠ 1 ∨ minor ≠ 1 then fail
      skip
      directives fuel true acc
    | .tagDirective handle start =>
      if (acc.lookup handle).isSome then fail
      skip
      directives fuel versioned ((handle, start) :: acc)
    | _ => return acc

/-- Tokens without which a document has content. -/
def noContent : Lexeme → Bool
  | .version .. => true
  | .tagDirective .. => true
  | .documentStart => true
  | .documentEnd => true
  | .streamEnd => true
  | _ => false

def content (fuel : Nat) : Compose Node := do
  let t ← peek
  if noContent t.lexeme then return emptyAt t.line
  node fuel true false

/-- The first document, if there is one, up to the mark of its end. -/
def document (fuel : Nat) : Compose (Option Node) := do
  let _ ← peek
  skip
  let t ← peek
  if t.lexeme = .streamEnd then return none
  let isExplicit := t.lexeme ≠ .documentEnd ∧ noContent t.lexeme
  let own ← if isExplicit then directives fuel false [] else pure []
  modify fun x => { x with handles := own ++ usualHandles }
  let root ←
    if isExplicit then
      if (← peek).lexeme ≠ .documentStart then fail
      skip
      content fuel
    else node fuel true false
  let _ ← peek
  return some root

end Compose

/-- The first document of a stream, if there is one. -/
def Document.first (b : Bytes) : Except Unit (Option Document) :=
  let ts := Tokens.ofStream (Stream.ofBytes b)
  match (Compose.document (4 * ts.tokens.size + 8)).run ts {} with
  | .ok root x => .ok (root.map fun n => ⟨n, x.anchored⟩)
  | .error _ _ => .error ()

end CoffWorks.Yaml
