import CoffWorks.Yaml.Scalar

namespace CoffWorks.Yaml

/-- What a stream is made of. Indentation becomes tokens that open and close block collections, and a text
that turns out to be a mapping key gets a key token before it. -/
inductive Lexeme where
  | streamStart | streamEnd | documentStart | documentEnd
  | version (major minor : Nat)
  | tagDirective (handle start : Bytes)
  | blockSequence | blockMapping | blockEnd
  | flowSequence | flowSequenceEnd | flowMapping | flowMappingEnd
  | blockEntry | flowEntry | key | value
  | aliasOf (name : Bytes)
  | anchor (name : Bytes)
  | tag (handle suffix : Bytes)
  | scalar (text : Bytes) (isPlain : Bool)
deriving DecidableEq

/-- A lexeme and the line it starts in, counted from zero. -/
structure Token where
  lexeme : Lexeme
  line : Nat
deriving DecidableEq

/-- The tokens of a stream; if it goes wrong, those before the failing step are `settled`. -/
structure Tokens where
  tokens : Array Token
  settled : Option Nat

/-- A token that becomes a mapping key if a colon follows in its line. If it is `required` there is
no other way to read it. -/
structure KeyCandidate where
  token : Nat
  place : Place
  required : Bool

/-- Scanning so far. There is a key candidate for each level of brackets, innermost first. -/
structure Scanner where
  place : Place := {}
  tokens : Array Token := #[]
  settled : Nat := 0
  indent : Int := -1
  outerIndents : List Int := []
  flowLevel : Nat := 0
  keyAllowed : Bool := true
  candidates : List (Option KeyCandidate) := [none]

/-- A step of scanning, which may fail. -/
abbrev Scan := ReaderT Stream (EStateM Unit Scanner)

namespace Scan

/-- Collections are nested no deeper than this. -/
def maxDepth : Nat := 10000

def fail {α : Type} : Scan α := throw ()

def peek (k : Nat := 0) : Scan Char := do return (← read).get ((← get).place.index + k)

def skip (n : Nat := 1) : Scan Unit := fun s => modify fun x => { x with place := x.place.advance s n }

def skipLine : Scan Unit := fun s => modify fun x => { x with place := x.place.newLine s }

def skipWhile (test : Char → Bool) : Scan Unit := fun s =>
  modify fun x => { x with place := x.place.skipWhile s test (x.place.rest s) }

def emitAt (line : Nat) (l : Lexeme) : Scan Unit :=
  modify fun x => { x with tokens := x.tokens.push ⟨l, line⟩ }

/-- Put a token before the one with number `i`. -/
def insert (i line : Nat) (l : Lexeme) : Scan Unit :=
  modify fun x => { x with tokens := x.tokens.insertIdxIfInBounds i ⟨l, line⟩ }

/-- A token of `n` characters at the present place. -/
def emitHere (l : Lexeme) (n : Nat) : Scan Unit := do
  let line := (← get).place.line
  skip n
  emitAt line l

def inFlow : Scan Bool := do return (← get).flowLevel > 0

def allowKey (b : Bool) : Scan Unit := modify fun x => { x with keyAllowed := b }

/-- Forget the innermost key candidate, unless it is required. -/
def dropCandidate : Scan Unit := do
  match (← get).candidates with
  | some k :: rest =>
    if k.required then fail
    modify fun x => { x with candidates := none :: rest }
  | _ => pure ()

/-- The next token may be a key. -/
def markCandidate : Scan Unit := do
  let x ← get
  if x.keyAllowed then
    dropCandidate
    let k : KeyCandidate :=
      { token := x.tokens.size, place := x.place,
        required := x.flowLevel = 0 ∧ x.indent = x.place.column }
    modify fun x => { x with candidates := some k :: x.candidates.tail }

/-- The key candidate, if it is in this line and near enough. -/
def candidate? : Scan (Option KeyCandidate) := do
  let x ← get
  match x.candidates with
  | some k :: rest =>
    if k.place.line < x.place.line ∨ k.place.index + 1024 < x.place.index then
      if k.required then fail
      modify fun x => { x with candidates := none :: rest }
      return none
    else return some k
  | _ => return none

/-- Open a block collection at `column` if that is further in. -/
def indentTo (column : Nat) (place : Place) (number : Option Nat) (l : Lexeme) : Scan Unit := do
  let x ← get
  if x.flowLevel = 0 ∧ x.indent < column then
    if x.outerIndents.length + 1 > maxDepth then fail
    modify fun x => { x with outerIndents := x.indent :: x.outerIndents, indent := column }
    match number with
    | some i => insert i place.line l
    | none => emitAt place.line l

/-- Close the block collections that are further in than `column`. -/
def unindentTo (column : Int) : Scan Unit := do
  if !(← inFlow) then close (← get).outerIndents
where
  close : List Int → Scan Unit
    | [] => pure ()
    | outer :: rest => do
      if (← get).indent > column then
        emitAt (← get).place.line .blockEnd
        modify fun x => { x with indent := outer, outerIndents := rest }
        close rest

end Scan

end CoffWorks.Yaml
