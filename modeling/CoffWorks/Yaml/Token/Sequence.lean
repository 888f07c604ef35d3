import CoffWorks.Yaml.Token.Property

namespace CoffWorks.Yaml

namespace Scan

/-- How far ahead comments are looked for. -/
def lookahead : Nat := 512

def toLineEnd : Scan Unit := skipWhile fun c => !endsLine c

/-- How many characters before the next comment, if only blanks and line ends come first. -/
def commentAhead? (k : Nat) : Scan (Option Nat) := do
  let s ← read
  let i := (← get).place.index
  return go s i k (lookahead - k)
where
  go (s : Stream) (i k : Nat) : Nat → Option Nat
    | 0 => none
    | fuel + 1 =>
      let c := s.get (i + k)
      if c = '#' then some k
      else if isBlank c ∨ c = '\n' ∨ c = '\r' then go s i (k + 1) fuel
      else none

/-- Past a comment and those after it, up to the end of the last one's line. -/
def comments : Nat → Scan Unit
  | 0 => pure ()
  | fuel + 1 => do
    toLineEnd
    match ← commentAhead? 1 with
    | none => pure ()
    | some k =>
      toIndex ((← get).place.index + k) k
      comments fuel
where
  toIndex (target : Nat) : Nat → Scan Unit
    | 0 => pure ()
    | fuel + 1 => do
      if (← get).place.index < target then
        if isBreak (← peek) then skipLine else skip
        toIndex target fuel

/-- Past blanks, comments and line ends. -/
def toNextToken : Nat → Scan Unit
  | 0 => pure ()
  | fuel + 1 => do
    if (← get).place.index = 0 ∧ (← peek) = '\ufeff' then skip
    let x ← get
    let tabs : Bool := x.flowLevel > 0 ∨ ¬ x.keyAllowed
    skipWhile fun c => c = ' ' ∨ (tabs ∧ c = '\t')
    if (← peek) = '#' then comments fuel
    if isBreak (← peek) then
      skipLine
      if !(← inFlow) then allowKey true
      toNextToken fuel

/-- Past a comment that follows a token in its line. -/
def lineComment : Scan Unit := do
  if !(← get).place.afterBreak then
    let s ← read
    let i := (← get).place.index
    match blanks s i 0 lookahead with
    | some k =>
      skip k
      toLineEnd
    | none => pure ()
where
  blanks (s : Stream) (i k : Nat) : Nat → Option Nat
    | 0 => none
    | fuel + 1 =>
      let c := s.get (i + k)
      if c = '#' then some k else if isBlank c then blanks s i (k + 1) fuel else none

def streamEnd : Scan Unit := do
  unindentTo (-1)
  dropCandidate
  allowKey false
  emitAt (← get).place.line .streamEnd

def directiveToken : Scan Unit := do
  unindentTo (-1)
  dropCandidate
  allowKey false
  let line := (← get).place.line
  emitAt line (← directive)

def documentMarker (l : Lexeme) : Scan Unit := do
  unindentTo (-1)
  dropCandidate
  allowKey false
  emitHere l 3

def openFlow (l : Lexeme) : Scan Unit := do
  markCandidate
  if (← get).flowLevel + 1 > maxDepth then fail
  modify fun x => { x with flowLevel := x.flowLevel + 1, candidates := none :: x.candidates }
  allowKey true
  emitHere l 1

def closeFlow (l : Lexeme) : Scan Unit := do
  dropCandidate
  if ← inFlow then
    modify fun x => { x with flowLevel := x.flowLevel - 1, candidates := x.candidates.tail }
  allowKey false
  emitHere l 1

def flowEntry : Scan Unit := do
  dropCandidate
  allowKey true
  emitHere .flowEntry 1

/-- In block context a collection may start here. -/
def openBlock (l : Lexeme) : Scan Unit := do
  let x ← get
  if x.flowLevel = 0 then
    if !x.keyAllowed then fail
    indentTo x.place.column x.place none l

def blockEntry : Scan Unit := do
  openBlock .blockSequence
  dropCandidate
  allowKey true
  emitHere .blockEntry 1

def keyToken : Scan Unit := do
  openBlock .blockMapping
  dropCandidate
  allowKey (!(← inFlow))
  emitHere .key 1

def valueToken : Scan Unit := do
  match ← candidate? with
  | some k =>
    insert k.token k.place.line .key
    indentTo k.place.column k.place (some k.token) .blockMapping
    modify fun x => { x with candidates := none :: x.candidates.tail }
    allowKey false
  | none =>
    openBlock .blockMapping
    allowKey (!(← inFlow))
  emitHere .value 1

/-- A token that may be a key, read by `reader`. -/
def propertyToken (reader : Scan Lexeme) : Scan Unit := do
  markCandidate
  allowKey false
  let line := (← get).place.line
  emitAt line (← reader)

/-- Take over a text and the place behind it. -/
def settle {α : Type} (r : Except Unit (Place × α)) : Scan α := do
  match r with
  | .ok (p, a) =>
    modify fun x => { x with place := p }
    return a
  | .error _ => fail

def quoted (single : Bool) : Scan Lexeme := do
  skip
  let s ← read
  let p := (← get).place
  return .scalar (← settle (Quoted.read s single (p.rest s) p .empty)) false

def plain : Scan Lexeme := do
  let s ← read
  let x ← get
  let (text, broken) ←
    settle (Plain.read s (x.flowLevel > 0) (x.indent + 1) (x.place.rest s) x.place .empty {})
  if broken then allowKey true
  return .scalar text true

def blockScalar (literal : Bool) : Scan Unit := do
  dropCandidate
  allowKey true
  let line := (← get).place.line
  skip
  let s ← read
  let x ← get
  emitAt line (.scalar (← settle (Block.read s literal x.indent x.place)) false)

/-- Characters a plain scalar does not start with. -/
def indicators : List Char := "-?:,[]\x7b\x7d#&*!|>'\"%@\x60".toList

/-- The token that starts with `c`, in the middle of a document. -/
def contentToken (c : Char) : Scan Unit := do
  let d ← peek 1
  let flow ← inFlow
  if c = '[' then openFlow .flowSequence
  else if c = '\x7b' then openFlow .flowMapping
  else if c = ']' then closeFlow .flowSequenceEnd
  else if c = '\x7d' then closeFlow .flowMappingEnd
  else if c = ',' then flowEntry
  else if c = '-' ∧ endsWord d then blockEntry
  else if c = '?' ∧ (flow ∨ endsWord d) then keyToken
  else if c = ':' ∧ (flow ∨ endsWord d) then valueToken
  else if c = '*' then propertyToken (.aliasOf <$> anchorName)
  else if c = '&' then propertyToken (.anchor <$> anchorName)
  else if c = '!' then propertyToken tag
  else if c = '|' ∧ ¬ flow then blockScalar true
  else if c = '>' ∧ ¬ flow then blockScalar false
  else if c = '\'' then propertyToken (quoted true)
  else if c = '"' then propertyToken (quoted false)
  else if ¬ (endsWord c ∨ indicators.contains c) ∨ (c = '-' ∧ ¬ isBlank d)
      ∨ (¬ flow ∧ (c = '?' ∨ c = ':') ∧ ¬ endsWord d) then propertyToken plain
  else fail
  if (← get).tokens.back?.map Token.lexeme ≠ some .blockEntry then lineComment

/-- Fetch a token, with those that go before it; false at the end of the stream. -/
def fetch : Scan Bool := do
  modify fun x => { x with settled := x.tokens.size }
  let s ← read
  toNextToken ((← get).place.rest s)
  unindentTo (← get).place.column
  let p := (← get).place
  if s.broken ∧ p.index + 4 > s.chars.size then fail
  let c ← peek
  if isEnd c then
    streamEnd
    return false
  if p.column = 0 ∧ c = '%' then directiveToken
  else if p.atMarker s then documentMarker (if c = '-' then .documentStart else .documentEnd)
  else contentToken c
  if s.broken ∧ (← get).place.index ≥ s.chars.size then fail
  return true

def fetchAll : Nat → Scan Unit
  | 0 => pure ()
  | fuel + 1 => do if ← fetch then fetchAll fuel

end Scan

/-- All tokens of a stream. -/
def Tokens.ofStream (s : Stream) : Tokens :=
  match (Scan.fetchAll (s.chars.size + 1)).run s { tokens := #[⟨.streamStart, 0⟩] } with
  | .ok _ x => ⟨x.tokens, none⟩
  | .error _ x => ⟨x.tokens, some x.settled⟩

end CoffWorks.Yaml
