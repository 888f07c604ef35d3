import CoffWorks.Yaml.Token

namespace CoffWorks.Yaml.Scan

/-- The characters with a property, as a text. -/
def textWhile (test : Char → Bool) : Scan Bytes := fun s => do
  let start := (← get).place.index
  modify fun x => { x with place := x.place.skipWhile s test (x.place.rest s) }
  let stop := (← get).place.index
  return Text.ofChars (s.chars.extract start stop).toList

/-- What may follow an anchor's name besides blanks and line ends. -/
def afterAnchor : List Char := ['?', ':', ',', ']', '\x7d', '%', '@', '\x60']

/-- The name of an anchor or an alias, after the indicator. -/
def anchorName : Scan Bytes := do
  skip
  let name ← textWhile isWordChar
  let c ← peek
  if name.isEmpty ∨ ¬ (endsWord c ∨ afterAnchor.contains c) then fail
  return name

def isUriChar (c : Char) : Bool := isWordChar c ∨ ";/?:@&=+$,.!~*'()[]%".toList.contains c

/-- Read a URI onto `acc`. Percent signs write bytes, and the bytes of a character stand together:
`due` of them are to come. -/
def uri : Nat → Nat → Bytes → Scan Bytes
  | 0, _, acc => pure acc
  | fuel + 1, due, acc => do
    let c ← peek
    if c = '%' then
      match Quoted.hexValue? (← peek 1), Quoted.hexValue? (← peek 2) with
      | some hi, some lo =>
        let octet := (16 * hi + lo).toUInt8
        if due > 0 then
          if octet &&& 0xc0 ≠ 0x80 then fail
          skip 3
          uri fuel (due - 1) (acc.push octet)
        else
          match Encoding.utf8.width? (Bytes.ofOctet octet) 0 with
          | none => fail
          | some width =>
            skip 3
            uri fuel (width - 1) (acc.push octet)
      | _, _ => fail
    else if due > 0 then fail
    else if isUriChar c then
      skip
      uri fuel 0 (Text.pushChar acc c)
    else return acc

def readUri (acc : Bytes) : Scan Bytes := do
  uri ((← get).place.rest (← read)) 0 acc

/-- `!`, `!!` or `!name!`; without the second mark it is the start of something else. -/
def tagHandle : Scan Bytes := do
  if (← peek) ≠ '!' then fail
  skip
  let name ← textWhile isWordChar
  if (← peek) = '!' then
    skip
    return ("!" : Bytes) ++ name ++ ("!" : Bytes)
  else return ("!" : Bytes) ++ name

/-- A tag: `!<uri>`, a handle with a suffix, or `!` with a suffix. -/
def tag : Scan Lexeme := do
  let l ← form
  if !endsWord (← peek) then fail
  return l
where
  form : Scan Lexeme := do
    if (← peek 1) = '<' then
      skip 2
      let suffix ← readUri .empty
      if suffix.isEmpty ∨ (← peek) ≠ '>' then fail
      skip
      return .tag .empty suffix
    let handle ← tagHandle
    if handle.size > 1 ∧ handle.byteAt (handle.size - 1) = 33 then
      let suffix ← readUri .empty
      if suffix.isEmpty then fail
      return .tag handle suffix
    let suffix ← readUri (handle.drop 1)
    return if suffix.isEmpty then .tag .empty "!" else .tag "!" suffix

/-- A number of at most two digits. -/
def versionNumber : Scan Nat := do
  let digits ← textWhile Char.isDigit
  if digits.isEmpty ∨ digits.size > 2 then fail
  return digits.foldl (fun n d => 10 * n + (d.toNat - 48)) 0

/-- What stands after the percent sign of a directive. -/
def directive : Scan Lexeme := do
  skip
  let name ← textWhile isWordChar
  if name.isEmpty ∨ !endsWord (← peek) then fail
  let l ← body name
  skipWhile isBlank
  if (← peek) = '#' then skipWhile fun c => !endsLine c
  if !endsLine (← peek) then fail
  if isBreak (← peek) then skipLine
  return l
where
  body (name : Bytes) : Scan Lexeme := do
    skipWhile isBlank
    if name = "YAML" then
      let major ← versionNumber
      if (← peek) ≠ '.' then fail
      skip
      return .version major (← versionNumber)
    else if name = "TAG" then
      let handle ← tagHandle
      if handle ≠ "!" ∧ handle.byteAt (handle.size - 1) ≠ 33 then fail
      if !isBlank (← peek) then fail
      skipWhile isBlank
      let start ← readUri .empty
      if start.isEmpty ∨ !endsWord (← peek) then fail
      return .tagDirective handle start
    else fail

end CoffWorks.Yaml.Scan
