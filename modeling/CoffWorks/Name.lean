import CoffWorks.Failure
import CoffWorks.Text.Literal

namespace CoffWorks

/-- The eight-byte name field of a record. It holds a short name itself, or the offset of a long one in the
string table, which symbols and sections mark in different ways: symbols by four zero bytes before the
offset, sections by a slash and the offset in decimal. -/
inductive Name where
  /-- No name at all. -/
  | unset
  /-- Up to eight bytes, filled up with zeros. -/
  | short (field : Field 8)
  /-- An offset into the string table. -/
  | long (offset : UInt32)
deriving DecidableEq, Inhabited

/-- The ways to write a name. -/
inductive NameMode where
  | invalid | short | offset
deriving DecidableEq

namespace NameMode

def label : NameMode → Bytes
  | invalid => "invalid"
  | short => "short"
  | offset => "offset"

def ofCode (code : UInt8) : NameMode :=
  if code = 1 then short else if code = 2 then offset else invalid

end NameMode

namespace Name

/-- The size of the field. -/
def fieldSize : Nat := 8

/-- The largest offset that a section can express. -/
def maxOffset : Nat := 9999999

def ofBytes (b : Bytes) : Attempt Name :=
  if b.size > fieldSize then
    reject { phase := .construct, kind := .invalidInput, path := ["name"], field := "short name",
             value := .int b.size,
             detail := Text.decimal b.size ++ " bytes exceeds " ++ Text.decimal fieldSize }
  else .ok (short (.pad 8 b))

def ofOffset (offset : UInt32) : Attempt Name :=
  if offset.toNat > maxOffset then
    reject { phase := .construct, kind := .invalidInput, path := ["name"],
             field := "string table offset", value := .int offset.toNat,
             detail := "offset " ++ Text.decimal offset.toNat ++ " exceeds " ++ Text.decimal maxOffset }
  else .ok (long offset)

def mode : Name → NameMode
  | unset => .invalid
  | short _ => .short
  | long _ => .offset

def isShort : Name → Bool
  | short _ => true
  | _ => false

/-- The string table offset, 0 for other names. -/
def offset : Name → UInt32
  | long o => o
  | _ => 0

/-- The bytes of a short name, zeros for other names. -/
def field : Name → Field 8
  | short f => f
  | _ => .pad 8 .empty

/-- How a section refers to the string table. -/
def slashed (offset : UInt32) : Bytes := "/" ++ Text.decimal offset.toNat

/-- The text of a short name, or the reference of a long one. -/
def text : Name → Bytes
  | unset => .empty
  | short f => f.bytes.untilZero
  | long o => slashed o

/-- The name in a symbol's field. -/
def ofSymbolField (f : Field 8) : Attempt Name :=
  if f.bytes.u32At 0 = 0 then ofOffset (f.bytes.u32At 4) else .ok (short f)

/-- The offset in a section's field, if it has the form of a reference. -/
def sectionOffset? (f : Field 8) : Option UInt32 := do
  let text := f.bytes.untilZero
  if text.startsWith "/" then
    let v ← Text.decimal? 32 (text.drop 1)
    if v ≤ maxOffset then some (UInt32.ofNat v) else none
  else none

/-- The name in a section's field. -/
def ofSectionField (f : Field 8) : Name :=
  match sectionOffset? f with
  | some offset => long offset
  | none => short f

def symbolField : Name → Field 8
  | unset => .pad 8 .empty
  | short f => f
  | long o => .pad 8 ((Bytes.zeros 4).push32 o)

def sectionField : Name → Attempt (Field 8)
  | unset => reject (.invalidInput .encode "uninitialized name")
  | short f => .ok f
  | long o =>
    if (slashed o).size > fieldSize then
      reject (.overflow .encode ["section name"] (.int o.toNat) "8-byte name field")
    else .ok (.pad 8 (slashed o))

end Name

end CoffWorks
