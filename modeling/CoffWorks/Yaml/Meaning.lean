import CoffWorks.Text.Literal
import CoffWorks.Yaml.Timestamp

namespace CoffWorks.Yaml

/-- A scalar's value: nothing, a truth value, a number, a point in time, or else its text. -/
inductive Meaning where
  | null
  | bool (b : Bool)
  | int (n : Int)
  | real (x : Float)
  | timestamp
  | text

namespace Tag

def null : Bytes := "!!null"
def bool : Bytes := "!!bool"
def int : Bytes := "!!int"
def float : Bytes := "!!float"
def timestamp : Bytes := "!!timestamp"
def str : Bytes := "!!str"
def binary : Bytes := "!!binary"
def merge : Bytes := "!!merge"
def seq : Bytes := "!!seq"
def map : Bytes := "!!map"

/-- The start of the tags of the common schema when written in full. -/
def schema : Bytes := "tag:yaml.org,2002:"

/-- Tags of the common schema start with two marks. -/
def short (tag : Bytes) : Bytes :=
  if tag.startsWith schema then ("!!" : Bytes) ++ tag.drop schema.size else tag

end Tag

namespace Meaning

/-- The tag of a meaning. -/
def tag : Meaning → Bytes
  | null => Tag.null
  | bool _ => Tag.bool
  | int _ => Tag.int
  | real _ => Tag.float
  | timestamp => Tag.timestamp
  | text => Tag.str

/-- Words with a meaning of their own. -/
def words : List (String × Meaning) :=
  [("", null), ("~", null), ("null", null), ("Null", null), ("NULL", null),
   ("true", bool true), ("True", bool true), ("TRUE", bool true),
   ("false", bool false), ("False", bool false), ("FALSE", bool false),
   (".nan", real (0.0 / 0.0)), (".NaN", real (0.0 / 0.0)), (".NAN", real (0.0 / 0.0)),
   (".inf", real (1.0 / 0.0)), (".Inf", real (1.0 / 0.0)), (".INF", real (1.0 / 0.0)),
   ("+.inf", real (1.0 / 0.0)), ("+.Inf", real (1.0 / 0.0)), ("+.INF", real (1.0 / 0.0)),
   ("-.inf", real (-1.0 / 0.0)), ("-.Inf", real (-1.0 / 0.0)), ("-.INF", real (-1.0 / 0.0))]

def isDigit (b : UInt8) : Bool := 48 ≤ b ∧ b ≤ 57

def isSign (b : UInt8) : Bool := b = 43 ∨ b = 45

/-- A number in 64 bits: with a sign in two's complement, without one also above that. Without a
sign `digits?` gives the number below a limit. -/
def word64? (digits? : Nat → List UInt8 → Option Nat) : List UInt8 → Option Int
  | 45 :: ds => (digits? 0x8000000000000001 ds).map fun n => -(n : Int)
  | 43 :: ds => (digits? 0x8000000000000000 ds).map fun n => (n : Int)
  | ds => (digits? UInt64.size ds).map fun n => (n : Int)

/-- Digits in `base`, at least one. -/
def digitsIn? (base limit : Nat) (ds : List UInt8) : Option Nat :=
  if ds.isEmpty then none else Text.digitsValue? limit base ds

/-- An integer: a literal with an optional sign; after `0b` and `0o` the sign may also follow. -/
def integer? (b : List UInt8) : Option Int :=
  match word64? Text.literalValue? b with
  | some n => some n
  | none =>
    match b with
    | 48 :: 98 :: ds => word64? (digitsIn? 2) ds
    | 48 :: 111 :: ds => word64? (digitsIn? 8) ds
    | _ => none

/-- The digits at the start, and what follows. -/
def spanDigits (b : List UInt8) : List UInt8 × List UInt8 := b.span isDigit

/-- More digits than this make no difference to a float, except whether one of them counts. -/
def maxDigits : Nat := 800

/-- The float with these digits, the last of which counts `10 ^ e`, if it is in range. -/
def scaled? (digits : List UInt8) (e : Int) : Option Float :=
  let digits := digits.dropWhile (· = 48)
  let size : Int := digits.length
  if digits.isEmpty ∨ size + e < -400 then some 0.0
  else if size + e > 400 then none
  else
    let tail := digits.drop maxDigits
    let shown := digits.take maxDigits ++ if tail.all (· = 48) then [] else [49]
    let m := shown.foldl (fun n d => 10 * n + (d.toNat - 48)) 0
    let e := e + size - shown.length
    let x := if e < 0 then Float.ofScientific m true (-e).toNat else Float.ofScientific m false e.toNat
    if x.isInf then none else some x

/-- The exponent at the end of a number, zero if there is nothing. -/
def exponent? : List UInt8 → Option Int
  | [] => some 0
  | e :: rest =>
    if e = 101 ∨ e = 69 then
      let digits (ds : List UInt8) : Option Nat :=
        if ds.isEmpty ∨ !ds.all isDigit then none
        else some ((Text.digitsValue? 100000 10 ds).getD 100000)
      match rest with
      | 45 :: ds => (digits ds).map fun n => -(n : Int)
      | 43 :: ds => (digits ds).map fun n => (n : Int)
      | ds => (digits ds).map fun n => (n : Int)
    else none

/-- A number with a point or an exponent, or with neither, without a sign. -/
def unsignedReal? (b : List UInt8) : Option Float := do
  let (whole, rest) := spanDigits b
  let (places, rest) := match rest with
    | 46 :: r => spanDigits r
    | r => ([], r)
  if whole.isEmpty ∧ places.isEmpty then none
  let e ← exponent? rest
  scaled? (whole ++ places) (e - places.length)

/-- A number with a point or an exponent. -/
def real? : List UInt8 → Option Float
  | 45 :: b => (unsignedReal? b).map fun x => -x
  | 43 :: b => unsignedReal? b
  | b => unsignedReal? b

/-- Underscores may stand anywhere in a number that starts with a digit or a sign. -/
def ofNumber (b : List UInt8) : Meaning :=
  let digits := b.filter (· ≠ 95)
  match integer? digits with
  | some n => int n
  | none =>
    match real? digits with
    | some x => real x
    | none => text

/-- A number that starts with its point has underscores between digits only. -/
def ofFraction (b : List UInt8) : Meaning :=
  if b.contains 95 ∧ ¬ Text.underscoresFit b then text
  else
    match real? (b.filter (· ≠ 95)) with
    | some x => real x
    | none => text

/-- The meaning of a text; `dated` if it may be a point in time. -/
def ofText (dated : Bool) (b : Bytes) : Meaning :=
  match words.find? fun w => w.1.toUTF8 == b with
  | some w => w.2
  | none =>
    let c := b.byteAt 0
    if c = 46 then ofFraction b.toList
    else if isDigit c ∨ isSign c then
      if dated ∧ isTimestamp b then timestamp else ofNumber b.toList
    else text

/-- The meaning of a scalar with a tag, or with none if that is empty. -/
def ofTagged (tag b : Bytes) : Except Unit (Bytes × Meaning) :=
  if [Tag.null, Tag.bool, Tag.int, Tag.float, Tag.timestamp, .empty].contains tag then
    let m := ofText (tag.isEmpty ∨ tag = Tag.timestamp) b
    if tag.isEmpty ∨ m.tag = tag then .ok (m.tag, m)
    else
      match m with
      | int n =>
        if tag = Tag.float ∧ n < 0x8000000000000000 then .ok (Tag.float, real (Float.ofInt n))
        else .error ()
      | _ => .error ()
  else .ok (tag, text)

end Meaning

/-- Words that were truth values once. -/
def oldTruthWords : List String :=
  ["y", "Y", "yes", "Yes", "YES", "on", "On", "ON", "n", "N", "no", "No", "NO", "off", "Off", "OFF"]

/-- Numbers in base 60, as of hours, minutes and seconds. -/
def isSexagesimal (b : Bytes) : Bool :=
  let b := match b.toList with
    | c :: rest => if Meaning.isSign c then rest else c :: rest
    | [] => []
  match b with
  | d :: rest =>
    Meaning.isDigit d &&
      (let rest := rest.dropWhile fun c => Meaning.isDigit c ∨ c = 95
       rest.head? = some 58 && groups rest (rest.length + 1))
  | [] => false
where
  /-- One or two digits after each colon, then perhaps a fraction. -/
  groups : List UInt8 → Nat → Bool
    | _, 0 => false
    | [], _ + 1 => true
    | 46 :: rest, _ + 1 => rest.all fun c => Meaning.isDigit c ∨ c = 95
    | 58 :: d :: e :: rest, fuel + 1 =>
      if Meaning.isDigit e then 48 ≤ d ∧ d ≤ 53 ∧ groups rest fuel
      else Meaning.isDigit d ∧ groups (e :: rest) fuel
    | [58, d], _ + 1 => Meaning.isDigit d
    | _, _ + 1 => false

end CoffWorks.Yaml
