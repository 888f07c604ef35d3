import CoffWorks.Bytes.Basic

namespace CoffWorks.Yaml

namespace Timestamp

def digit? (b : UInt8) : Option Nat := if 48 ≤ b ∧ b ≤ 57 then some (b.toNat - 48) else none

/-- A number of one or two digits below `bound`. -/
def number? (bound : Nat) : List UInt8 → Option (Nat × List UInt8)
  | a :: b :: rest => do
    let x ← digit? a
    match digit? b with
    | some y => if 10 * x + y < bound then some (10 * x + y, rest) else none
    | none => if x < bound then some (x, b :: rest) else none
  | [a] => do
    let x ← digit? a
    if x < bound then some (x, []) else none
  | [] => none

def skip? (c : UInt8) : List UInt8 → Option (List UInt8)
  | d :: rest => if d = c then some rest else none
  | [] => none

def isLeap (year : Nat) : Bool := year % 4 = 0 ∧ (year % 100 ≠ 0 ∨ year % 400 = 0)

def daysIn (year month : Nat) : Nat :=
  if month = 2 then (if isLeap year then 29 else 28)
  else if [4, 6, 9, 11].contains month then 30
  else 31

/-- Year, month and day; the year has four digits. -/
def date? : List UInt8 → Option (List UInt8)
  | a :: b :: c :: d :: rest => do
    let year := 1000 * (← digit? a) + 100 * (← digit? b) + 10 * (← digit? c) + (← digit? d)
    let (month, rest) ← number? 13 (← skip? 45 rest)
    let (day, rest) ← number? 32 (← skip? 45 rest)
    if month = 0 ∨ day = 0 ∨ day > daysIn year month then none else some rest
  | _ => none

/-- A fraction of a second, if there is one. -/
def dropFraction : List UInt8 → List UInt8
  | c :: d :: rest =>
    if (c = 46 ∨ c = 44) ∧ (digit? d).isSome then rest.dropWhile fun x => (digit? x).isSome
    else c :: d :: rest
  | b => b

/-- Hours, minutes, seconds and a fraction. -/
def time? (b : List UInt8) : Option (List UInt8) := do
  let (_, b) ← number? 24 b
  let (_, b) ← number? 60 (← skip? 58 b)
  let (_, b) ← number? 60 (← skip? 58 b)
  return dropFraction b

/-- `Z`, or a sign with two digits each for hours and minutes. -/
def isZone : List UInt8 → Bool
  | [90] => true
  | [sign, a, b, 58, c, d] =>
    (sign = 43 ∨ sign = 45) && (match digit? a, digit? b, digit? c, digit? d with
      | some a, some b, some c, some d => 10 * a + b ≤ 24 ∧ 10 * c + d ≤ 60
      | _, _, _, _ => false)
  | _ => false

end Timestamp

open Timestamp in
/-- Whether a text is a point in time: a date, or a date with a time after `T` and a zone, or after spaces
and without one. -/
def isTimestamp (b : Bytes) : Bool :=
  match date? b.toList with
  | none => false
  | some [] => true
  | some (c :: rest) =>
    if c = 84 ∨ c = 116 then (time? rest).any isZone
    else if c = 32 then (time? (rest.dropWhile (· = 32))).any List.isEmpty
    else false

end CoffWorks.Yaml
