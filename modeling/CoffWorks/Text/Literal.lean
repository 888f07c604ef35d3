import CoffWorks.Bytes.Basic

namespace CoffWorks.Text

def lowerByte (b : UInt8) : UInt8 := if 65 ≤ b ∧ b ≤ 90 then b + 32 else b

/-- What a digit or letter counts, whatever the base. -/
def digitValue? (b : UInt8) : Option Nat :=
  if 48 ≤ b ∧ b ≤ 57 then some (b.toNat - 48)
  else if 97 ≤ lowerByte b ∧ lowerByte b ≤ 122 then some ((lowerByte b).toNat - 87)
  else none

/-- The number below `limit` with these digits in `base`, most significant first. -/
def digitsValue? (limit base : Nat) (digits : List UInt8) : Option Nat :=
  digits.foldlM (fun n b => do
    let d ← digitValue? b
    if d < base ∧ n * base + d < limit then some (n * base + d) else none) 0

/-- The base a literal announces, and the digits that follow. -/
def splitBase : List UInt8 → Nat × List UInt8
  | 48 :: m :: d :: rest =>
    if lowerByte m = 98 then (2, d :: rest)
    else if lowerByte m = 111 then (8, d :: rest)
    else if lowerByte m = 120 then (16, d :: rest)
    else (8, m :: d :: rest)
  | 48 :: rest => (8, rest)
  | ds => (10, ds)

/-- Whether each underscore stands between two digits; a base mark counts as a digit. -/
def underscoresFit (literal : List UInt8) : Bool :=
  match literal with
  | 48 :: m :: rest =>
    if lowerByte m = 120 then go true true rest
    else if lowerByte m = 98 ∨ lowerByte m = 111 then go false true rest
    else go false false literal
  | _ => go false false literal
where
  /-- `hex` allows letters as digits, `afterDigit` tells what came before. -/
  go (hex afterDigit : Bool) : List UInt8 → Bool
    | [] => true
    | 95 :: rest => afterDigit && (match rest with | [] => false | d :: _ => isDigit hex d) && go hex false rest
    | d :: rest => go hex (isDigit hex d) rest
  isDigit (hex : Bool) (b : UInt8) : Bool :=
    (48 ≤ b ∧ b ≤ 57) ∨ (hex ∧ 97 ≤ lowerByte b ∧ lowerByte b ≤ 102)

/-- The value of a literal below `limit`: decimal, or with a base mark (`0x`, `0o`, `0b`, or a leading `0`
for octal) and with underscores between digits. -/
def literalValue? (limit : Nat) (literal : List UInt8) : Option Nat :=
  if literal.isEmpty then none
  else if literal.contains 95 ∧ ¬ underscoresFit literal then none
  else
    let (base, digits) := splitBase literal
    digitsValue? limit base (digits.filter (· ≠ 95))

/-- The value of a literal below `2 ^ bits`. -/
def literal? (bits : Nat) (b : Bytes) : Option Nat := literalValue? (1 <<< bits) b.toList

/-- The value of a decimal number below `2 ^ bits`: digits only, at least one. -/
def decimal? (bits : Nat) (b : Bytes) : Option Nat :=
  if b.isEmpty then none else digitsValue? (1 <<< bits) 10 b.toList

end CoffWorks.Text
