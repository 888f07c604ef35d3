import CoffWorks.Failure
import CoffWorks.Text.Literal

namespace CoffWorks.Text.Hex

def digit (n : Nat) : UInt8 := (hexDigit (n % 16)).toNat.toUInt8

/-- Two digits for each byte. -/
def encode (b : Bytes) : Bytes :=
  b.foldl (fun acc x => (acc.push (digit (x.toNat / 16))).push (digit x.toNat)) .empty

def value? (c : UInt8) : Option Nat := (digitValue? c).filter (· < 16)

/-- A character by its number and, if it can be seen, as itself. -/
def describe (c : Char) : Bytes :=
  "U+" ++ upperHex 4 c.toNat ++
    (if isPrintable c then pushChar " '" c ++ ("'" : Bytes) else (.empty : Bytes))

def badDigit (c : UInt8) : Failure :=
  .plain ("encoding/hex: invalid byte: " ++ describe (Char.ofNat c.toNat))

def oddLength : Failure := .plain "encoding/hex: odd length hex string"

/-- The bytes a text stands for. A wrong digit is reported rather than one that is missing. -/
def decodeFrom (b : Bytes) : Nat → Nat → Bytes → Attempt Bytes
  | 0, _, acc => .ok acc
  | fuel + 1, pos, acc =>
    if pos + 1 < b.size then
      match value? (b.byteAt pos), value? (b.byteAt (pos + 1)) with
      | some hi, some lo => decodeFrom b fuel (pos + 2) (acc.push (16 * hi + lo).toUInt8)
      | none, _ => .error (badDigit (b.byteAt pos))
      | some _, none => .error (badDigit (b.byteAt (pos + 1)))
    else if pos < b.size then
      .error (if (value? (b.byteAt pos)).isNone then badDigit (b.byteAt pos) else oddLength)
    else .ok acc

def decode (b : Bytes) : Attempt Bytes := decodeFrom b (b.size / 2 + 1) 0 .empty

end CoffWorks.Text.Hex
