import CoffWorks.Bytes.Basic

namespace CoffWorks.Text.Base64

def letters : Bytes := "ABCDEFGHIJKLMNOPQRSTUVWXYZabcdefghijklmnopqrstuvwxyz0123456789+/"

def letter (n : Nat) : UInt8 := letters.byteAt (n % 64)

def value? (c : UInt8) : Option Nat := letters.indexFrom c 0

/-- The four letters for up to three bytes. -/
def group (a : UInt8) (b c : Option UInt8) : List UInt8 :=
  let n := a.toNat * 65536 + (b.getD 0).toNat * 256 + (c.getD 0).toNat
  [letter (n / 262144), letter (n / 4096), if b.isSome then letter (n / 64) else 61,
   if c.isSome then letter n else 61]

def encodeFrom (b : Bytes) : Nat → Nat → Bytes → Bytes
  | 0, _, acc => acc
  | fuel + 1, pos, acc =>
    if pos < b.size then
      let at? (i : Nat) : Option UInt8 := if i < b.size then some (b.byteAt i) else none
      encodeFrom b fuel (pos + 3)
        ((group (b.byteAt pos) (at? (pos + 1)) (at? (pos + 2))).foldl ByteArray.push acc)
    else acc

/-- Bytes in base 64: four letters for three bytes, filled up with equals signs. -/
def encode (b : Bytes) : Bytes := encodeFrom b (b.size / 3 + 1) 0 .empty

/-- The bytes of groups of four letters; only the last group may be filled up. -/
def decodeGroups : List UInt8 → Bytes → Option Bytes
  | [], acc => some acc
  | [a, b, 61, 61], acc => do
    let n := (← value? a) * 64 + (← value? b)
    some (acc.push (n / 16).toUInt8)
  | [a, b, c, 61], acc => do
    let n := ((← value? a) * 64 + (← value? b)) * 64 + (← value? c)
    some ((acc.push (n / 1024).toUInt8).push (n / 4).toUInt8)
  | a :: b :: c :: d :: rest, acc =>
    match value? a, value? b, value? c, value? d with
    | some a, some b, some c, some d =>
      let n := ((a * 64 + b) * 64 + c) * 64 + d
      decodeGroups rest (((acc.push (n / 65536).toUInt8).push (n / 256).toUInt8).push n.toUInt8)
    | _, _, _, _ => none
  | _, _ => none

/-- The bytes a text stands for. Line breaks do not count. -/
def decode? (b : Bytes) : Option Bytes :=
  decodeGroups (b.toList.filter fun c => c ≠ 10 ∧ c ≠ 13) .empty

end CoffWorks.Text.Base64
