import CoffWorks.Failure

namespace CoffWorks

/-- A growing sequence of bytes with width-checked integer appends. Positions and counts are 64-bit signed
words, and their sums wrap: a wrapped sum passes the bound check and the access that follows breaks off
(`Failure.trap`). -/
structure Buffer where
  data : Bytes := .empty
deriving DecidableEq

namespace Buffer

/-- The widest integer in bytes. -/
def maxWidth : Nat := 8

/-- The largest block of memory that can be asked for. -/
def maxCapacity : Nat := 0x1000000000000

/-- An empty buffer with room for `capacity` bytes. -/
def create (capacity : Int64) : Attempt Buffer :=
  if capacity < 0 ∨ capacity.toInt > maxCapacity then .error .trap else .ok {}

def size (b : Buffer) : Nat := b.data.size

def push (b : Buffer) (x : UInt8) : Buffer := ⟨b.data.push x⟩

def append (b : Buffer) (p : Bytes) : Buffer := ⟨b.data ++ p⟩

/-- Append `n` zero bytes, none if `n` is negative. -/
def appendZeros (b : Buffer) (n : Int64) : Buffer := ⟨b.data.pushZeros n.toInt.toNat⟩

def checkWidth (width : Int64) : Attempt Nat :=
  if width ≤ 0 ∨ width.toInt > maxWidth then
    reject { phase := .construct, kind := .invalidInput, value := .int width.toInt,
             detail := "integer width " ++ Text.signed width.toInt ++ " outside 1.." ++ Text.decimal maxWidth }
  else .ok width.toInt.toNat

/-- The low `w` bytes of `v`, least significant first, and what is left of `v` above them. -/
def lowBytes : Nat → UInt64 → List UInt8 × UInt64
  | 0, rest => ([], rest)
  | w + 1, rest =>
    let (bytes, above) := lowBytes w (rest >>> 8)
    (rest.toUInt8 :: bytes, above)

/-- The low `w` bytes of the two's complement of `v`, and what an arithmetic shift leaves above them. -/
def lowSignedBytes : Nat → Int64 → List UInt8 × Int64
  | 0, rest => ([], rest)
  | w + 1, rest =>
    let (bytes, above) := lowSignedBytes w (rest >>> 8)
    (rest.toUInt64.toUInt8 :: bytes, above)

/-- Append `v` in `width` bytes, least significant first; nothing may be left above them. -/
def appendUInt (b : Buffer) (v : UInt64) (width : Int64) : Attempt Buffer := do
  let w ← checkWidth width
  let (bytes, above) := lowBytes w v
  if above ≠ 0 then
    reject (.overflow .construct [] (.int v.toNat) ("u" ++ Text.decimal (8 * w)))
  else .ok (b.append bytes.toByteArray)

/-- Append `v` in `width` bytes of two's complement. What is above them must be a pure sign
extension, and the top bit of the last byte must be the sign. -/
def appendInt (b : Buffer) (v : Int64) (width : Int64) : Attempt Buffer := do
  let w ← checkWidth width
  let (bytes, above) := lowSignedBytes w v
  let signBit := bytes.getLast?.any (· ≥ 0x80)
  if (above ≠ 0 ∧ above ≠ -1) ∨ signBit ≠ decide (v < 0) then
    reject (.overflow .construct [] (.int v.toInt) ("s" ++ Text.decimal (8 * w)))
  else .ok (b.append bytes.toByteArray)

/-- Write the low `w` bytes of `v` over the bytes from `pos` on. -/
def putWord (b : Buffer) (pos : Int64) (w v : Nat) : Attempt Buffer :=
  if pos < 0 ∨ (pos + .ofNat w).toInt > b.size then
    reject (.outOfBounds .construct [] pos.toInt b.size)
  else if pos.toInt.toNat + w ≤ b.size then
    .ok ⟨b.data.overwrite pos.toInt.toNat (Bytes.littleEndian w v).toByteArray⟩
  else .error .trap

def put16 (b : Buffer) (pos : Int64) (v : UInt16) : Attempt Buffer := b.putWord pos 2 v.toNat

def put32 (b : Buffer) (pos : Int64) (v : UInt32) : Attempt Buffer := b.putWord pos 4 v.toNat

def get (b : Buffer) (pos : Int64) : Attempt UInt8 :=
  if h : 0 ≤ pos.toInt ∧ pos.toInt.toNat < b.data.size then .ok (b.data.get pos.toInt.toNat h.2)
  else .error .trap

/-- The range of `n` bytes from `pos` on, as a start and a count inside the buffer. -/
def range (b : Buffer) (pos n : Int64) : Attempt (Nat × Nat) :=
  if pos < 0 ∨ pos.toInt > b.size then
    reject (.outOfBounds .construct ["position"] pos.toInt b.size)
  else if n < 0 ∨ (pos + n).toInt > b.size then
    reject (.outOfBounds .construct ["length"] (pos + n).toInt b.size)
  else if pos.toInt.toNat + n.toInt.toNat ≤ b.size then .ok (pos.toInt.toNat, n.toInt.toNat)
  else .error .trap

def slice (b : Buffer) (pos n : Int64) : Attempt Bytes := do
  let (start, count) ← b.range pos n
  return b.data.slice start count

/-- Delete `n` bytes from `pos` on. -/
def remove (b : Buffer) (pos n : Int64) : Attempt Buffer := do
  let (start, count) ← b.range pos n
  return ⟨b.data.take start ++ b.data.drop (start + count)⟩

/-- Put `p` before the byte at `pos`. -/
def insert (b : Buffer) (pos : Int64) (p : Bytes) : Attempt Buffer :=
  if pos < 0 ∨ pos.toInt > b.size then
    reject (.outOfBounds .construct ["position"] pos.toInt b.size)
  else .ok ⟨b.data.take pos.toInt.toNat ++ p ++ b.data.drop pos.toInt.toNat⟩

/-- Position of the first `x` at or after `start`. -/
def index? (b : Buffer) (x : UInt8) (start : Int64) : Option Nat :=
  if start < 0 then none else b.data.indexFrom x start.toInt.toNat

end Buffer

end CoffWorks
