import CoffWorks.Failure

namespace CoffWorks

/-- A position in a byte string that moves as words are read. -/
structure Cursor where
  data : Bytes
  pos : Nat
  pos_le : pos ≤ data.size

namespace Cursor

def start (data : Bytes) : Cursor := ⟨data, 0, Nat.zero_le _⟩

def remaining (c : Cursor) : Nat := c.data.size - c.pos

/-- A failure at the cursor's position. -/
def failure (c : Cursor) (e : Failure) : Failure := .within ("at position " ++ Text.decimal c.pos) e

/-- A failure while reading `record`. -/
def parsing (c : Cursor) (record : Bytes) (e : Failure) : Failure := .parsing record c.pos e

/-- Move to an absolute position. -/
def seek (c : Cursor) (pos : Int64) : Attempt Cursor :=
  if h : 0 ≤ pos.toInt ∧ pos.toInt.toNat ≤ c.data.size then .ok ⟨c.data, pos.toInt.toNat, h.2⟩
  else .error (c.failure (.plain ("seek to " ++ Text.signed pos.toInt ++ " beyond "
    ++ Text.decimal c.data.size ++ " bytes")))

/-- Exactly `n` bytes. The end is a wrapping sum, as everywhere with 64-bit positions. -/
def bytes (c : Cursor) (n : Int64) : Attempt (Bytes × Cursor) :=
  if n < 0 ∨ (Int64.ofNat c.pos + n).toInt > c.data.size then .error (c.failure .unexpectedEnd)
  else if h : c.pos + n.toInt.toNat ≤ c.data.size then
    .ok (c.data.slice c.pos n.toInt.toNat, ⟨c.data, c.pos + n.toInt.toNat, h⟩)
  else .error .trap

def byte (c : Cursor) : Attempt (UInt8 × Cursor) :=
  if h : c.pos < c.data.size then .ok (c.data.get c.pos h, ⟨c.data, c.pos + 1, h⟩)
  else .error .endOfInput

def u16 (c : Cursor) : Attempt (UInt16 × Cursor) := do
  let (b, c) ← c.bytes 2
  return (b.u16At 0, c)

def i16 (c : Cursor) : Attempt (Int16 × Cursor) := do
  let (v, c) ← c.u16
  return (v.toInt16, c)

def u32 (c : Cursor) : Attempt (UInt32 × Cursor) := do
  let (b, c) ← c.bytes 4
  return (b.u32At 0, c)

/-- A name field. -/
def field8 (c : Cursor) : Attempt (Field 8 × Cursor) := do
  let (b, c) ← c.bytes 8
  return (.pad 8 b, c)

/-- Report a failed read as one of a record. -/
def reading {α : Type} (c : Cursor) (record : Unit → Bytes) : Attempt α → Attempt α
  | .ok a => .ok a
  | .error .trap => .error .trap
  | .error e => .error (c.parsing (record ()) e)

theorem remaining_of_bytes {c c' : Cursor} {n : Int64} {b : Bytes} (h : c.bytes n = .ok (b, c')) :
    c'.remaining + n.toInt.toNat = c.remaining := by
  unfold bytes at h
  split at h
  · cases h
  · split at h
    · cases h
      simp only [remaining]
      omega
    · cases h

theorem reading_eq_ok {α : Type} {c : Cursor} {record : Unit → Bytes} {r : Attempt α} {a : α} :
    c.reading record r = .ok a ↔ r = .ok a := by
  unfold reading
  split <;> simp

end Cursor

end CoffWorks
