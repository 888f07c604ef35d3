import CoffWorks.Bytes.Buffer
import CoffWorks.Proofs.Bytes.Cursor
import CoffWorks.Proofs.InPlace

namespace CoffWorks

/-- A sum that is too large comes out negative, and then it is not above any size. -/
theorem lt_toInt_add_iff {a b : Int64} (size : Nat) (ha : 0 ≤ a.toInt) (hb : 0 ≤ b.toInt) :
    (a + b).toInt > size ↔ size < a.toInt + b.toInt ∧ a.toInt + b.toInt < 2 ^ 63 := by
  have small := a.toInt_lt
  have small' := b.toInt_lt
  rw [Int64.toInt_add, Int.bmod_def]
  split_ifs <;> omega

namespace Attempt

variable {α β : Type} {inside broken : Prop} {P : α → Prop} {x : Attempt α}

/-- What is asked for is given inside of bounds and refused outside of them, or the attempt breaks off. -/
inductive Checked (inside broken : Prop) (P : α → Prop) : Attempt α → Prop where
  | granted {a : α} (within : inside) (sound : ¬ broken) (result : P a) : Checked inside broken P (.ok a)
  | refused {e : Failure} (outside : ¬ inside) (sound : ¬ broken) (error : e ≠ .trap) :
      Checked inside broken P (.error e)
  | trapped (outside : ¬ inside) (breaks : broken) : Checked inside broken P (.error .trap)

/-- Bounds do not depend on what is made of the result. -/
theorem Checked.map {Q : β → Prop} {f : α → β} (h : Checked inside broken P x) (hf : ∀ a, P a → Q (f a)) :
    Checked inside broken Q (x.map f) := by
  cases h with
  | granted within sound result => exact .granted within sound (hf _ result)
  | refused outside sound error => exact .refused outside sound error
  | trapped outside breaks => exact .trapped outside breaks

end Attempt

namespace InPlace

variable {σ α : Type} {s : σ} {inside broken : Prop} {Done : α → σ → Prop}

/-- The call succeeds just inside of bounds and breaks off just in the broken case. Unless it succeeds it changes
nothing. -/
structure Exact (s : σ) (inside broken : Prop) (Done : α → σ → Prop) (r : Attempt α × σ) : Prop where
  ok_iff : (∃ a, r.1 = .ok a) ↔ inside
  done : ∀ a, r.1 = .ok a → Done a r.2
  kept : ∀ e, r.1 = .error e → r.2 = s
  trap_iff : r.1 = .error .trap ↔ broken

end InPlace

namespace Bytes

theorem toList_slice (b : Bytes) (pos n : Nat) : (b.slice pos n).toList = (b.toList.drop pos).take n := by
  rw [toList_eq, toList_eq, slice_eq_extract, ByteArray.data_extract, Array.toList_extract, List.extract_eq_take_drop,
    Nat.add_sub_cancel_left]

theorem toList_drop (b : Bytes) (pos : Nat) : (b.drop pos).toList = b.toList.drop pos := by
  have length : (b.toList.drop pos).length = b.size - pos := by
    rw [List.length_drop, toList_eq, Array.length_toList, ByteArray.size_data]
  rw [drop, toList_slice, ← length, List.take_length]

@[simp] theorem toList_empty : ByteArray.toList .empty = [] := by
  rw [toList_eq]
  rfl

theorem toList_append (a b : Bytes) : (a ++ b).toList = a.toList ++ b.toList := by
  rw [toList_eq, toList_eq, toList_eq, ByteArray.data_append, Array.toList_append]

theorem toList_toByteArray (l : List UInt8) : l.toByteArray.toList = l := by
  rw [toList_eq, List.data_toByteArray]

/-- Byte number `i` of `n`, counted from the least significant one. -/
def octet (n i : Nat) : UInt8 := (n / 256 ^ i).toUInt8

end Bytes

namespace Buffer

/-- An access to a range of a buffer. -/
inductive Access where
  | slice (pos n : Int64)
  | remove (pos n : Int64)
  | put16 (pos : Int64) (v : UInt16)
  | put32 (pos : Int64) (v : UInt32)

namespace Access

/-- Where the range starts. -/
def start : Access → Int
  | slice pos _ | remove pos _ | put16 pos _ | put32 pos _ => pos.toInt

/-- How many bytes are in the range. -/
def count : Access → Int
  | slice _ n | remove _ n => n.toInt
  | put16 _ _ => 2
  | put32 _ _ => 4

/-- The bytes that are read, and the buffer after the access. -/
def attempt (b : Buffer) : Access → Attempt (Bytes × Buffer)
  | slice pos n => (b.slice pos n).map fun r => (r, b)
  | remove pos n => (b.remove pos n).map fun b' => (.empty, b')
  | put16 pos v => (b.put16 pos v).map fun b' => (.empty, b')
  | put32 pos v => (b.put32 pos v).map fun b' => (.empty, b')

/-- Write the low `w` bytes of `v` in place. -/
def putting (pos : Int64) (w v : Nat) : InPlace Buffer Unit := do
  let size := (← MonadState.get).size
  if pos < 0 ∨ (pos + .ofNat w).toInt > size then
    throw (.fault (.outOfBounds .construct [] pos.toInt size))
  if pos.toInt.toNat + w > size then
    throw .trap
  modify fun b => ⟨b.data.overwrite pos.toInt.toNat (Bytes.littleEndian w v).toByteArray⟩

/-- An access step by step on a buffer that is changed in place. -/
def steps : Access → InPlace Buffer Bytes
  | slice pos n => do
    let (start, count) ← (← MonadState.get).range pos n
    return (← MonadState.get).data.slice start count
  | remove pos n => do
    let (start, count) ← (← MonadState.get).range pos n
    modify fun b => ⟨b.data.take start ++ b.data.drop (start + count)⟩
    return .empty
  | put16 pos v => do
    putting pos 2 v.toNat
    return .empty
  | put32 pos v => do
    putting pos 4 v.toNat
    return .empty

def perform (b : Buffer) (a : Access) : Attempt Bytes × Buffer := a.steps.perform b

/-- What is read from a buffer that holds `l`. -/
def reads (l : List UInt8) : Access → List UInt8
  | slice pos n => (l.drop pos.toInt.toNat).take n.toInt.toNat
  | _ => []

end Access

variable {b : Buffer}

end Buffer

namespace Cursor

/-- Take the next `n` bytes, then move behind them. -/
def taking (n : Int64) : InPlace Cursor Bytes := do
  let (r, c) ← (← get).bytes n
  set c
  return r

/-- The bytes that are read, and the cursor after reading them. -/
def read (c : Cursor) (n : Int64) : Attempt Bytes × Cursor := (taking n).perform c

/-- The next `n` bytes are read, and the cursor has moved behind them. -/
def Reads (c : Cursor) (n : Int64) (r : Bytes) (c' : Cursor) : Prop :=
  r.toList = (c.data.toList.drop c.pos).take n.toInt.toNat ∧ c'.data = c.data ∧ (c'.pos : Int) = c.pos + n.toInt

end Cursor

end CoffWorks
