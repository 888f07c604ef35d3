namespace CoffWorks

/-- Octets, as a file or a name holds them. Texts are octets too and need not be valid UTF-8. -/
abbrev Bytes := ByteArray

instance : Coe String Bytes := ⟨String.toUTF8⟩

instance : DecidableEq Bytes := ByteArray.instDecidableEq

namespace Bytes

/-- `b` followed by `n` zero bytes. -/
def pushZeros (b : Bytes) : Nat → Bytes
  | 0 => b
  | n + 1 => pushZeros (b.push 0) n

def ofOctet (b : UInt8) : Bytes := ByteArray.empty.push b

def zeros (n : Nat) : Bytes := pushZeros .empty n

/-- `n` bytes from `pos` on, fewer where `b` ends earlier. -/
def slice (b : Bytes) (pos n : Nat) : Bytes :=
  if pos < b.size then b.extract pos (pos + min n (b.size - pos)) else .empty

/-- The bytes from `pos` on. -/
def drop (b : Bytes) (pos : Nat) : Bytes := b.slice pos (b.size - pos)

/-- The first `n` bytes. -/
def take (b : Bytes) (n : Nat) : Bytes := b.slice 0 n

/-- `p` laid over `b` from `pos` on; meant for ranges inside `b`. -/
def overwrite (b : Bytes) (pos : Nat) (p : Bytes) : Bytes := p.copySlice 0 b pos p.size

/-- Position of the first `x` at or after `pos`. -/
def indexFrom (b : Bytes) (x : UInt8) (pos : Nat) : Option Nat :=
  if h : pos < b.size then
    if b[pos] = x then some pos else indexFrom b x (pos + 1)
  else none
termination_by b.size - pos

theorem le_of_indexFrom {b : Bytes} {x : UInt8} {pos i : Nat} (h : b.indexFrom x pos = some i) : pos ≤ i := by
  fun_induction indexFrom b x pos with
  | case1 pos inside here => exact Nat.le_of_eq (Option.some.inj h)
  | case2 pos inside other ih => exact Nat.le_of_succ_le (ih h)
  | case3 pos outside => cases h

/-- The bytes before the first zero byte. -/
def untilZero (b : Bytes) : Bytes :=
  match b.indexFrom 0 0 with
  | some i => b.take i
  | none => b

def startsWith (b start : Bytes) : Bool := b.take start.size == start

/-- The parts put together with `sep` between them. -/
def join (sep : Bytes) : List Bytes → Bytes
  | [] => .empty
  | [b] => b
  | b :: c :: rest => rest.foldl (fun acc d => acc ++ sep ++ d) (b ++ sep ++ c)

def concat (parts : List Bytes) : Bytes := parts.foldl (· ++ ·) .empty

/-- The parts of `b` between the occurrences of `sep`; never none. -/
def splitOn (b : Bytes) (sep : UInt8) : List Bytes := go 0 0 []
where
  go (start pos : Nat) (acc : List Bytes) : List Bytes :=
    if h : pos < b.size then
      if b[pos] = sep then go (pos + 1) (pos + 1) (b.slice start (pos - start) :: acc)
      else go start (pos + 1) acc
    else (b.drop start :: acc).reverse
  termination_by b.size - pos

/-- `b` written `n` times. -/
def times (b : Bytes) (n : Nat) : Bytes :=
  if n = 0 then .empty
  else
    let half := times b (n / 2)
    if n % 2 = 0 then half ++ half else half ++ half ++ b
termination_by n

/-- The low `w` bytes of `n`, least significant first. -/
def littleEndian : Nat → Nat → List UInt8
  | 0, _ => []
  | w + 1, n => n.toUInt8 :: littleEndian w (n / 256)

/-- The number whose bytes, least significant first, are given. -/
def ofLittleEndian : List UInt8 → Nat
  | [] => 0
  | b :: rest => b.toNat + 256 * ofLittleEndian rest

/-- `b` followed by the low `w` bytes of `n`, least significant first. -/
def pushWord (b : Bytes) : Nat → Nat → Bytes
  | 0, _ => b
  | w + 1, n => pushWord (b.push n.toUInt8) w (n / 256)

def push16 (b : Bytes) (v : UInt16) : Bytes := b.pushWord 2 v.toNat

def push32 (b : Bytes) (v : UInt32) : Bytes := b.pushWord 4 v.toNat

/-- The byte at `pos`, zero past the end. -/
def byteAt (b : Bytes) (pos : Nat) : UInt8 := if h : pos < b.size then b[pos] else 0

/-- The `w`-byte number at `pos`; bytes past the end count as zero. -/
def wordAt (b : Bytes) (pos : Nat) : Nat → Nat
  | 0 => 0
  | w + 1 => (b.byteAt pos).toNat + 256 * wordAt b (pos + 1) w

def u16At (b : Bytes) (pos : Nat) : UInt16 := (b.wordAt pos 2).toUInt16

def u32At (b : Bytes) (pos : Nat) : UInt32 := (b.wordAt pos 4).toUInt32

end Bytes

/-- A field of exactly `n` bytes. -/
structure Field (n : Nat) where
  bytes : Bytes
  size_eq : bytes.size = n
deriving DecidableEq

namespace Bytes

@[simp] theorem size_pushZeros (b : Bytes) (n : Nat) : (b.pushZeros n).size = b.size + n := by
  induction n generalizing b with
  | zero => rfl
  | succ n ih => rw [pushZeros, ih, ByteArray.size_push]; omega

theorem size_slice (b : Bytes) (pos n : Nat) : (b.slice pos n).size = min n (b.size - pos) := by
  unfold slice
  split
  · rw [ByteArray.size_extract]; omega
  · rw [ByteArray.size_empty]; omega

theorem size_take (b : Bytes) (n : Nat) : (b.take n).size = min n b.size := by
  simp [take, size_slice]

@[simp] theorem size_pushWord (b : Bytes) (w n : Nat) : (b.pushWord w n).size = b.size + w := by
  induction w generalizing b n with
  | zero => rfl
  | succ w ih => rw [pushWord, ih, ByteArray.size_push]; omega

end Bytes

/-- `b` cut or filled up with zeros to `n` bytes. -/
def Field.pad (n : Nat) (b : Bytes) : Field n :=
  ⟨(b.take n).pushZeros (n - b.size), by rw [Bytes.size_pushZeros, Bytes.size_take]; omega⟩

/-- The `n` bytes of `b` from `pos` on, with zeros past its end. -/
def Field.at (n : Nat) (b : Bytes) (pos : Nat) : Field n := .pad n (b.slice pos n)

instance (n : Nat) : Inhabited (Field n) := ⟨.pad n .empty⟩

end CoffWorks
