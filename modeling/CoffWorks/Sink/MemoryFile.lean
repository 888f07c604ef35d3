import CoffWorks.Bytes.Buffer
import CoffWorks.Sink.Basic

namespace CoffWorks

/-- A seekable file in memory. Its device may have an end (`limit`), and one write or one seek, given by its
number counted from one, may be told to fail. -/
structure MemoryFile where
  data : Bytes := .empty
  pos : Int64 := 0
  limit : Option Int64 := none
  failingWrite : Option Nat := none
  failingSeek : Option Nat := none
  writes : Nat := 0
  seeks : Nat := 0

namespace MemoryFile

/-- How many of `n` bytes fit before the end of the device. -/
def room (f : MemoryFile) (n : Nat) : Nat :=
  match f.limit with
  | none => n
  | some l => min n (l.toInt - f.pos.toInt).toNat

/-- Store `p` at the position, which moves behind it; a gap before it is filled with zeros. -/
def store : MemoryFile → Bytes → MemoryFile
  | ⟨data, pos, limit, failingWrite, failingSeek, writes, seeks⟩, p =>
    let gap := pos.toInt.toNat - data.size
    ⟨if p.isEmpty then data else (data.pushZeros gap).overwrite pos.toInt.toNat p,
      pos + .ofNat p.size, limit, failingWrite, failingSeek, writes, seeks⟩

def write (f : MemoryFile) (p : Bytes) : Stored MemoryFile :=
  let f := { f with writes := f.writes + 1 }
  if f.failingWrite = some f.writes then { out := f, count := 0, failure := some .diskFull }
  else
    let n := f.room p.size
    if n > 0 ∧ (f.pos < 0 ∨ f.pos.toInt + n > Buffer.maxCapacity) then
      { out := f, count := 0, failure := some .trap }
    else
      { out := f.store (p.take n), count := n,
        failure := if n < p.size then some .diskFull else none }

def seek (f : MemoryFile) (target : SeekTarget) : MemoryFile × Attempt Int64 :=
  let f := { f with seeks := f.seeks + 1 }
  if f.failingSeek = some f.seeks then (f, .error (.plain "seek failed"))
  else
    let pos := match target with
      | .start pos => pos
      | .current distance => f.pos + distance
    ({ f with pos }, .ok pos)

instance : SeekableFile MemoryFile where
  write := write
  seek := seek

/-- A file holding `content`, positioned at its end. -/
def holding (content : Bytes) : MemoryFile := { data := content, pos := .ofNat content.size }

end MemoryFile

end CoffWorks
