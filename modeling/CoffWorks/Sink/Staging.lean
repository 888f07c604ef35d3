import CoffWorks.Bytes.Buffer
import CoffWorks.Sink.Basic

namespace CoffWorks

/-- A sink in memory. -/
structure Staging where
  data : Bytes := .empty
deriving DecidableEq

namespace Staging

/-- An empty staging buffer with room for `capacity` bytes. -/
def create (capacity : Int64) : Attempt Staging := do
  let b ← Buffer.create capacity
  return ⟨b.data⟩

def write (s : Staging) (p : Bytes) : Staging := ⟨s.data ++ p⟩

def patchAt (s : Staging) (p : Bytes) (off : Int64) : Staging × Option Failure :=
  if off < 0 ∨ (off + .ofNat p.size).toInt > s.data.size then
    (s, some (.plain (patchRange p off ++ Text.decimal s.data.size ++ " buffered bytes")))
  else if off.toInt.toNat + p.size ≤ s.data.size then (⟨s.data.overwrite off.toInt.toNat p⟩, none)
  else (s, some .trap)

instance : Sink Staging where
  write s p := { out := s.write p, count := p.size }
  offset s := s.data.size
  patchAt := patchAt

/-- Send the content to a writer in one write. -/
def writeTo {ω : Type} [Writer ω] (s : Staging) (out : ω) : Stored ω := Writer.write out s.data

end Staging

end CoffWorks
