import CoffWorks.Failure

namespace CoffWorks

/-- What became of a write: the output after it, how many bytes it took, and why not all. -/
structure Stored (σ : Type) where
  out : σ
  count : Nat
  failure : Option Failure := none

/-- Takes bytes at its end, perhaps fewer than offered. -/
class Writer (σ : Type) where
  write : σ → Bytes → Stored σ

/-- Takes bytes at its end, knows how much it holds and can overwrite that. -/
class Sink (σ : Type) extends Writer σ where
  /-- Bytes written so far. -/
  offset : σ → Nat
  /-- Overwrite bytes already written, from the given offset on. -/
  patchAt : σ → Bytes → Int64 → σ × Option Failure

/-- A target position of a seek. -/
inductive SeekTarget where
  | start (pos : Int64)
  | current (distance : Int64)

/-- Has a position that can be moved. -/
class SeekableFile (φ : Type) extends Writer φ where
  /-- Move the position and tell the new one. -/
  seek : φ → SeekTarget → φ × Attempt Int64

export Writer (write)

/-- How a rejected patch names its range. -/
def patchRange (p : Bytes) (off : Int64) : Bytes :=
  "patch [" ++ Text.signed off.toInt ++ "," ++ Text.signed (off + .ofNat p.size).toInt ++ ") outside "

end CoffWorks
