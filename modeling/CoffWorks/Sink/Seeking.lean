import CoffWorks.Sink.Basic

namespace CoffWorks

/-- A sink on a file with a position. Offsets count from where the file stood when the sink was made. -/
structure SeekSink (φ : Type) where
  file : φ
  base : Int64
  pos : Int64 := 0
  size : Int64 := 0

namespace SeekSink

variable {φ : Type} [SeekableFile φ]

/-- A sink at the file's position; also the file after asking for it. -/
def create (file : φ) : φ × Attempt (SeekSink φ) :=
  let (file, base) := SeekableFile.seek file (.current 0)
  (file, base.map fun base => { file, base })

def write : SeekSink φ → Bytes → Stored (SeekSink φ)
  | ⟨file, base, pos, size⟩, p =>
    let stored := Writer.write file p
    let pos := pos + .ofNat stored.count
    { out := { file := stored.out, base, pos, size := if pos > size then pos else size },
      count := stored.count, failure := stored.failure }

/-- Seek to the range, write, and seek back to the end. A step that fails ends it, wherever the file
then stands. -/
def patchAt : SeekSink φ → Bytes → Int64 → SeekSink φ × Option Failure
  | ⟨file, base, pos, size⟩, p, off =>
    if off < 0 ∨ off + .ofNat p.size > size then
      (⟨file, base, pos, size⟩,
        some (.plain (patchRange p off ++ Text.signed size.toInt ++ " written bytes")))
    else
      match SeekableFile.seek file (.start (base + off)) with
      | (file, .error e) => (⟨file, base, pos, size⟩, some e)
      | (file, .ok _) =>
        match Writer.write file p with
        | ⟨file, _, some e⟩ => (⟨file, base, pos, size⟩, some e)
        | ⟨file, _, none⟩ =>
          match SeekableFile.seek file (.start (base + pos)) with
          | (file, .error e) => (⟨file, base, pos, size⟩, some e)
          | (file, .ok _) => (⟨file, base, pos, size⟩, none)

instance : Sink (SeekSink φ) where
  write := write
  offset s := s.pos.toInt.toNat
  patchAt := patchAt

end SeekSink

end CoffWorks
