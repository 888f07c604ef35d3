import CoffWorks.Sink.Staging
import CoffWorks.StringTable

namespace CoffWorks

/-- What is done to a file. Positions count from its start, wherever in the sink that is. -/
inductive Step where
  | append (data : Bytes)
  /-- Overwrite what stands at a position of the file. -/
  | patch (position : Nat) (data : Bytes)
deriving DecidableEq

/-- Writing a file, made without any output: the steps so far, how many bytes they append, the names stored
on the way, and why there are no more steps. -/
structure Script where
  steps : Array Step := #[]
  size : Nat := 0
  strings : StringTable := {}
  failure : Option Failure := none

namespace Script

/-- Append bytes, also none. -/
def append : Script → Bytes → Script
  | ⟨steps, size, strings, none⟩, data => ⟨steps.push (.append data), size + data.size, strings, none⟩
  | s, _ => s

/-- Fill in the four bytes at `position` with how far the file has got. -/
def point : Script → Nat → Bytes → Script
  | ⟨steps, size, strings, none⟩, position, field =>
    if size < UInt32.size then
      ⟨steps.push (.patch position (Bytes.push32 .empty (UInt32.ofNat size))), size, strings, none⟩
    else ⟨steps, size, strings, some (.fault (.overflow .encode [] (.int size) field))⟩
  | s, _, _ => s

/-- Append bytes if there are any, or end. -/
def emit : Script → (Unit → Attempt Bytes) → Script
  | ⟨steps, size, strings, none⟩, bytes =>
    match bytes () with
    | .ok data => if data.isEmpty then ⟨steps, size, strings, none⟩ else append ⟨steps, size, strings, none⟩ data
    | .error e => ⟨steps, size, strings, some e⟩
  | s, _ => s

/-- Append bytes that depend on the names stored so far and may store more, or end; the names are
of no use then. -/
def emitNamed : Script → (StringTable → Attempt (Bytes × StringTable)) → Script
  | ⟨steps, size, strings, none⟩, bytes =>
    match bytes strings with
    | .ok (data, strings) => append ⟨steps, size, strings, none⟩ data
    | .error e => ⟨steps, size, {}, some e⟩
  | s, _ => s

end Script

namespace Step

/-- Perform a step for a file that starts at offset `base` of the sink. -/
def run {σ : Type} [Sink σ] (base : Nat) (sink : σ) : Step → σ × Option Failure
  | append data =>
    match Writer.write sink data with
    | ⟨sink, _, failure⟩ => (sink, failure)
  | patch position data => Sink.patchAt sink data (Int64.ofNat base + .ofNat position)

/-- Perform the steps up to the first that fails. -/
def runAll {σ : Type} [Sink σ] (base : Nat) : σ → List Step → σ × Option Failure
  | sink, [] => (sink, none)
  | sink, step :: rest =>
    match step.run base sink with
    | (sink, none) => runAll base sink rest
    | (sink, some e) => (sink, some e)

end Step

/-- Perform the script at the sink's offset; it fails where the sink does, or else where it ended. -/
def Script.run {σ : Type} [Sink σ] (s : Script) (sink : σ) : σ × Option Failure :=
  match Step.runAll (Sink.offset sink) sink s.steps.toList with
  | (sink, some e) => (sink, some e)
  | (sink, none) => (sink, s.failure)

end CoffWorks
