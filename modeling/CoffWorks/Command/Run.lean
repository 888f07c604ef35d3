import CoffWorks.Command.Options
import CoffWorks.Manifest.Build
import CoffWorks.Manifest.Document
import CoffWorks.Manifest.OfObject
import CoffWorks.Object.Encode
import CoffWorks.Report.Dump

namespace CoffWorks

/-- Access to files, in any monad. -/
structure Host (m : Type → Type) where
  readFile : Bytes → m (Attempt Bytes)
  /-- Create a file, or replace its content. -/
  writeFile : Bytes → Bytes → m (Option Failure)
  /-- Whether output goes to a terminal that shows colors. -/
  color : Bool := false

namespace Command

/-- The exit code and what was printed. -/
structure Result where
  exit : UInt8 := 0
  out : Bytes := .empty
  err : Bytes := .empty

def Result.failed (e : Failure) : Result := { exit := 1, err := "Error: " ++ e.message ++ "\n" }

def synopsis : Bytes :=
  Bytes.concat
    ["Usage: coffgen -manifest <obj.yaml> [-o out.obj]\n",
     "       coffgen -code <code.bin> [-machine amd64] [-sym main:0:public] [-reloc puts:1:rel] ",
     "[-o out.obj]\n",
     "       coffgen -dump <file.obj> [-i]\n"]

section
variable {m : Type → Type} [Monad m] (host : Host m)

/-- Fail with what went wrong, seen from further out. -/
def within {α : Type} (context : Bytes) : Attempt α → Attempt α
  | .ok a => .ok a
  | .error e => .error (.within context e)

/-- The object that a manifest file describes. Data files are seen from its directory. -/
def loadManifest (path : Bytes) : m (Attempt (ObjectFile × Pool)) := do
  match ← host.readFile path with
  | .error e => return .error (.caused (Manifest.unreadable "read manifest") e)
  | .ok b =>
    match Manifest.parse b with
    | .error e => return .error e
    | .ok x => x.build host.readFile (Text.PathName.parent path) {}

/-- The object made of machine code. -/
def loadCode (o : Options) : m (Attempt (ObjectFile × Pool)) :=
  match Machine.parse o.machine with
  | .error e => pure (.error e)
  | .ok machine => do
    match ← host.readFile o.code with
    | .error e => return .error (.within "read code" e)
    | .ok code =>
      return within "lay out code"
        ((Code.object machine code o.labels o.fixups (orElse o.source Code.defaultSource)).run {})

def loadObject (o : Options) : m (Attempt (ObjectFile × Pool)) :=
  if o.manifest.isEmpty then loadCode host o
  else if o.code.isEmpty then within "load manifest" <$> loadManifest host o.manifest
  else pure (.error (.plain "-manifest and -code are mutually exclusive"))

/-- How a written file is announced. -/
def announcement (path : Bytes) (size : Nat) (f : ObjectFile) (p : Pool) : Bytes :=
  "Wrote " ++ path ++ ": " ++ f.machine.label ++ ", " ++ Text.byteSize size ++ ", "
    ++ Text.decimal f.sections.size ++ " sections, " ++ Text.decimal (f.slotCount p) ++ " symbols\n"

/-- Write an object; if it cannot be encoded, the file has what was written before. -/
def writeObject (path : Bytes) (f : ObjectFile) (p : Pool) : m Result := do
  let (stage, failure) := f.encode p ({} : Staging)
  match (← host.writeFile path stage.data), failure with
  | some e, _ => return .failed (.within ("write " ++ path) e)
  | none, some e => return .failed (.within ("write " ++ path) e)
  | none, none => return { out := announcement path stage.data.size f p }

def runBuild (o : Options) : m Result := do
  match ← loadObject host o with
  | .error e => return .failed e
  | .ok (f, p) =>
    if o.emitManifest then
      match Manifest.ofObject p f with
      | .error e => return .failed e
      | .ok x => return { out := x.render }
    else writeObject host o.output f p

def runDump (path : Bytes) : m Result := do
  match ← host.readFile path with
  | .error e => return .failed e
  | .ok b =>
    match Report.ofBytes path b with
    | .error e => return .failed e
    | .ok r => return { out := r.text host.color }

/-- There is no terminal to be interactive on. -/
def noTerminal : Failure :=
  .plain "could not open a new TTY: open /dev/tty: no such device or address"

/-- Do what the options ask for. -/
def perform (o : Options) : m Result :=
  if ¬ o.dump.isEmpty then
    if o.interactive then pure (.failed noTerminal) else runDump host o.dump
  else if ¬ (o.manifest.isEmpty ∧ o.code.isEmpty) then runBuild host o
  else pure { exit := 1, err := synopsis }

/-- Run the command with arguments. -/
def run (e : Environment) (args : List Bytes) : m Result :=
  let preset := Options.ofEnvironment e
  let fs := flags preset
  match readFlags fs args preset with
  | .ok o => perform host o
  | .error .help => pure { err := usage fs }
  | .error (.bad message) => pure { exit := 2, err := message ++ "\n" ++ usage fs }

end

end Command

end CoffWorks
