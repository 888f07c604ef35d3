import CoffWorks.Command.Run

namespace CoffWorks.Main

/-- What the system says about a path. -/
def describe : IO.Error → Bytes
  | .noFileOrDirectory .. => "no such file or directory"
  | .permissionDenied .. => "permission denied"
  | .alreadyExists .. => "file exists"
  | .inappropriateType .. => "is a directory"
  | .invalidArgument .. => "invalid argument"
  | .resourceExhausted .. => "no space left on device"
  | e => toString e

def pathText (path : Bytes) : String := (String.fromUTF8? path).getD ""

def readFile (path : Bytes) : IO (Attempt Bytes) := do
  try
    return .ok (← IO.FS.readBinFile (pathText path))
  catch e => return .error (.plain ("open " ++ path ++ ": " ++ describe e))

def writeFile (path b : Bytes) : IO (Option Failure) := do
  try
    IO.FS.writeBinFile (pathText path) b
    return none
  catch e => return some (.plain ("open " ++ path ++ ": " ++ describe e))

def setting (name : String) : IO Bytes := do return ((← IO.getEnv name).getD "").toUTF8

end CoffWorks.Main

open CoffWorks in
def main (args : List String) : IO UInt32 := do
  let out ← IO.getStdout
  let noColor ← Main.setting "NO_COLOR"
  let host : Host IO :=
    { readFile := Main.readFile, writeFile := Main.writeFile,
      color := (← out.isTty) && noColor.isEmpty }
  let e : Command.Environment :=
    { machine := ← Main.setting "COFFGEN_MACHINE", output := ← Main.setting "COFFGEN_OUTPUT",
      verbose := ← Main.setting "COFFGEN_VERBOSE" }
  let r ← Command.run host e (args.map String.toUTF8)
  out.write r.out
  out.flush
  let err ← IO.getStderr
  err.write r.err
  err.flush
  return r.exit.toUInt32
