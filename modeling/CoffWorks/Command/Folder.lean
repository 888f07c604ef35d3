import CoffWorks.Command.Run

namespace CoffWorks

/-- Files in memory by their paths, as names; the directories are those on the way to them. -/
structure Folder where
  files : List (List Bytes × Bytes) := []

namespace Folder

/-- Why a path leads nowhere. -/
inductive Trouble where
  | missing | notDirectory | isDirectory | invalid | tooLong

def Trouble.text : Trouble → Bytes
  | missing => "no such file or directory"
  | notDirectory => "not a directory"
  | isDirectory => "is a directory"
  | invalid => "invalid argument"
  | tooLong => "file name too long"

/-- The trouble with a path when doing something. -/
def failure (action path : Bytes) (t : Trouble) : Failure :=
  .plain (action ++ " " ++ path ++ ": " ++ t.text)

def file? (f : Folder) (names : List Bytes) : Option Bytes :=
  (f.files.find? fun e => e.1 == names).map Prod.snd

def isDirectory (f : Folder) (names : List Bytes) : Bool :=
  names.isEmpty || f.files.any fun e => names.length < e.1.length && e.1.take names.length == names

/-- Follow names from a directory. The last one need not be there. -/
def follow (f : Folder) : List Bytes → List Bytes → Except Trouble (List Bytes)
  | dir, [] => .ok dir
  | dir, n :: rest =>
    if (f.file? dir).isSome then .error .notDirectory
    else if n.isEmpty ∨ n = "." then follow f dir rest
    else if n = ".." then follow f dir.dropLast rest
    else if n.size > 255 then .error .tooLong
    else
      let next := dir ++ [n]
      if (f.file? next).isSome ∨ f.isDirectory next ∨ rest.isEmpty then follow f next rest
      else .error .missing

/-- The names a path stands for. An absolute path stands for nothing here. -/
def locate (f : Folder) (path : Bytes) : Except Trouble (List Bytes) :=
  if path.isEmpty ∨ Text.PathName.isAbsolute path then .error .missing
  else if (path.indexFrom 0 0).isSome then .error .invalid
  else f.follow [] (path.splitOn 47)

def read (f : Folder) (path : Bytes) : Attempt Bytes :=
  match f.locate path with
  | .error t => .error (failure "open" path t)
  | .ok names =>
    match f.file? names with
    | some b => .ok b
    | none =>
      .error (if f.isDirectory names then failure "read" path .isDirectory
        else failure "open" path .missing)

/-- A path without the slashes at its end. -/
def withoutSlashes (path : Bytes) : Bytes :=
  Bytes.join "/" (((path.splitOn 47).reverse.dropWhile ByteArray.isEmpty).reverse)

def put (f : Folder) (names : List Bytes) (b : Bytes) : Folder :=
  ⟨f.files.filter (fun e => e.1 != names) ++ [(names, b)]⟩

/-- Create a file or replace its content. A path with a slash at its end is that of a directory. -/
def write (f : Folder) (path b : Bytes) : Folder × Option Failure :=
  match f.locate (withoutSlashes path) with
  | .error t => (f, some (failure "open" path t))
  | .ok names =>
    if f.isDirectory names ∨ path.byteAt (path.size - 1) = 47 then
      (f, some (failure "open" path .isDirectory))
    else (f.put names b, none)

/-- The folder as a host. -/
def host : Host (StateM Folder) where
  readFile path := do return (← get).read path
  writeFile path b := do
    let (f, failure) := (← get).write path b
    set f
    return failure

end Folder

end CoffWorks
