import CoffWorks.Bytes.Basic

namespace CoffWorks.Text.PathName

def slash : UInt8 := 47

def isAbsolute (p : Bytes) : Bool := !p.isEmpty && p.byteAt 0 = slash

/-- Names without empty ones, `.`, and `..` after a name. At the root there is nothing above; else
`..` stays at the start. The result is reversed. -/
def resolve (rooted : Bool) : List Bytes → List Bytes → List Bytes
  | acc, [] => acc
  | acc, n :: rest =>
    if n.isEmpty ∨ n = "." then resolve rooted acc rest
    else if n = ".." then
      match acc with
      | m :: up => if m = ".." then resolve rooted (n :: acc) rest else resolve rooted up rest
      | [] => resolve rooted (if rooted then [] else [n]) rest
    else resolve rooted (n :: acc) rest

/-- The shortest path for the same file, going by names only. -/
def clean (p : Bytes) : Bytes :=
  let rooted := isAbsolute p
  let names := (resolve rooted [] (p.splitOn slash)).reverse
  if rooted then ("/" : Bytes) ++ Bytes.join "/" names
  else if names.isEmpty then "." else Bytes.join "/" names

/-- The path of `p` seen from the directory `dir`. -/
def join (dir p : Bytes) : Bytes := clean (Bytes.join "/" ([dir, p].filter fun x => !x.isEmpty))

/-- The directory of a path. -/
def parent (p : Bytes) : Bytes :=
  clean (concatUpTo (p.splitOn slash))
where
  /-- All but the last name, with the slash after each. -/
  concatUpTo (names : List Bytes) : Bytes :=
    (names.dropLast).foldl (fun acc n => acc ++ n ++ "/") .empty

end CoffWorks.Text.PathName
