import CoffWorks.Yaml.Style

namespace CoffWorks.Yaml

/-- A document as a tree of values. -/
inductive Tree where
  | text (b : Bytes)
  | number (n : Nat)
  | list (items : List Tree)
  | record (fields : List (Bytes × Tree))

namespace Tree

/-- End the line, unless it is ended already. -/
def endLine (acc : Bytes) : Bytes := if acc.byteAt (acc.size - 1) = 10 then acc else acc.push 10

def spaces (acc : Bytes) (n : Nat) : Bytes := acc ++ Bytes.times " " n

mutual

/-- Write the value of a key at column `col`. -/
def writeValue (col : Nat) : Tree → Bytes → Bytes
  | text b, acc => endLine (acc.push 32 ++ renderText (col + 2) b)
  | number n, acc => endLine (acc.push 32 ++ Text.decimal n)
  | list [], acc => acc ++ " []\n"
  | list items, acc => writeItems (col + 2) items (acc.push 10)
  | record [], acc => acc ++ " \x7b\x7d\n"
  | record fields, acc => writeFields (col + 2) fields (spaces (acc.push 10) (col + 2))

/-- Write items whose dashes are at column `col`. -/
def writeItems (col : Nat) : List Tree → Bytes → Bytes
  | [], acc => acc
  | t :: rest, acc => writeItems col rest (writeItem col t (spaces acc col ++ "-"))

/-- Write an item after its dash. -/
def writeItem (col : Nat) : Tree → Bytes → Bytes
  | text b, acc => endLine (acc.push 32 ++ renderText (col + 2) b)
  | number n, acc => endLine (acc.push 32 ++ Text.decimal n)
  | list [], acc => acc ++ " []\n"
  | list items, acc => writeItems (col + 2) items (acc.push 10)
  | record [], acc => acc ++ " \x7b\x7d\n"
  | record fields, acc => writeFields (col + 2) fields (acc.push 32)

/-- Write fields whose keys are at column `col`, where we are. -/
def writeFields (col : Nat) : List (Bytes × Tree) → Bytes → Bytes
  | [], acc => acc
  | [(k, t)], acc => writeValue col t (acc ++ k ++ ":")
  | (k, t) :: rest, acc => writeFields col rest (spaces (writeValue col t (acc ++ k ++ ":")) col)

end

/-- A whole document, in block style with two columns for each level. -/
def render : Tree → Bytes
  | record fields => writeFields 0 fields .empty
  | text b => endLine (renderText 2 b)
  | number n => endLine (Text.decimal n)
  | list items => writeItems 0 items .empty

/-- A field, unless it is left out. -/
def field (name : Bytes) (t : Option Tree) : List (Bytes × Tree) :=
  match t with
  | some t => [(name, t)]
  | none => []

/-- A text that is left out if it is empty. -/
def textOrNone (b : Bytes) : Option Tree := if b.isEmpty then none else some (.text b)

/-- A number that is left out if it is zero. -/
def numberOrNone (n : Nat) : Option Tree := if n = 0 then none else some (.number n)

/-- A list that is left out if it is empty. -/
def listOrNone (items : List Tree) : Option Tree := if items.isEmpty then none else some (.list items)

end Tree

end CoffWorks.Yaml
