import CoffWorks.Record

namespace CoffWorks

/-- The largest number of auxiliary records of a symbol. -/
def maxAux : Nat := 255

/-- A piece of a file name: its bytes filled up with zeros, and how many they are. -/
structure FileName where
  field : Field 18
  length : Nat
deriving DecidableEq

namespace FileName

def ofBytes (b : Bytes) : FileName := ⟨.pad 18 b, b.size⟩

/-- The piece without the filling. -/
def text (f : FileName) : Bytes := f.field.bytes.take f.length

def fault (name detail : Bytes) : Fault :=
  { phase := .construct, kind := .invalidInput, path := ["file name"], value := .text name, detail }

def invalidText (name : Bytes) : Fault := fault name "file name is not valid UTF-8"

/-- A name that fits one record. -/
def single (name : Bytes) : Attempt FileName :=
  if name.size > auxSize then
    reject (fault name (Text.decimal name.size ++ " bytes exceed one " ++ Text.decimal auxSize
      ++ "-byte record"))
  else if Text.isValid name then .ok (ofBytes name)
  else reject (invalidText name)

/-- How many records a name of `size` bytes takes. -/
def recordCount (size : Nat) : Nat := max 1 ((size + auxSize - 1) / auxSize)

/-- The records of a name of any length, which is cut every 18 bytes without regard to characters; an empty
one has an empty record. -/
def records (name : Bytes) : Attempt (List FileName) :=
  if ¬ Text.isValid name then reject (invalidText name)
  else if recordCount name.size > maxAux then
    reject (.overflow .construct ["file name"] (.int (recordCount name.size)) "NumberOfAuxSymbols")
  else .ok ((List.range (recordCount name.size)).map fun i => ofBytes (name.slice (i * auxSize) auxSize))

end FileName

end CoffWorks
