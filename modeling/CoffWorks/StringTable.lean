import CoffWorks.Name
import CoffWorks.Sink.Basic
import CoffWorks.Text.Glyph

namespace CoffWorks

/-- Texts too long for a name field, each ended by a zero byte. An offset counts from the length that stands
before the table in a file, so the first text is at 4. -/
structure StringTable where
  blob : Bytes := .empty
deriving DecidableEq, Inhabited

/-- A text of the table and its offset. -/
structure StringEntry where
  offset : UInt32
  text : Bytes
deriving DecidableEq

/-- Bytes to read, and what a read at their end reports. -/
structure Source where
  data : Bytes
  ending : Failure := .endOfInput

namespace StringTable

/-- Offset of the first text. -/
def bias : Nat := 4

def size (t : StringTable) : Nat := t.blob.size

def checkText (text : Bytes) : Attempt Unit :=
  if Text.isValid text then .ok ()
  else reject { phase := .construct, kind := .invalidInput, path := ["string table"],
                value := .text text, detail := "name is not valid UTF-8" }

/-- Append `text` and its zero byte. -/
def store (t : StringTable) (text : Bytes) : Attempt (UInt32 × StringTable) :=
  let offset := t.size + bias
  if offset > Name.maxOffset then
    reject (.overflow .construct ["string table"] (.int offset) "name offset")
  else .ok (UInt32.ofNat offset, ⟨(t.blob ++ text).push 0⟩)

/-- Append `text` whatever its length. -/
def addLong (t : StringTable) (text : Bytes) : Attempt (UInt32 × StringTable) := do
  checkText text
  t.store text

/-- A name for `text`, which is put into the table only if it is too long for the field. -/
def add (t : StringTable) (text : Bytes) : Attempt (Name × StringTable) := do
  checkText text
  if text.size ≤ Name.fieldSize then
    let name ← Name.ofBytes text
    return (name, t)
  else
    let (offset, t) ← t.store text
    let name ← Name.ofOffset offset
    return (name, t)

/-- Where the text that starts at `start` ends; the last one may lack its zero byte. -/
def endOf (t : StringTable) (start : Nat) : Nat := (t.blob.indexFrom 0 start).getD t.size

/-- A text does not end before it starts. -/
theorem le_endOf {t : StringTable} {start : Nat} (inside : start < t.size) : start ≤ t.endOf start := by
  unfold endOf
  cases found : t.blob.indexFrom 0 start with
  | none => exact Nat.le_of_lt inside
  | some i => exact Bytes.le_of_indexFrom found

def lookup (t : StringTable) (offset : UInt32) : Attempt Bytes :=
  if offset.toNat < bias then
    reject { phase := .decode, kind := .outOfBounds, path := ["string table"],
             value := .int offset.toNat,
             detail := "offset " ++ Text.decimal offset.toNat ++ " falls in the length prefix" }
  else
    let start := offset.toNat - bias
    if start ≥ t.size then reject (.outOfBounds .decode ["string table"] start t.size)
    else
      let text := t.blob.slice start (t.endOf start - start)
      if Text.isValid text then .ok text
      else reject (.invalidData .decode ["string table"]
        ("entry at offset " ++ Text.decimal offset.toNat ++ " is not valid UTF-8"))

/-- The text of a name. -/
def resolve (t : StringTable) : Name → Attempt Bytes
  | .unset => reject (.invalidInput .decode "uninitialized name")
  | .short f => .ok f.bytes.untilZero
  | .long offset => t.lookup offset

/-- The length of the table in four bytes, as it stands before it. -/
def lengthBytes (t : StringTable) : Bytes := Bytes.push32 .empty (UInt32.ofNat t.size)

/-- Write the length, then the texts. -/
def writeTo {ω : Type} [Writer ω] (t : StringTable) (out : ω) : Stored ω :=
  match Writer.write out t.lengthBytes with
  | ⟨out, n, some e⟩ => ⟨out, n, some e⟩
  | ⟨out, n, none⟩ =>
    match Writer.write out t.blob with
    | ⟨out, m, failure⟩ => ⟨out, n + m, failure⟩

/-- Read the length and then that many bytes. -/
def read (src : Source) : Attempt StringTable :=
  if src.data.size < 4 then
    let cause := if src.ending = .endOfInput ∧ src.data.size > 0 then .unexpectedEnd else src.ending
    .error (.caused { phase := .decode, kind := .outOfBounds, path := ["string table", "length"],
                      detail := "truncated length prefix" } cause)
  else
    let size := (src.data.u32At 0).toNat
    let have' := src.data.size - 4
    if size ≤ have' then .ok ⟨src.data.slice 4 size⟩
    else
      let fault : Fault := { phase := .decode, kind := .outOfBounds, path := ["string table", "blob"],
                             value := .int size }
      if src.ending = .endOfInput then
        .error (.caused { fault with detail := "truncated blob of " ++ Text.decimal size ++ " bytes, have "
                                       ++ Text.decimal have' } .unexpectedEnd)
      else
        .error (.caused { fault with detail := "reading blob of " ++ Text.decimal size ++ " bytes" } src.ending)

/-- `acc` followed by the texts from `start` on, with their offsets. -/
def entriesFrom (t : StringTable) (start : Nat) (acc : Array StringEntry) : Array StringEntry :=
  if start < t.size then
    let stop := t.endOf start
    entriesFrom t (stop + 1) (acc.push ⟨UInt32.ofNat (start + bias), t.blob.slice start (stop - start)⟩)
  else acc
termination_by t.size - start
decreasing_by
  rename_i inside
  have := le_endOf inside
  omega

def entries (t : StringTable) : Array StringEntry := t.entriesFrom 0 #[]

end StringTable

end CoffWorks
