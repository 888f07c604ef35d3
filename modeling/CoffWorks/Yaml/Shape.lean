import CoffWorks.Text.Base64
import CoffWorks.Text.Quote
import CoffWorks.Yaml.Node

namespace CoffWorks.Yaml

/-- Reading so far: the complaints, how many nodes were read, how many of them under an alias, and
under which aliases we are. -/
structure Reading where
  complaints : Array Bytes := #[]
  visits : Nat := 0
  aliasVisits : Nat := 0
  under : List Nat := []

/-- A step of reading a document. -/
abbrev Read := ReaderT Document (StateT Reading (Except Unit))

namespace Read

def fail {α : Type} : Read α := throw ()

def complain (line : Nat) (text : Bytes) : Read Unit :=
  modify fun r =>
    { r with complaints := r.complaints.push ("line " ++ Text.decimal line ++ ": " ++ text) }

/-- Whether the aliases of a document are out of proportion. Of the first nodes read nearly all may
be under an alias, later ever fewer, down to a tenth. -/
def isExcessive (visits aliasVisits : Nat) : Bool :=
  let low := 400000
  let high := 4000000
  let allowed :=
    if visits ≤ low then 99 * (high - low)
    else if visits ≥ high then 10 * (high - low)
    else 99 * (high - low) - 89 * (visits - low)
  aliasVisits > 100 ∧ visits > 1000 ∧ aliasVisits * 100 * (high - low) > visits * allowed

def count : Read Unit := do
  modify fun r =>
    { r with visits := r.visits + 1, aliasVisits := r.aliasVisits + min r.under.length 1 }
  let r ← get
  if isExcessive r.visits r.aliasVisits then fail

/-- Read a node, or the one it is an alias of. None contains itself. -/
def visit {α : Type} (f : Node → Read α) (n : Node) : Read α := do
  count
  match n with
  | .aliasOf _ _ id slot =>
    if (← get).under.contains id then fail
    match (← read).node? slot with
    | none => fail
    | some target =>
      modify fun r => { r with under := id :: r.under }
      count
      let a ← f target
      modify fun r => { r with under := r.under.tail }
      return a
  | n => f n

/-- The text of a node as complaints quote it. -/
def excerpt (b : Bytes) : Bytes := if b.size > 10 then b.take 7 ++ "..." else b

def mismatch {α : Type} (typeName : Bytes) (n : Node) : Read (Option α) := do
  let value : Bytes :=
    if n.tag = Tag.seq ∨ n.tag = Tag.map then .empty
    else " \x60" ++ excerpt n.text ++ ("\x60" : Bytes)
  complain n.line ("cannot unmarshal " ++ n.tag ++ value ++ " into " ++ typeName)
  return none

/-- The value of a scalar and its text, decoded if the tag says so. -/
def meaning (tag text : Bytes) : Read (Meaning × Bytes) := do
  if tag = Tag.str then return (.text, text)
  match Meaning.ofTagged tag text with
  | .error _ => fail
  | .ok (tag, m) =>
    if tag = Tag.binary then
      match Text.Base64.decode? text with
      | some b => return (.text, b)
      | none => fail
    else return (m, text)

/-- Complain about keys that come twice; true if there are none. -/
def distinctKeys (pairs : List (Node × Node)) : Read Bool := do
  let before := (← get).complaints.size
  go pairs
  return (← get).complaints.size = before
where
  go : List (Node × Node) → Read Unit
    | [] => pure ()
    | (k, _) :: rest => do
      again k rest
      go rest
  again (k : Node) : List (Node × Node) → Read Unit
    | [] => pure ()
    | (other, _) :: rest => do
      if k.sameKey other then
        complain other.line ("mapping key " ++ Text.quote other.text ++ " already defined at line "
          ++ Text.decimal k.line)
      again k rest

end Read

/-- How values of a type are read from nodes that are no aliases; `none` if a node has no value. A node that
looks otherwise is complained about and reading goes on, so that all complaints come together; only what
makes no sense under any shape ends it. -/
structure Shape (α : Type) where
  typeName : Bytes
  decode : Node → Read (Option α)

namespace Shape

variable {α β : Type}

/-- A shape for scalars; `ofScalar` gives the value by meaning and text. -/
def scalar (typeName : Bytes) (ofScalar : Meaning → Bytes → Option α) : Shape α where
  typeName
  decode n := do
    match n with
    | .scalar _ tag text =>
      match ← Read.meaning tag text with
      | (.null, _) => return none
      | (m, b) =>
        match ofScalar m b with
        | some a => return some a
        | none => Read.mismatch typeName n
    | .mapping _ _ pairs => if ← Read.distinctKeys pairs then Read.mismatch typeName n else return none
    | n => Read.mismatch typeName n

/-- Any scalar is a text. -/
def text : Shape Bytes := scalar "string" fun _ b => some b

/-- The part of a real number before the point, if it is not negative. -/
def whole? (x : Float) : Option Nat :=
  if x > -1.0 ∧ x < 18446744073709551616.0 then some x.toUInt64.toNat else none

/-- A number of that many bits. -/
def word (bits : Nat) : Shape Nat :=
  scalar ("uint" ++ Text.decimal bits) fun m _ =>
    let n? : Option Nat := match m with
      | .int n => if n < 0 then none else some n.toNat
      | .real x => whole? x
      | _ => none
    n?.filter (· < 1 <<< bits)

/-- A list, or nothing for the empty one. Items without a value do not count. -/
def list (s : Shape α) : Shape (List α) where
  typeName := "[]" ++ s.typeName
  decode n := do
    match n with
    | .scalar _ tag text =>
      match ← Read.meaning tag text with
      | (.null, _) => return some []
      | _ => Read.mismatch ("[]" ++ s.typeName) n
    | .sequence _ _ items => return some (← go items [])
    | .mapping _ _ pairs =>
      if ← Read.distinctKeys pairs then Read.mismatch ("[]" ++ s.typeName) n else return none
    | n => Read.mismatch ("[]" ++ s.typeName) n
where
  go : List Node → List α → Read (List α)
    | [], acc => return acc.reverse
    | n :: rest, acc => do
      match ← Read.visit s.decode n with
      | some a => go rest (a :: acc)
      | none => go rest acc

/-- A value that may be absent. -/
def optional (s : Shape α) : Shape (Option α) where
  typeName := s.typeName
  decode n := do
    match n with
    | .scalar _ tag text =>
      match ← Read.meaning tag text with
      | (.null, _) => return some none
      | _ => return (← s.decode n).map some
    | n => return (← s.decode n).map some

/-- A named part of a record. -/
structure Part (α : Type) where
  name : Bytes
  decode : Node → α → Read α

def Part.of (name : Bytes) (s : Shape β) (set : α → β → α) : Part α where
  name
  decode n a := do
    match ← Read.visit s.decode n with
    | some b => return set a b
    | none => return a

/-- The names that keys spell out. -/
def spelled : List (Node × Node) → List Bytes → Read (List Bytes)
  | [], acc => return acc
  | (k, _) :: rest, acc => do
    match ← Read.visit name? k with
    | some b => spelled rest (b :: acc)
    | none => spelled rest acc
where
  name? : Node → Read (Option Bytes)
    | .scalar _ tag text => do
      match ← Read.meaning tag text with
      | (.text, b) => return some b
      | _ => return none
    | _ => return none

/-- What pairs of a mapping gave: the record, the names that are taken, and the node to merge in. -/
structure Filling (α : Type) where
  record : α
  done : List Bytes := []
  taken : Option (List Bytes)
  merge : Option Node := none

/-- Read the pairs of a mapping into a record. Names that are `taken` are passed over. -/
def fillIn (typeName : Bytes) (parts : List (Part α)) : List (Node × Node) → Filling α → Read (Filling α)
  | [], f => return f
  | (k, v) :: rest, f => do
    if k.isMerge then fillIn typeName parts rest { f with merge := some v }
    else
      match ← Read.visit text.decode k with
      | none => fillIn typeName parts rest f
      | some name =>
        if f.taken.any (·.contains name) then fillIn typeName parts rest f
        else
          let f := { f with taken := f.taken.map (name :: ·) }
          match parts.find? fun p => p.name == name with
          | none =>
            Read.complain k.line ("field " ++ name ++ " not found in type " ++ typeName)
            fillIn typeName parts rest f
          | some p =>
            if f.done.contains name then
              Read.complain k.line ("field " ++ name ++ " already set in type " ++ typeName)
              fillIn typeName parts rest f
            else
              let record ← p.decode v f.record
              fillIn typeName parts rest { f with record, done := name :: f.done }

mutual

/-- Read a mapping into a record, then those merged into it, for names it does not give. -/
def fill (typeName : Bytes) (parts : List (Part α)) : Nat → List (Node × Node) → α →
    Option (List Bytes) → Read (α × Option (List Bytes))
  | 0, _, _, _ => Read.fail
  | fuel + 1, pairs, a, taken => do
    let f ← fillIn typeName parts pairs { record := a, taken }
    match f.merge with
    | none => return (f.record, f.taken)
    | some n =>
      let names ← match f.taken with
        | some names => pure names
        | none => spelled pairs []
      let sources ← match n with
        | .sequence _ _ items => pure items
        | n => pure [n]
      let (a, names) ← mergeAll typeName parts fuel sources f.record names
      return (a, f.taken.map fun _ => names)

/-- Merge mappings into a record, the first first. -/
def mergeAll (typeName : Bytes) (parts : List (Part α)) : Nat → List Node → α → List Bytes →
    Read (α × List Bytes)
  | 0, _, _, _ => Read.fail
  | _ + 1, [], a, names => return (a, names)
  | fuel + 1, n :: rest, a, names => do
    let (a, names) ← Read.visit (fun
      | .mapping _ _ pairs => do
        if ← Read.distinctKeys pairs then
          let (a, taken) ← fill typeName parts fuel pairs a (some names)
          return (a, taken.getD names)
        else return (a, names)
      | _ => Read.fail) n
    mergeAll typeName parts fuel rest a names

end

/-- Mappings are merged no deeper than this. -/
def maxMerges : Nat := 1000000

/-- A mapping with known keys, each for a part of a record that starts out as `empty`. -/
def record (typeName : Bytes) (empty : α) (parts : List (Part α)) : Shape α where
  typeName
  decode n := do
    match n with
    | .scalar _ tag text =>
      match ← Read.meaning tag text with
      | (.null, _) => return none
      | _ => Read.mismatch typeName n
    | .mapping _ _ pairs =>
      if ← Read.distinctKeys pairs then
        return some (← fill typeName parts maxMerges pairs empty none).1
      else return none
    | n => Read.mismatch typeName n

end Shape

/-- Why a document gives no value. -/
inductive Problem where
  /-- It is no proper document. -/
  | malformed
  /-- It does not fit the shape; there is a text for each misfit. -/
  | misfits (complaints : List Bytes)

/-- The value of a document; one that is empty or null has none. -/
def Document.decode {α : Type} (d : Document) (s : Shape α) : Except Problem (Option α) :=
  let run : Read (Option α) := do
    Read.count
    Read.visit s.decode d.root
  match (run.run d).run {} with
  | .error _ => .error .malformed
  | .ok (a, r) => if r.complaints.isEmpty then .ok a else .error (.misfits r.complaints.toList)

end CoffWorks.Yaml
