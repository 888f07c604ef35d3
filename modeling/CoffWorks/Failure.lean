import CoffWorks.Text.Quote

namespace CoffWorks

/-- What was being done. -/
inductive Phase where
  | construct | encode | decode | load
  | named (label : Bytes)
deriving DecidableEq

namespace Phase

def label : Phase → Bytes
  | construct => "construct"
  | encode => "encode"
  | decode => "decode"
  | load => "load"
  | named l => l

def ofLabel (l : Bytes) : Phase :=
  match [construct, encode, decode, load].find? (fun p => p.label == l) with
  | some p => p
  | none => named l

end Phase

/-- Which sort of rule was broken. -/
inductive Kind where
  | overflow | outOfBounds | invalidData | invalidInput | invariant | notFound | nilPointer | unsupported
  | named (label : Bytes)
deriving DecidableEq

namespace Kind

def label : Kind → Bytes
  | overflow => "overflow"
  | outOfBounds => "out_of_bounds"
  | invalidData => "invalid_data"
  | invalidInput => "invalid_input"
  | invariant => "invariant"
  | notFound => "not_found"
  | nilPointer => "nil_pointer"
  | unsupported => "unsupported"
  | named l => l

def ofLabel (l : Bytes) : Kind :=
  match [overflow, outOfBounds, invalidData, invalidInput, invariant, notFound, nilPointer,
      unsupported].find? (fun k => k.label == l) with
  | some k => k
  | none => named l

end Kind

/-- A value quoted by a fault. -/
inductive Datum where
  | nothing
  | int (n : Int)
  | text (b : Bytes)
  | bool (b : Bool)
deriving DecidableEq

def Datum.plain : Datum → Bytes
  | nothing => "<nil>"
  | int n => Text.signed n
  | text b => b
  | bool b => if b then "true" else "false"

/-- A broken rule: when, which sort, where in the file or the object, and the offending value. -/
structure Fault where
  phase : Phase
  kind : Kind
  path : List Bytes := []
  field : Bytes := .empty
  detail : Bytes := .empty
  value : Datum := .nothing
deriving DecidableEq

namespace Fault

/-- `value` does not fit the field. -/
def overflow (phase : Phase) (path : List Bytes) (value : Datum) (field : Bytes) : Fault :=
  { phase, kind := .overflow, path, field, value,
    detail := "value " ++ value.plain ++ " overflows " ++ field }

def outOfBounds (phase : Phase) (path : List Bytes) (index length : Int) : Fault :=
  { phase, kind := .outOfBounds, path, value := .int index,
    detail := "index " ++ Text.signed index ++ " out of bounds (length " ++ Text.signed length ++ ")" }

/-- A record is cut off. -/
def shortRead (path : List Bytes) (want got : Int) : Fault :=
  { phase := .decode, kind := .outOfBounds, path, value := .int got,
    detail := "need " ++ Text.signed want ++ " bytes, have " ++ Text.signed got }

def invalidData (phase : Phase) (path : List Bytes) (detail : Bytes) : Fault :=
  { phase, kind := .invalidData, path, detail }

def invalidInput (phase : Phase) (detail : Bytes) : Fault :=
  { phase, kind := .invalidInput, detail }

/-- The parts of an object do not belong together. -/
def invariant (path : List Bytes) (detail : Bytes) : Fault :=
  { phase := .encode, kind := .invariant, path, detail }

def notFound (phase : Phase) (what name : Bytes) : Fault :=
  { phase, kind := .notFound, value := .text name,
    detail := what ++ " " ++ Text.quote name ++ " not found" }

def nilPointer (phase : Phase) (path : List Bytes) (what : Bytes) : Fault :=
  { phase, kind := .nilPointer, path, detail := "nil " ++ what }

def unsupported (phase : Phase) (what : Bytes) : Fault :=
  { phase, kind := .unsupported, detail := what }

def message (f : Fault) : Bytes :=
  "[" ++ f.phase.label ++ "] " ++ f.kind.label
    ++ (if f.path.isEmpty then .empty else " at " ++ Bytes.join "." f.path)
    ++ (if f.field.isEmpty then .empty else ": field " ++ f.field)
    ++ (if f.detail.isEmpty then .empty
        else if f.field.isEmpty then ": " ++ f.detail
        else " - " ++ f.detail)

end Fault

/-- Why an operation gave no result: a broken rule, an end of input, a refusal of a device, or one of these
seen from further out. -/
inductive Failure where
  /-- A rule of this library is broken. -/
  | fault (fault : Fault)
  /-- A rule is broken, because of something else. -/
  | caused (fault : Fault) (cause : Failure)
  /-- Reading a record failed; `record` may be empty. -/
  | parsing (record : Bytes) (position : Nat) (cause : Failure)
  /-- Seen from further out. -/
  | within (context : Bytes) (cause : Failure)
  /-- A failure known by its text only. -/
  | plain (text : Bytes)
  /-- The device has no room left. -/
  | diskFull
  /-- The input was at its end. -/
  | endOfInput
  /-- The input ended inside an item. -/
  | unexpectedEnd
  /-- An access outside memory, or through an absent reference: the operation breaks off. -/
  | trap
deriving DecidableEq

namespace Failure

instance : Coe Fault Failure := ⟨fault⟩

def message : Failure → Bytes
  | fault f => f.message
  | caused f cause => f.message ++ " (caused by: " ++ cause.message ++ ")"
  | parsing record position cause =>
    "coff: " ++ (if record.isEmpty then .empty else record ++ " ") ++ "at position "
      ++ Text.decimal position ++ ": " ++ cause.message
  | within context cause => context ++ ": " ++ cause.message
  | plain text => text
  | diskFull => "disk full"
  | endOfInput => "EOF"
  | unexpectedEnd => "unexpected EOF"
  | trap => "trap"

/-- The failure, its cause, the cause of that, and so on. -/
def chain : Failure → List Failure
  | caused f cause => caused f cause :: cause.chain
  | parsing record position cause => parsing record position cause :: cause.chain
  | within context cause => within context cause :: cause.chain
  | e => [e]

/-- The broken rule, of the outermost failure only. -/
def fault? : Failure → Option Fault
  | fault f => some f
  | caused f _ => some f
  | _ => none

/-- Whether a rule of this phase and kind is broken somewhere along the chain. -/
def concerns (e : Failure) (phase : Phase) (kind : Kind) : Bool :=
  e.chain.any fun x => match x.fault? with
    | some f => f.phase = phase ∧ f.kind = kind
    | none => false

/-- Seen from further out; an absent cause is named as such. -/
def about (context : Bytes) : Option Failure → Failure
  | some cause => within context cause
  | none => plain (context ++ ": %!w(<nil>)")

/-- The fault with its cause, if there is one. -/
def ofFault (f : Fault) : Option Failure → Failure
  | some cause => caused f cause
  | none => fault f

end Failure

/-- A result, or why there is none. -/
abbrev Attempt := Except Failure

/-- Fail with a broken rule. -/
def reject {α : Type} (f : Fault) : Attempt α := .error (.fault f)

namespace Attempt

theorem bind_eq_ok {α β : Type} {x : Attempt α} {f : α → Attempt β} {b : β} :
    (x >>= f) = .ok b ↔ ∃ a, x = .ok a ∧ f a = .ok b := by
  cases x <;> simp [bind, Except.bind]

theorem map_eq_ok {α β : Type} {x : Attempt α} {f : α → β} {b : β} :
    x.map f = .ok b ↔ ∃ a, x = .ok a ∧ f a = b := by
  cases x <;> simp [Except.map]

theorem ok_or_reject_eq_ok {α : Type} {c : Prop} [Decidable c] {a b : α} {f : Fault} :
    (if c then .ok a else reject f : Attempt α) = .ok b ↔ c ∧ a = b := by
  by_cases h : c <;> simp [h, reject]

end Attempt

end CoffWorks
