import CoffWorks.Failure
import CoffWorks.Text.Keyword
import CoffWorks.Text.Literal

namespace CoffWorks

/-- Names with the codes they stand for, sorted by name. -/
abbrev Lexicon (α : Type) := List (String × α)

namespace Lexicon

variable {α : Type}

/-- The first name of a code. -/
def name? [DecidableEq α] (l : Lexicon α) (a : α) : Option Bytes :=
  (l.find? fun e => e.2 = a).map fun e => e.1.toUTF8

/-- What a name stands for. -/
def code? (l : Lexicon α) (name : Bytes) : Option α :=
  (l.find? fun e => e.1.toUTF8 == name).map Prod.snd

/-- The code of a keyword: by name, or else as a number below `2 ^ bits`. -/
def read? (l : Lexicon α) (bits : Nat) (ofNat : Nat → α) (key : Bytes) : Option α :=
  match l.code? key with
  | some a => some a
  | none => (Text.literal? bits key).map ofNat

end Lexicon

/-- A result, or the complaint that `text` is unknown as a `what`. -/
def knownOr {α : Type} (what text : Bytes) : Option α → Attempt α
  | some a => .ok a
  | none => .error (.plain ("unknown " ++ what ++ " " ++ Text.quote text))

end CoffWorks
