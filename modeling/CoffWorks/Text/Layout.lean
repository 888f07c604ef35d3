import CoffWorks.Failure

namespace CoffWorks.Text

/-- How a value is laid out in a message: with signs, marks of the base, a least width and a precision. -/
structure Layout where
  minus : Bool := false
  plus : Bool := false
  sharp : Bool := false
  space : Bool := false
  zero : Bool := false
  /-- Texts are shown with quotes. -/
  quoted : Bool := false
  width : Option Nat := none
  precision : Option Nat := none

namespace Layout

def flag? (l : Layout) : Char → Option Layout
  | '-' => some { l with minus := true, zero := false }
  | '+' => some { l with plus := true }
  | '#' => some { l with sharp := true }
  | ' ' => some { l with space := true }
  | '0' => some { l with zero := !l.minus }
  | _ => none

/-- Widths are negative to ask for blanks on the right. -/
def withWidth (l : Layout) (n : Int) : Layout :=
  if n < 0 then { l with width := some n.natAbs, minus := true, zero := false }
  else { l with width := some n.natAbs }

def glyphCount (b : Bytes) : Nat := foldGlyphs b (fun n _ => n + 1) 0

/-- Fill up to the width. -/
def fill (l : Layout) (b : Bytes) : Bytes :=
  match l.width with
  | none => b
  | some w =>
    let gap := w - glyphCount b
    if l.minus then b ++ Bytes.times " " gap
    else Bytes.times (if l.zero then "0" else " ") gap ++ b

def fillBlank (l : Layout) (b : Bytes) : Bytes := { l with zero := false }.fill b

/-- The sign to write before digits. -/
def sign (l : Layout) (n : Int) : Bytes :=
  if n < 0 then "-" else if l.plus then "+" else if l.space then " " else .empty

/-- A number by its digits, with the sign and a mark before them; the mark may depend on the digits
with their leading zeros. A zero with precision zero is nothing. -/
def number (l : Layout) (n : Int) (mark : Bytes → Bytes) (digits : Bytes) : Bytes :=
  if l.precision = some 0 ∧ n = 0 then l.fillBlank .empty
  else
    let least := match l.precision with
      | some p => p
      | none => if l.zero then l.width.getD 0 - (l.sign n).size else 0
    let digits := Bytes.times "0" (least - digits.size) ++ digits
    l.fillBlank (l.sign n ++ mark digits ++ digits)

/-- Cut to the precision. -/
def cut (l : Layout) (b : Bytes) : Bytes :=
  match l.precision with
  | none => b
  | some p =>
    (foldGlyphs b (fun (acc, n) g => (if n < p then pushGlyph acc g else acc, n + 1)) (Bytes.zeros 0, 0)).1

def text (l : Layout) (b : Bytes) : Bytes := l.fill (l.cut b)

/-- A character with escapes for all that is not ASCII. -/
def quoteAscii (c : Char) : Bytes :=
  if c.toNat < 0x80 then quoteChar c
  else if c.toNat < 0x10000 then "\\u" ++ hex 4 c.toNat
  else "\\U" ++ hex 8 c.toNat

def quoteGlyphWith (escape : Char → Bytes) : Glyph → Bytes
  | .char c => escape c
  | g => quoteGlyph g

/-- Whether a text may stand between backticks. -/
def isRaw (b : Bytes) : Bool :=
  (glyphs b).all fun g => match g with
    | .char c => c = '\t' ∨ (0x20 ≤ c.toNat ∧ c ≠ '\x60' ∧ c ≠ '\x7f' ∧ c ≠ '\ufeff')
    | .stray _ => false

/-- In double quotes; `sharp` asks for backticks where possible, `plus` for ASCII. -/
def quote (l : Layout) (b : Bytes) : Bytes :=
  let b := l.cut b
  if l.sharp ∧ isRaw b then l.fill ("\x60" ++ b ++ ("\x60" : Bytes))
  else if l.plus then
    l.fill (foldGlyphs b (fun acc g => acc ++ quoteGlyphWith quoteAscii g) "\"" ++ ("\"" : Bytes))
  else l.fill (Text.quote b)

/-- A character in single quotes. -/
def quoteOne (l : Layout) (c : Char) : Bytes :=
  l.fill (if c = '\'' then "'\\''" else if c = '"' then "'\"'"
    else "'" ++ (if l.plus then quoteAscii c else quoteChar c) ++ "'")

def inBase (base n : Nat) : Bytes := (String.ofList (Nat.toDigits base n)).toUTF8

/-- The bytes of a text in base 16; `space` sets them apart, `sharp` marks them or, if they are
together, the first. -/
def hexBytes (l : Layout) (mark : Bytes) (digits : Nat → Nat → Bytes) (b : Bytes) : Bytes :=
  let b := match l.precision with
    | some p => b.take p
    | none => b
  let parts := b.toList.map fun x => digits 2 x.toNat
  let mark := if l.sharp then mark else .empty
  l.fill (if parts.isEmpty then .empty
    else if l.space then Bytes.join " " (parts.map (mark ++ ·))
    else mark ++ Bytes.concat parts)

/-- A code point; `sharp` adds the character if it can be shown. -/
def codePoint (l : Layout) (n : Nat) : Bytes :=
  let code := "U+" ++ upperHex (max 4 (l.precision.getD 0)) n
  let shown : Bytes :=
    if l.sharp ∧ n.isValidChar ∧ isPrintable (Char.ofNat n) then
      pushChar " '" (Char.ofNat n) ++ ("'" : Bytes)
    else .empty
  l.fillBlank (code ++ shown)

end Layout

end CoffWorks.Text
