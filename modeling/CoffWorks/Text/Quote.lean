import CoffWorks.Text.Glyph
import CoffWorks.Text.Number
import CoffWorks.Text.Printable

namespace CoffWorks.Text

/-- The escapes of one letter. -/
def shortEscape? : Char → Option Bytes
  | '\x07' => some "\\a"
  | '\x08' => some "\\b"
  | '\x0c' => some "\\f"
  | '\n' => some "\\n"
  | '\r' => some "\\r"
  | '\t' => some "\\t"
  | '\x0b' => some "\\v"
  | _ => none

def quoteChar (c : Char) : Bytes :=
  if c = '"' ∨ c = '\\' then pushChar "\\" c
  else if isPrintable c then pushChar .empty c
  else match shortEscape? c with
    | some e => e
    | none =>
      if c.toNat < 0x20 ∨ c.toNat = 0x7f then "\\x" ++ hex 2 c.toNat
      else if c.toNat < 0x10000 then "\\u" ++ hex 4 c.toNat
      else "\\U" ++ hex 8 c.toNat

def quoteGlyph : Glyph → Bytes
  | .char c => quoteChar c
  | .stray b => "\\x" ++ hex 2 b.toNat

/-- `b` between double quotes, with escapes for the quote, the backslash, whatever is not printable and
bytes that belong to no character. -/
def quote (b : Bytes) : Bytes :=
  foldGlyphs b (fun acc g => acc ++ quoteGlyph g) "\"" ++ "\""

end CoffWorks.Text
