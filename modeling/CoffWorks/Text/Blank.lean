import CoffWorks.Text.Glyph

namespace CoffWorks.Text

/-- The spaces of Unicode: the ASCII ones, next line, and those of the space and line categories. -/
def isBlank (c : Char) : Bool :=
  c = ' ' ∨ ('\t' ≤ c ∧ c ≤ '\r') ∨ c.toNat = 0x85 ∨ c.toNat = 0xa0 ∨ c.toNat = 0x1680
    ∨ (0x2000 ≤ c.toNat ∧ c.toNat ≤ 0x200a) ∨ c.toNat = 0x2028 ∨ c.toNat = 0x2029
    ∨ c.toNat = 0x202f ∨ c.toNat = 0x205f ∨ c.toNat = 0x3000

def Glyph.isBlank : Glyph → Bool
  | .char c => Text.isBlank c
  | .stray _ => false

/-- Without the white space at both ends. -/
def trimmed (gs : List Glyph) : List Glyph :=
  ((gs.dropWhile Glyph.isBlank).reverse.dropWhile Glyph.isBlank).reverse

/-- Without any white space. -/
def withoutBlanks (b : Bytes) : Bytes :=
  foldGlyphs b (fun acc g => if g.isBlank then acc else pushGlyph acc g) .empty

end CoffWorks.Text
