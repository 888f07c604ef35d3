import CoffWorks.Text.Blank

namespace CoffWorks.Text

/-- The lower case of `c` as far as it is an ASCII letter. Besides the ASCII capitals these are the
dotted capital I and the Kelvin sign. -/
def lowerKey (c : Char) : Char :=
  if c.toNat = 0x130 then 'i' else if c.toNat = 0x212a then 'k' else c.toLower

def Glyph.lowerKey : Glyph → Glyph
  | .char c => .char (Text.lowerKey c)
  | .stray b => .stray b

/-- The form in which a keyword is looked up, without regard to case and surrounding white space. -/
def keyword (b : Bytes) : Bytes := ofGlyphs ((trimmed (glyphs b)).map Glyph.lowerKey)

end CoffWorks.Text
