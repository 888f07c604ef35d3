import CoffWorks.Bytes.Basic

namespace CoffWorks.Text

/-- A piece of a text: a character, or a byte that is part of none. That stands for itself, so that no byte
is lost. -/
inductive Glyph where
  | char (c : Char)
  | stray (b : UInt8)
deriving DecidableEq

def Glyph.width : Glyph → Nat
  | .char c => c.utf8Size
  | .stray _ => 1

theorem Glyph.width_pos (g : Glyph) : 0 < g.width := by
  cases g with
  | char c => exact c.utf8Size_pos
  | stray b => exact Nat.one_pos

/-- The glyph at `pos`: the character whose encoding starts there, or else the byte. -/
def glyphAt? (b : Bytes) (pos : Nat) : Option Glyph :=
  if h : pos < b.size then
    match b.utf8DecodeChar? pos with
    | some c => some (.char c)
    | none => some (.stray b[pos])
  else none

/-- Combine the glyphs from `pos` on, first to last. -/
def foldGlyphsFrom {α : Type} (b : Bytes) (f : α → Glyph → α) (pos : Nat) (acc : α) : α :=
  if pos < b.size then
    match glyphAt? b pos with
    | some g => foldGlyphsFrom b f (pos + g.width) (f acc g)
    | none => acc
  else acc
termination_by b.size - pos
decreasing_by have := g.width_pos; omega

def foldGlyphs {α : Type} (b : Bytes) (f : α → Glyph → α) (init : α) : α :=
  foldGlyphsFrom b f 0 init

def glyphs (b : Bytes) : List Glyph := (foldGlyphs b (fun acc g => g :: acc) []).reverse

/-- `b` followed by the encoding of `c`. -/
def pushChar (b : Bytes) (c : Char) : Bytes := (String.utf8EncodeChar c).foldl ByteArray.push b

def ofChars (cs : List Char) : Bytes := cs.foldl pushChar .empty

def pushGlyph (b : Bytes) : Glyph → Bytes
  | .char c => pushChar b c
  | .stray x => b.push x

def ofGlyphs (gs : List Glyph) : Bytes := gs.foldl pushGlyph .empty

def isValid (b : Bytes) : Bool := b.validateUTF8

end CoffWorks.Text
