import CoffWorks.Text.Glyph

namespace CoffWorks.Yaml

/-- The characters of a stream. If it is `broken` there is a fault after them. -/
structure Stream where
  chars : Array Char
  broken : Bool

/-- How many bytes are taken in at a time. -/
def blockSize : Nat := 512

/-- Whether a stream may hold `c`. -/
def isAllowed (c : Char) : Bool :=
  let n := c.toNat
  c = '\t' ∨ c = '\n' ∨ c = '\r' ∨ (0x20 ≤ n ∧ n ≤ 0x7e) ∨ n = 0x85 ∨ (0xa0 ≤ n ∧ n ≤ 0xfffd)
    ∨ 0x10000 ≤ n

/-- A way to write characters as bytes: how many bytes the one at a position takes, going by its
first bytes, and what it is. -/
structure Encoding where
  width? : Bytes → Nat → Option Nat
  char? : Bytes → Nat → Option Char

namespace Encoding

def utf8 : Encoding where
  width? b pos :=
    let x := b.byteAt pos
    if x < 0x80 then some 1
    else if x &&& 0xe0 = 0xc0 then some 2
    else if x &&& 0xf0 = 0xe0 then some 3
    else if x &&& 0xf8 = 0xf0 then some 4
    else none
  char? b pos := b.utf8DecodeChar? pos

def utf16 (unitAt : Bytes → Nat → Nat) : Encoding where
  width? b pos :=
    let u := unitAt b pos
    if 0xdc00 ≤ u ∧ u < 0xe000 then none
    else if 0xd800 ≤ u ∧ u < 0xdc00 ∧ pos + 1 < b.size then some 4
    else some 2
  char? b pos :=
    let u := unitAt b pos
    if 0xd800 ≤ u ∧ u < 0xdc00 then
      let v := unitAt b (pos + 2)
      if 0xdc00 ≤ v ∧ v < 0xe000 then
        some (Char.ofNat (0x10000 + (u - 0xd800) * 0x400 + (v - 0xdc00)))
      else none
    else some (Char.ofNat u)

def utf16Little : Encoding := utf16 fun b pos => b.wordAt pos 2

def utf16Big : Encoding :=
  utf16 fun b pos => (b.byteAt pos).toNat * 256 + (b.byteAt (pos + 1)).toNat

/-- The encoding a stream announces, and where its characters start. -/
def detect (b : Bytes) : Encoding × Nat :=
  if b.byteAt 0 = 0xff ∧ b.byteAt 1 = 0xfe then (utf16Little, 2)
  else if b.byteAt 0 = 0xfe ∧ b.byteAt 1 = 0xff then (utf16Big, 2)
  else if b.byteAt 0 = 0xef ∧ b.byteAt 1 = 0xbb ∧ b.byteAt 2 = 0xbf then (utf8, 3)
  else (utf8, 0)

end Encoding

namespace Stream

/-- Take in characters from `pos` on; the present block ends at `blockEnd`, and `settled` characters come
from the blocks before it. A block with a fault in it gives no characters at all. -/
def decode (e : Encoding) (b : Bytes) : Nat → Nat → Nat → Nat → Array Char → Stream
  | 0, _, _, _, chars => ⟨chars, false⟩
  | fuel + 1, pos, blockEnd, settled, chars =>
    if pos ≥ b.size then ⟨chars, false⟩
    else
      match e.width? b pos with
      | none => ⟨chars.take (if pos ≥ blockEnd then chars.size else settled), true⟩
      | some width =>
        let fresh := pos + width > min blockEnd b.size
        let settled := if fresh then chars.size else settled
        let blockEnd := if fresh then pos + blockSize else blockEnd
        if pos + width > b.size then ⟨chars, true⟩
        else
          match e.char? b pos with
          | none => ⟨chars.take settled, true⟩
          | some c =>
            if isAllowed c then decode e b fuel (pos + width) blockEnd settled (chars.push c)
            else ⟨chars.take settled, true⟩

def ofBytes (b : Bytes) : Stream :=
  let (e, start) := Encoding.detect b
  decode e b (b.size + 1) start blockSize 0 #[]

/-- The character at a place, a null past the end. -/
def get (s : Stream) (i : Nat) : Char := s.chars.getD i '\x00'

end Stream

/-- Space or tab. -/
def isBlank (c : Char) : Bool := c = ' ' ∨ c = '\t'

/-- Characters that end a line. -/
def isBreak (c : Char) : Bool :=
  c = '\n' ∨ c = '\r' ∨ c.toNat = 0x85 ∨ c.toNat = 0x2028 ∨ c.toNat = 0x2029

def isEnd (c : Char) : Bool := c = '\x00'

def endsLine (c : Char) : Bool := isBreak c ∨ isEnd c

def endsWord (c : Char) : Bool := isBlank c ∨ endsLine c

/-- Letters of anchors and handles. -/
def isWordChar (c : Char) : Bool := c.isAlphanum ∨ c = '_' ∨ c = '-'

/-- `acc` followed by the line break `c`: those of Unicode stay, all others are one line feed. -/
def pushBreak (acc : Bytes) (c : Char) : Bytes :=
  if c.toNat = 0x2028 ∨ c.toNat = 0x2029 then Text.pushChar acc c else acc.push 10

/-- A place in a stream. `afterBreak` holds as long as only blanks followed the last line break. -/
structure Place where
  index : Nat := 0
  line : Nat := 0
  column : Nat := 0
  afterBreak : Bool := false

namespace Place

/-- Past one character of the line. -/
def next (s : Stream) (p : Place) : Place :=
  { index := p.index + 1, line := p.line, column := p.column + 1,
    afterBreak := p.afterBreak && isBlank (s.get p.index) }

def advance (s : Stream) (p : Place) : Nat → Place
  | 0 => p
  | n + 1 => (p.next s).advance s n

/-- Past a line break. -/
def newLine (s : Stream) (p : Place) : Place :=
  let pair := s.get p.index = '\r' ∧ s.get (p.index + 1) = '\n'
  { index := p.index + (if pair then 2 else 1), line := p.line + 1, column := 0, afterBreak := true }

/-- Whether `---` or `...` stands alone at the start of the line. -/
def atMarker (s : Stream) (p : Place) : Bool :=
  p.column = 0 && endsWord (s.get (p.index + 3)) &&
    ['-', '.'].any fun c =>
      s.get p.index = c ∧ s.get (p.index + 1) = c ∧ s.get (p.index + 2) = c

/-- Past all characters with a property, as far as `fuel` goes. -/
def skipWhile (s : Stream) (test : Char → Bool) : Nat → Place → Place
  | 0, p => p
  | fuel + 1, p => if test (s.get p.index) then skipWhile s test fuel (p.next s) else p

/-- What is left of the stream, as a bound for loops. -/
def rest (s : Stream) (p : Place) : Nat := s.chars.size + 1 - p.index

end Place

end CoffWorks.Yaml
