import CoffWorks.Yaml.Stream

namespace CoffWorks.Yaml

/-- The text so far, continued after a gap with line breaks: a single break is a space, of several
the first is dropped. -/
def foldLines (text first others : Bytes) : Bytes :=
  if first.byteAt 0 = 10 then
    if others.isEmpty then text.push 32 else text ++ others
  else text ++ first ++ others

/-- Blanks and line breaks between two words: the blanks before the first break, or the breaks. -/
structure Gap where
  broken : Bool := false
  blanks : Bytes := .empty
  first : Bytes := .empty
  others : Bytes := .empty

/-- Read a gap. After a line break there is no tab left of column `indent`. -/
def Gap.read (s : Stream) (indent : Int) : Nat → Place → Gap → Except Unit (Place × Gap)
  | 0, p, g => .ok (p, g)
  | fuel + 1, p, g =>
    let c := s.get p.index
    if isBlank c then
      if g.broken ∧ p.column < indent ∧ c = '\t' then .error ()
      else if g.broken then Gap.read s indent fuel (p.next s) g
      else Gap.read s indent fuel (p.next s) { g with blanks := Text.pushChar g.blanks c }
    else if isBreak c then
      if g.broken then Gap.read s indent fuel (p.newLine s) { g with others := pushBreak g.others c }
      else Gap.read s indent fuel (p.newLine s)
        { g with broken := true, blanks := .empty, first := pushBreak g.first c }
    else .ok (p, g)

namespace Plain

/-- Characters that end a plain scalar inside brackets. -/
def flowIndicators : List Char := [',', '?', '[', ']', '\x7b', '\x7d']

def ends (s : Stream) (inFlow : Bool) (i : Nat) : Bool :=
  let c := s.get i
  endsWord c || (c = ':' && endsWord (s.get (i + 1))) || (inFlow && flowIndicators.contains c)

/-- Read a word. -/
def word (s : Stream) (inFlow : Bool) : Nat → Place → Bytes → Place × Bytes
  | 0, p, text => (p, text)
  | fuel + 1, p, text =>
    if ends s inFlow p.index then (p, text)
    else word s inFlow fuel (p.next s) (Text.pushChar text (s.get p.index))

/-- Read words and gaps. The result tells whether a line break comes after the last word. -/
def read (s : Stream) (inFlow : Bool) (indent : Int) : Nat → Place → Bytes → Gap →
    Except Unit (Place × Bytes × Bool)
  | 0, p, text, g => .ok (p, text, g.broken)
  | fuel + 1, p, text, g =>
    if p.atMarker s ∨ s.get p.index = '#' then .ok (p, text, g.broken)
    else
      let idle := ends s inFlow p.index
      let text :=
        if idle then text
        else if g.broken then foldLines text g.first g.others
        else text ++ g.blanks
      let g := if idle then g else {}
      let (p, text) := word s inFlow (p.rest s) p text
      let c := s.get p.index
      if ¬ (isBlank c ∨ isBreak c) then .ok (p, text, g.broken)
      else
        match g.read s indent (p.rest s) p with
        | .error e => .error e
        | .ok (p, g) =>
          if ¬ inFlow ∧ p.column < indent then .ok (p, text, g.broken)
          else read s inFlow indent fuel p text g

end Plain

namespace Quoted

/-- The escapes of one character. -/
def escape? : Char → Option Char
  | '0' => some '\x00'
  | 'a' => some '\x07'
  | 'b' => some '\x08'
  | 't' => some '\t'
  | '\t' => some '\t'
  | 'n' => some '\n'
  | 'v' => some '\x0b'
  | 'f' => some '\x0c'
  | 'r' => some '\r'
  | 'e' => some '\x1b'
  | ' ' => some ' '
  | '"' => some '"'
  | '\'' => some '\''
  | '\\' => some '\\'
  | 'N' => some '\u0085'
  | '_' => some '\u00a0'
  | 'L' => some '\u2028'
  | 'P' => some '\u2029'
  | _ => none

/-- How many digits follow. -/
def escapeDigits : Char → Nat
  | 'x' => 2
  | 'u' => 4
  | 'U' => 8
  | _ => 0

def hexValue? (c : Char) : Option Nat :=
  if '0' ≤ c ∧ c ≤ '9' then some (c.toNat - 48)
  else if 'a' ≤ c ∧ c ≤ 'f' then some (c.toNat - 87)
  else if 'A' ≤ c ∧ c ≤ 'F' then some (c.toNat - 55)
  else none

/-- The number written with the `n` digits from `i` on. -/
def hexNumber? (s : Stream) (i n : Nat) : Option Nat :=
  (List.range n).foldlM (fun v k => (hexValue? (s.get (i + k))).map (16 * v + ·)) 0

/-- Read a piece without blanks. The result tells whether an escaped line break ended it. -/
def piece (s : Stream) (single : Bool) : Nat → Place → Bytes → Except Unit (Place × Bytes × Bool)
  | 0, p, text => .ok (p, text, false)
  | fuel + 1, p, text =>
    let c := s.get p.index
    let d := s.get (p.index + 1)
    if endsWord c then .ok (p, text, false)
    else if single ∧ c = '\'' ∧ d = '\'' then piece s single fuel (p.advance s 2) (text.push 39)
    else if (single ∧ c = '\'') ∨ (¬ single ∧ c = '"') then .ok (p, text, false)
    else if ¬ single ∧ c = '\\' then
      if isBreak d then .ok ((p.next s).newLine s, text, true)
      else
        match escape? d with
        | some e => piece s single fuel (p.advance s 2) (Text.pushChar text e)
        | none =>
          let n := escapeDigits d
          match if n = 0 then none else hexNumber? s (p.index + 2) n with
          | none => .error ()
          | some v =>
            if (0xd800 ≤ v ∧ v ≤ 0xdfff) ∨ v > 0x10ffff then .error ()
            else piece s single fuel (p.advance s (2 + n)) (Text.pushChar text (Char.ofNat v))
    else piece s single fuel (p.next s) (Text.pushChar text c)

/-- Read up to the closing quote. -/
def read (s : Stream) (single : Bool) : Nat → Place → Bytes → Except Unit (Place × Bytes)
  | 0, _, _ => .error ()
  | fuel + 1, p, text =>
    if p.atMarker s ∨ isEnd (s.get p.index) then .error ()
    else
      match piece s single (p.rest s) p text with
      | .error e => .error e
      | .ok (p, text, escaped) =>
        if s.get p.index = (if single then '\'' else '"') then .ok (p.next s, text)
        else
          match Gap.read s 0 (p.rest s) p { broken := escaped } with
          | .error e => .error e
          | .ok (p, g) =>
            read s single fuel p
              (if g.broken then foldLines text g.first g.others else text ++ g.blanks)

end Quoted

/-- What happens to the line breaks at the end of a block. -/
inductive Chomping where
  | strip | clip | keep

namespace Block

/-- Read empty lines and the indentation of the next one. Without a fixed `indent` (zero) the widest
is the result. -/
def breaks (s : Stream) (indent : Nat) : Nat → Place → Nat → Bytes → Except Unit (Place × Nat × Bytes)
  | 0, p, widest, acc => .ok (p, widest, acc)
  | fuel + 1, p, widest, acc =>
    let isOpen (column : Nat) : Bool := indent = 0 ∨ column < indent
    let p := margin isOpen fuel p
    let widest := max widest p.column
    let c := s.get p.index
    if isOpen p.column ∧ c = '\t' then .error ()
    else if isBreak c then breaks s indent fuel (p.newLine s) widest (pushBreak acc c)
    else .ok (p, widest, acc)
where
  margin (isOpen : Nat → Bool) : Nat → Place → Place
    | 0, p => p
    | fuel + 1, p =>
      if isOpen p.column ∧ s.get p.index = ' ' then margin isOpen fuel (p.next s) else p

def line (s : Stream) : Nat → Place → Bytes → Place × Bytes
  | 0, p, text => (p, text)
  | fuel + 1, p, text =>
    let c := s.get p.index
    if endsLine c then (p, text) else line s fuel (p.next s) (Text.pushChar text c)

/-- Read the lines at column `indent`. Of the two last arguments one is the break after the line
before, the other those of empty lines. -/
def lines (s : Stream) (literal : Bool) (indent : Nat) : Nat → Place → Bytes → Bool → Bytes → Bytes →
    Except Unit (Place × Bytes × Bytes × Bytes)
  | 0, p, text, _, first, others => .ok (p, text, first, others)
  | fuel + 1, p, text, wasBlank, first, others =>
    if p.column ≠ indent ∨ isEnd (s.get p.index) then .ok (p, text, first, others)
    else
      let blank := isBlank (s.get p.index)
      let folded := ¬ literal ∧ ¬ wasBlank ∧ ¬ blank ∧ first.byteAt 0 = 10
      let text :=
        if folded then (if others.isEmpty then text.push 32 else text) else text ++ first
      let (p, text) := line s (p.rest s) p (text ++ others)
      let c := s.get p.index
      let first := if isBreak c then pushBreak .empty c else .empty
      let p := if isBreak c then p.newLine s else p
      match breaks s indent (p.rest s) p 0 .empty with
      | .error e => .error e
      | .ok (p, _, others) => lines s literal indent fuel p text blank first others

def chomping? : Char → Option Chomping
  | '+' => some .keep
  | '-' => some .strip
  | _ => none

/-- An indentation digit, none or a zero, which is refused. -/
def increment? (c : Char) : Option Nat := if c.isDigit then some (c.toNat - 48) else none

/-- Read the indicators after the opening one, in either order. -/
def header (s : Stream) (p : Place) : Except Unit (Place × Chomping × Nat) :=
  let c := s.get p.index
  let d := s.get (p.index + 1)
  match chomping? c, increment? c with
  | some how, _ =>
    match increment? d with
    | some 0 => .error ()
    | some n => .ok (p.advance s 2, how, n)
    | none => .ok (p.next s, how, 0)
  | none, some 0 => .error ()
  | none, some n =>
    match chomping? d with
    | some how => .ok (p.advance s 2, how, n)
    | none => .ok (p.next s, .clip, n)
  | none, none => .ok (p, .clip, 0)

/-- Read a block whose indicator is behind us. `indent` is that of the collection around it. -/
def read (s : Stream) (literal : Bool) (indent : Int) (p : Place) : Except Unit (Place × Bytes) := do
  let (p, how, increment) ← header s p
  let p := p.skipWhile s isBlank (p.rest s)
  let p := if s.get p.index = '#' then p.skipWhile s (fun c => !endsLine c) (p.rest s) else p
  if !endsLine (s.get p.index) then .error ()
  let p := if isBreak (s.get p.index) then p.newLine s else p
  let fixed := if increment = 0 then 0 else indent.toNat + increment
  let (p, widest, others) ← breaks s fixed (p.rest s) p 0 .empty
  let column := if fixed = 0 then max (max widest (indent + 1).toNat) 1 else fixed
  let (p, text, first, others) ← lines s literal column (p.rest s) p .empty false .empty others
  return (p, match how with
    | .strip => text
    | .clip => text ++ first
    | .keep => text ++ first ++ others)

end Block

end CoffWorks.Yaml
