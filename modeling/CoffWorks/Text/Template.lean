import CoffWorks.Text.Layout

namespace CoffWorks.Text

namespace Template

/-- What sort of value a complaint names. -/
def sort : Datum → Bytes
  | .nothing => "<nil>"
  | .int _ => "int64"
  | .text _ => "string"
  | .bool _ => "bool"

/-- A character by its code. -/
def charOf (n : Int) : Char :=
  if 0 ≤ n ∧ n.toNat.isValidChar then Char.ofNat n.toNat else Char.ofNat 0xfffd

def ofText? (l : Layout) (verb : Char) (b : Bytes) : Option Bytes :=
  match verb with
  | 'v' => some (if l.quoted then l.quote b else l.text b)
  | 's' => some (l.text b)
  | 'q' => some (l.quote b)
  | 'x' => some (l.hexBytes "0x" hex b)
  | 'X' => some (l.hexBytes "0X" upperHex b)
  | _ => none

def ofInt? (l : Layout) (verb : Char) (n : Int) : Option Bytes :=
  let m := n.natAbs
  let marked (mark : Bytes) : Bytes → Bytes := fun _ => if l.sharp then mark else .empty
  let octal (ds : Bytes) : Bytes := if l.sharp ∧ ds.byteAt 0 ≠ 48 then "0" else .empty
  match verb with
  | 'v' => some (l.number n (fun _ => .empty) (decimal m))
  | 'd' => some (l.number n (fun _ => .empty) (decimal m))
  | 'b' => some (l.number n (marked "0b") (Layout.inBase 2 m))
  | 'o' => some (l.number n octal (Layout.inBase 8 m))
  | 'O' => some (l.number n (fun ds => "0o" ++ octal ds) (Layout.inBase 8 m))
  | 'x' => some (l.number n (marked "0x") (hex 1 m))
  | 'X' => some (l.number n (marked "0X") (upperHex 1 m))
  | 'c' => some (l.fill (pushChar .empty (charOf n)))
  | 'q' => some (l.quoteOne (charOf n))
  | 'U' => some (l.codePoint (UInt64.ofInt n).toNat)
  | _ => none

/-- The value at a mark, if the mark suits it. -/
def value? (l : Layout) (verb : Char) : Datum → Option Bytes
  | .nothing => if verb = 'v' ∨ verb = 'T' then some (l.fill "<nil>") else none
  | d =>
    if verb = 'T' then some (l.text (sort d))
    else match d with
      | .bool _ => if verb = 't' ∨ verb = 'v' then some (l.fill d.plain) else none
      | .text b => ofText? l verb b
      | .int n => ofInt? l verb n
      | .nothing => none

/-- A value with its sort, as complaints show it. -/
def shown (l : Layout) : Datum → Bytes
  | .nothing => "<nil>"
  | d => sort d ++ "=" ++ (value? l 'v' d).getD .empty

/-- The values left over. -/
def extra : List Datum → Bytes
  | [] => .empty
  | rest => "%!(EXTRA " ++ Bytes.join ", " (rest.map (shown {})) ++ ")"

/-- What is read of a mark: the layout, the number of its value, whether a number was just given,
whether all numbers make sense, and complaints. -/
structure Mark where
  layout : Layout := {}
  next : Nat
  numbered : Bool := false
  reordered : Bool
  sound : Bool := true
  complaints : Bytes := .empty

def flags : Layout → List Glyph → Layout × List Glyph
  | l, .char c :: rest =>
    match l.flag? c with
    | some l => flags l rest
    | none => (l, .char c :: rest)
  | l, rest => (l, rest)

def digit? (c : Char) : Option Nat := if c.isDigit then some (c.toNat - 48) else none

/-- Larger numbers are none, and nothing counts after them. -/
def maxNumber : Nat := 1000000

/-- A number at the start, if there is one; `n` are its digits so far. -/
def digits : Option Nat → List Glyph → Option Nat × List Glyph
  | n, .char c :: rest =>
    match digit? c with
    | some d => if n.any (· > maxNumber) then (none, []) else digits (some (n.getD 0 * 10 + d)) rest
    | none => (n, .char c :: rest)
  | n, rest => (n, rest)

/-- The number between brackets, the first of which is behind us. -/
def bracketed (rest : List Glyph) : Option Nat × List Glyph :=
  if rest.length < 2 then (none, rest)
  else
    match rest.span (· ≠ .char ']') with
    | (inner, _ :: after) =>
      match digits none inner with
      | (some n, []) => (some n, after)
      | _ => (none, after)
    | (_, []) => (none, rest)

/-- A value may be chosen by its number in brackets, counted from one. -/
def choose (count : Nat) (m : Mark) : List Glyph → Mark × List Glyph
  | .char '[' :: rest =>
    match bracketed rest with
    | (some n, rest) =>
      if 0 < n ∧ n ≤ count then ({ m with next := n - 1, numbered := true, reordered := true }, rest)
      else ({ m with numbered := true, reordered := true, sound := false }, rest)
    | (none, rest) => ({ m with numbered := false, reordered := true, sound := false }, rest)
  | rest => ({ m with numbered := false }, rest)

/-- The next value as a width or a precision. -/
def measure? (args : Array Datum) (i : Nat) : Option Int :=
  match args[i]? with
  | some (.int n) => if n.natAbs > maxNumber then none else some n
  | _ => none

def width (args : Array Datum) (m : Mark) : List Glyph → Mark × List Glyph
  | .char '*' :: rest =>
    let next := if m.next < args.size then m.next + 1 else m.next
    match measure? args m.next with
    | some n => ({ m with layout := m.layout.withWidth n, next, numbered := false }, rest)
    | none =>
      ({ m with next, numbered := false, complaints := m.complaints ++ "%!(BADWIDTH)" }, rest)
  | rest =>
    match digits none rest with
    | (some n, rest) =>
      ({ m with layout := { m.layout with width := some n }, sound := m.sound && !m.numbered }, rest)
    | (none, rest) => (m, rest)

def precision (args : Array Datum) (m : Mark) : List Glyph → Mark × List Glyph
  | .char '.' :: rest =>
    match choose args.size { m with sound := m.sound && !m.numbered } rest with
    | (m, .char '*' :: rest) =>
      let next := if m.next < args.size then m.next + 1 else m.next
      match (measure? args m.next).filter (0 ≤ ·) with
      | some n =>
        ({ m with layout := { m.layout with precision := some n.toNat }, next, numbered := false }, rest)
      | none =>
        ({ m with next, numbered := false, complaints := m.complaints ++ "%!(BADPREC)" }, rest)
    | (m, rest) =>
      let (n, rest) := digits none rest
      ({ m with layout := { m.layout with precision := some (n.getD 0) } }, rest)
  | rest => (m, rest)

/-- Read a mark up to its verb. -/
def mark (args : Array Datum) (next : Nat) (reordered : Bool) (rest : List Glyph) : Mark × List Glyph :=
  let (layout, rest) := flags {} rest
  let (m, rest) := choose args.size { layout, next, reordered } rest
  let (m, rest) := width args m rest
  let (m, rest) := precision args m rest
  if m.numbered then (m, rest) else choose args.size m rest

/-- For `%v` the sharp mark asks for quotes, and signs are not shown. -/
def forVerb (l : Layout) (verb : Char) : Layout :=
  if verb = 'v' then { l with quoted := l.sharp, sharp := false, plus := false } else l

/-- What a mark is replaced by, and the number of the next value. -/
def take (args : Array Datum) (m : Mark) (verb : Char) : Bytes × Nat :=
  let complain (what : Bytes) : Bytes := pushChar "%!" verb ++ "(" ++ what ++ ")"
  if verb = '%' then ("%", m.next)
  else if !m.sound then (complain "BADINDEX", m.next)
  else
    match args[m.next]? with
    | none => (complain "MISSING", m.next)
    | some d =>
      let l := forVerb m.layout verb
      ((value? l verb d).getD (complain (shown l d)), m.next + 1)

/-- Go through a template; without a verb at its end a mark is incomplete. -/
def fill (args : Array Datum) : Nat → List Glyph → Nat → Bool → Bytes → Bytes
  | 0, _, _, _, out => out
  | _ + 1, [], next, reordered, out =>
    if reordered then out else out ++ extra (args.toList.drop next)
  | fuel + 1, .char '%' :: rest, next, reordered, out =>
    match mark args next reordered rest with
    | (m, []) =>
      fill args fuel [] m.next m.reordered (out ++ m.complaints ++ "%!(NOVERB)")
    | (m, g :: rest) =>
      let verb := match g with
        | .char c => c
        | .stray _ => Char.ofNat 0xfffd
      let (text, next) := take args m verb
      fill args fuel rest next m.reordered (out ++ m.complaints ++ text)
  | fuel + 1, g :: rest, next, reordered, out =>
    fill args fuel rest next reordered (pushGlyph out g)

end Template

/-- The template with its marks replaced by the values: `%d`, `%s`, `%q`, `%v`, `%x` and the like, with
flags, a width, a precision and perhaps the number of the value. A mark that does not suit its value, lacks
one, or leaves some over is spelled out in the result instead of failing. Without values the template stands
for itself. -/
def fillIn (template : Bytes) (args : List Datum) : Bytes :=
  if args.isEmpty then template
  else
    let gs := glyphs template
    Template.fill args.toArray (gs.length + 2) gs 0 false .empty

end CoffWorks.Text
