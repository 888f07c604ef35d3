import CoffWorks.Text.Base64
import CoffWorks.Text.Number
import CoffWorks.Yaml.Meaning
import CoffWorks.Yaml.Stream

namespace CoffWorks.Yaml

/-- What a look over a text shows. -/
structure Survey where
  started : Bool := false
  /-- The last character makes an indicator if a blank follows. -/
  pending : Bool := false
  afterSpace : Bool := false
  afterBreak : Bool := false
  afterWhite : Bool := true
  indicator : Bool := false
  lineBreak : Bool := false
  special : Bool := false
  tab : Bool := false
  edge : Bool := false
  breakSpace : Bool := false
  spaceBreak : Bool := false

namespace Survey

/-- Characters that start something else than a plain scalar. -/
def leading : List Char := "#,[]\x7b\x7d&*!|>'\"%@\x60".toList

/-- Characters that are written as they are. -/
def isShown (c : Char) : Bool :=
  let n := c.toNat
  c = '\n' ∨ (0x20 ≤ n ∧ n ≤ 0x7e) ∨ (0xa0 ≤ n ∧ n ≤ 0xfffd ∧ n ≠ 0xfeff)

/-- Go on to the next character. -/
def add (v : Survey) (c : Char) : Survey :=
  { started := true
    pending := c = ':' ∨ (¬ v.started ∧ (c = '?' ∨ c = '-'))
    afterSpace := c = ' '
    afterBreak := isBreak c
    afterWhite := isBlank c ∨ isBreak c ∨ isEnd c
    indicator := v.indicator ∨ (v.pending ∧ isBlank c)
      ∨ (if v.started then c = '#' ∧ v.afterWhite else leading.contains c)
    lineBreak := v.lineBreak ∨ isBreak c
    special := v.special ∨ (¬ isShown c ∧ c ≠ '\t')
    tab := v.tab ∨ c = '\t'
    edge := v.edge ∨ (¬ v.started ∧ (c = ' ' ∨ isBreak c))
    breakSpace := v.breakSpace ∨ (v.afterBreak ∧ c = ' ')
    spaceBreak := v.spaceBreak ∨ (v.afterSpace ∧ isBreak c) }

/-- The survey of a whole text. -/
def ofText (b : Bytes) : Survey :=
  let v : Survey := Text.foldGlyphs b (fun (v : Survey) g => match g with
    | .char c => v.add c
    | .stray _ => v) {}
  { v with
    indicator := v.indicator ∨ v.pending ∨ b.startsWith "---" ∨ b.startsWith "..."
    edge := v.edge ∨ v.afterSpace ∨ v.afterBreak }

def allowsPlain (v : Survey) : Bool :=
  !(v.edge || v.indicator || v.lineBreak || v.breakSpace || v.spaceBreak || v.tab || v.special)

def allowsSingle (v : Survey) : Bool := !(v.breakSpace || v.spaceBreak || v.tab || v.special)

def allowsBlock (v : Survey) : Bool := !(v.afterSpace || v.spaceBreak || v.special)

end Survey

namespace Style

/-- In single quotes. After a line break the text goes on at column `indent`. -/
def single (indent : Nat) (b : Bytes) : Bytes :=
  let (acc, _) : Bytes × Bool := Text.foldGlyphs b (fun (acc, broken) g => match g with
    | .char c =>
      if isBreak c then (Text.pushChar acc c, true)
      else
        let acc := if broken then acc ++ Bytes.times " " indent else acc
        (Text.pushChar (if c = '\'' then acc.push 39 else acc) c, false)
    | .stray _ => (acc, broken)) (("'" : Bytes), false)
  acc.push 39

/-- Escapes of one letter. -/
def escape? (c : Char) : Option Bytes :=
  match c with
  | '\x00' => some "\\0"
  | '\x07' => some "\\a"
  | '\x08' => some "\\b"
  | '\t' => some "\\t"
  | '\n' => some "\\n"
  | '\x0b' => some "\\v"
  | '\x0c' => some "\\f"
  | '\r' => some "\\r"
  | '\x1b' => some "\\e"
  | '"' => some "\\\""
  | '\\' => some "\\\\"
  | '\u0085' => some "\\N"
  | '\u00a0' => some "\\_"
  | '\u2028' => some "\\L"
  | '\u2029' => some "\\P"
  | _ => none

/-- Characters that need no escape in double quotes. -/
def isBare (c : Char) : Bool := Survey.isShown c && !isBreak c && c != '"' && c != '\\'

def escaped (acc : Bytes) (c : Char) : Bytes :=
  match escape? c with
  | some e => acc ++ e
  | none =>
    if c.toNat ≤ 0xff then acc ++ "\\x" ++ Text.upperHex 2 c.toNat
    else if c.toNat ≤ 0xffff then acc ++ "\\u" ++ Text.upperHex 4 c.toNat
    else acc ++ "\\U" ++ Text.upperHex 8 c.toNat

/-- In double quotes, in one line. After a byte order mark all characters are escaped. -/
def double (b : Bytes) : Bytes :=
  let marked := b.startsWith "\ufeff"
  (Text.foldGlyphs b (fun acc g => match g with
    | .char c => if isBare c && !marked then Text.pushChar acc c else escaped acc c
    | .stray _ => acc) ("\"" : Bytes)).push 34

/-- Whether the last character is a break, and the one before it too or missing. -/
def ending (b : Bytes) : Bool × Bool :=
  Text.foldGlyphs b (fun (last, _) g => match g with
    | .char c => (isBreak c, last)
    | .stray _ => (false, last)) (true, true)

/-- The digit and the sign after the bar of a block. -/
def hints (b : Bytes) : Bytes :=
  let digit : Bytes := match Text.glyphAt? b 0 with
    | some (.char c) => if c = ' ' ∨ isBreak c then "2" else .empty
    | _ => .empty
  let sign : Bytes := match ending b with
    | (false, _) => "-"
    | (true, true) => "+"
    | (true, false) => .empty
  digit ++ sign

/-- As a block whose lines start at column `indent`. A break at the start is the one that ends the
line of the bar. -/
def literal (indent : Nat) (b : Bytes) : Bytes :=
  let start : Bytes := "|" ++ hints b
  let opening : Bool := match Text.glyphAt? b 0 with
    | some (.char c) => !isBreak c
    | _ => false
  let start := if opening then start.push 10 else start
  (Text.foldGlyphs b (fun (acc, fresh) g => match g with
    | .char c =>
      if isBreak c then (Text.pushChar acc c, true)
      else (Text.pushChar (if fresh then acc ++ Bytes.times " " indent else acc) c, false)
    | .stray _ => (acc, fresh)) (start, true)).1

/-- Lines of base 64 have at most this many letters. -/
def lineLength : Nat := 70

/-- Base 64 in one line, or in several that all end with a break. -/
def binaryText (b : Bytes) : Bytes :=
  let letters := Text.Base64.encode b
  if letters.size < lineLength then letters
  else
    (List.range ((letters.size + lineLength - 1) / lineLength)).foldl (fun acc i =>
      (acc ++ letters.slice (i * lineLength) lineLength).push 10) .empty

/-- Whether a text read as a plain scalar would be that text. -/
def readsAsText (b : Bytes) : Bool :=
  (match Meaning.ofText true b with
    | .text => true
    | _ => false) && !isSexagesimal b && !oldTruthWords.any fun w => w.toUTF8 == b

/-- A text that `mayBePlain`. -/
def write (indent : Nat) (mayBePlain : Bool) (b : Bytes) : Bytes :=
  let v := Survey.ofText b
  if (b.indexFrom 10 0).isSome then if v.allowsBlock then literal indent b else double b
  else if !mayBePlain then double b
  else if v.allowsPlain then b
  else if v.allowsSingle then single indent b
  else double b

end Style

/-- A text as a scalar: plain where it reads back as it is, else in quotes or, if it has several lines, as a
block. Bytes that are no characters go in base 64. Lines after the first start at column `indent`. -/
def renderText (indent : Nat) (b : Bytes) : Bytes :=
  if Text.isValid b then Style.write indent (Style.readsAsText b) b
  else ("!!binary " : Bytes) ++ Style.write indent true (Style.binaryText b)

end CoffWorks.Yaml
