import CoffWorks.Bytes.Basic

namespace CoffWorks.Text

def decimal (n : Nat) : Bytes := (toString n).toUTF8

def signed (n : Int) : Bytes := (toString n).toUTF8

def hexDigit (n : Nat) : Char :=
  if n < 10 then Char.ofNat (48 + n) else Char.ofNat (87 + n)

def upperHexDigit (n : Nat) : Char :=
  if n < 10 then Char.ofNat (48 + n) else Char.ofNat (55 + n)

/-- The last `w` digits of `n` in base 16, by the given digits. -/
def hexDigitsWith (digit : Nat → Char) : Nat → Nat → List Char → List Char
  | 0, _, acc => acc
  | w + 1, n, acc => hexDigitsWith digit w (n / 16) (digit (n % 16) :: acc)

/-- How many base-16 digits `n` needs, at least one. -/
def hexLength (n : Nat) : Nat := if n < 16 then 1 else hexLength (n / 16) + 1
termination_by n
decreasing_by omega

/-- `n` in lower-case hexadecimal with at least `w` digits. -/
def hex (w n : Nat) : Bytes :=
  (String.ofList (hexDigitsWith hexDigit (max w (hexLength n)) n [])).toUTF8

/-- `n` in upper-case hexadecimal with at least `w` digits. -/
def upperHex (w n : Nat) : Bytes :=
  (String.ofList (hexDigitsWith upperHexDigit (max w (hexLength n)) n [])).toUTF8

/-- Digits with a comma before each group of three but the first. -/
def groupThousands (digits : List Char) : List Char :=
  go (digits.length % 3) digits (digits.length + 1)
where
  go (first : Nat) (ds : List Char) : Nat → List Char
    | 0 => ds
    | fuel + 1 =>
      let n := if first = 0 then 3 else first
      if ds.length ≤ n then ds
      else ds.take n ++ ',' :: go 0 (ds.drop n) fuel

/-- `n` in decimal with commas between the thousands. -/
def withCommas (n : Nat) : Bytes := (String.ofList (groupThousands (toString n).toList)).toUTF8

end CoffWorks.Text
