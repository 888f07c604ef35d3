import CoffWorks.Text.Number

namespace CoffWorks.Text

/-- Units above the byte, the largest first. -/
def sizeUnits : List (Nat × Bytes) :=
  [(0x1000000000000000, "EiB"), (0x4000000000000, "PiB"), (0x10000000000, "TiB"), (0x40000000, "GiB"),
   (0x100000, "MiB"), (0x400, "KiB")]

/-- The largest unit that is no more than a size. -/
def sizeUnit (n : Nat) : Nat × Bytes := (sizeUnits.find? fun u => u.1 ≤ n).getD (1, "B")

/-- A number of tenths without its decimal; a half goes to the even neighbour. -/
def dropTenths (t : Nat) : Nat :=
  let q := t / 10
  if t % 10 > 5 ∨ (t % 10 = 5 ∧ q % 2 = 1) then q + 1 else q

/-- A size as one reads it: below ten of a unit with one decimal, else without. -/
def byteSize (n : Nat) : Bytes :=
  if n < 10 then decimal n ++ " B"
  else
    let (unit, name) := sizeUnit n
    let tenths := (20 * n + unit) / (2 * unit)
    if tenths < 100 then decimal (tenths / 10) ++ "." ++ decimal (tenths % 10) ++ " " ++ name
    else decimal (dropTenths tenths) ++ " " ++ name

end CoffWorks.Text
