import CoffWorks.Report.Table
import CoffWorks.Sink.Basic

namespace CoffWorks

namespace Report

/-- Something to be written. A failure to do so is reported only if it `matters`. -/
structure Piece where
  text : Bytes
  matters : Bool := false

def line (ls : List Bytes) : Bytes := Bytes.join "\n" ls ++ ("\n" : Bytes)

/-- A key with its colon, filled up. -/
def headerLine (key value : Bytes) : Bytes := Text.padTo 16 (key ++ ":") ++ " " ++ value ++ "\n"

def tablePieces (b : Border) (g : Grid) : List Piece :=
  if g.rows.isEmpty then []
  else [⟨"\n", false⟩, ⟨g.title ++ "\n", false⟩, ⟨line (g.lines b), true⟩]

/-- What is written, in order. With `color` the title has a margin and tables have borders. -/
def pieces (r : Report) (color : Bool) : List Piece :=
  ⟨line (Text.screenLines (if color then 1 else 0) r.path), false⟩ :: ⟨"\n", false⟩
    :: r.header.map (fun e => ⟨headerLine e.1 e.2, false⟩)
    ++ r.tables.flatMap (tablePieces (if color then .rounded else .hidden))

/-- Write pieces up to the first failure that matters. -/
def writePieces {σ : Type} [Writer σ] : List Piece → σ → σ × Option Failure
  | [], w => (w, none)
  | p :: rest, w =>
    let stored := write w p.text
    match stored.failure with
    | some e => if p.matters then (stored.out, some e) else writePieces rest stored.out
    | none => writePieces rest stored.out

def print {σ : Type} [Writer σ] (r : Report) (color : Bool) (w : σ) : σ × Option Failure :=
  writePieces (r.pieces color) w

/-- The whole text. -/
def text (r : Report) (color : Bool) : Bytes := Bytes.concat ((r.pieces color).map Piece.text)

end Report

end CoffWorks
