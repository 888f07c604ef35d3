import CoffWorks.Report.Basic
import CoffWorks.Text.Width

namespace CoffWorks

/-- A table on the screen. In one without rows the cursor may be at -1. -/
structure Tab where
  rows : Nat
  widths : List Nat
  cursor : Int := 0
  isFocused : Bool := false
  height : Int64
deriving DecidableEq

namespace Tab

/-- Make columns wide enough for the cells of a row; there must be one for each cell. -/
def widen : List Nat → List Bytes → Attempt (List Nat)
  | ws, [] => .ok ws
  | [], _ :: _ => .error .trap
  | w :: ws, cell :: cells => (widen ws cells).map (max w (Text.width cell) :: ·)

/-- Wide enough for titles and cells. -/
def columnWidths (g : Grid) : Attempt (List Nat) := g.rows.foldlM widen (g.columns.map ByteArray.size)

def ofGrid (height : Int64) (g : Grid) : Attempt Tab :=
  (columnWidths g).map fun widths => { rows := g.rows.length, widths, height }

/-- Move the cursor, staying within the rows. -/
def move (t : Tab) (by_ : Int) : Tab :=
  { t with cursor := min (max (t.cursor + by_) 0) (t.rows - 1) }

/-- What a key does in a table. -/
def press (t : Tab) (key : Bytes) : Tab :=
  if key = "j" ∨ key = "down" then t.move 1
  else if key = "k" ∨ key = "up" then t.move (-1)
  else if key = "G" ∨ key = "end" then t.move t.rows
  else if key = "g" ∨ key = "home" then t.move (-t.cursor)
  else t

theorem isFocused_press (t : Tab) (key : Bytes) : (t.press key).isFocused = t.isFocused := by
  unfold press
  repeat' split
  all_goals rfl

theorem height_press (t : Tab) (key : Bytes) : (t.press key).height = t.height := by
  unfold press
  repeat' split
  all_goals rfl

end Tab

/-- How tables respond to keys. They leave it to others whether they are focused and how high they are. -/
structure Widget where
  respond : Tab → Bytes → Tab
  isFocused_respond : ∀ t key, (respond t key).isFocused = t.isFocused
  height_respond : ∀ t key, (respond t key).height = t.height

/-- Tables with a cursor. -/
def Widget.table : Widget := ⟨Tab.press, Tab.isFocused_press, Tab.height_press⟩

/-- An interactive view of a report: a tab for each table, one of which is active and takes the keys that
move within a table. A step or a view that needs a tab, a column or a line that is not there breaks off. -/
structure Inspector where
  path : Bytes
  failure : Option Failure := none
  report : Option Report := none
  tabs : Array Tab := #[]
  active : Int := 0
  height : Int64 := 15
deriving DecidableEq

namespace Inspector

/-- Something that happens to an inspector. -/
inductive Event where
  | key (name : Bytes)
  | resize (height : Int64)
  | loaded (report : Attempt Report)

def tab? (x : Inspector) (i : Int) : Option Tab := if 0 ≤ i then x.tabs[i.toNat]? else none

/-- Change tab number `i`. -/
def changeTab (x : Inspector) (i : Int) (f : Tab → Tab) : Attempt Inspector :=
  if (x.tab? i).isSome then .ok { x with tabs := x.tabs.modify i.toNat f } else .error .trap

/-- The number below `n` that is reached by counting around. Remainders have the sign of `i`. -/
def around (i n : Int) : Int := (i.tmod n + n).tmod n

/-- Make tab number `i` the active one, counted around the ends. -/
def focus (x : Inspector) (i : Int) : Attempt Inspector :=
  if x.tabs.isEmpty then .ok x
  else do
    let x ← x.changeTab x.active fun t => { t with isFocused := false }
    let next := around i x.tabs.size
    { x with active := next }.changeTab next fun t => { t with isFocused := true }

/-- The lines that are not for the table. -/
def frameHeight : Int64 := 7

def resize (x : Inspector) (screen : Int64) : Inspector :=
  let height := if screen - frameHeight < 3 then 3 else screen - frameHeight
  { x with height, tabs := x.tabs.map fun t => { t with height } }

def load (x : Inspector) : Attempt Report → Attempt Inspector
  | .error e => .ok { x with failure := some e }
  | .ok r => do
    let tabs ← r.tables.mapM (Tab.ofGrid x.height)
    { x with report := some r, tabs := tabs.toArray }.focus 0

def isQuit (key : Bytes) : Bool := key = "ctrl+c" ∨ key = "q"

def isRight (key : Bytes) : Bool := key = "tab" ∨ key = "right" ∨ key = "l"

def isLeft (key : Bytes) : Bool := key = "shift+tab" ∨ key = "left" ∨ key = "h"

def press (w : Widget) (x : Inspector) (key : Bytes) : Attempt Inspector :=
  if isQuit key then .ok x
  else if isRight key then x.focus (x.active + 1)
  else if isLeft key then x.focus (x.active - 1)
  else if x.tabs.isEmpty then .ok x
  else x.changeTab x.active fun t => w.respond t key

/-- The state after an event, and whether that was the last. -/
def step (w : Widget) (x : Inspector) : Event → Attempt (Inspector × Bool)
  | .key name => (x.press w name).map (·, isQuit name)
  | .resize height => .ok (x.resize height, false)
  | .loaded r => (x.load r).map (·, false)

/-- As `step`, but a step that breaks off does nothing. -/
def update (x : Inspector) (e : Event) : Inspector × Bool := (x.step .table e).toOption.getD (x, false)

def tabLabel (g : Grid) : Bytes := " " ++ g.title ++ " (" ++ Text.decimal g.rows.length ++ ") "

def titleLine (x : Inspector) (r : Report) : Bytes :=
  " COFF Inspector  " ++ x.path
    ++ Bytes.concat ((r.header.take 2).map fun e => "  " ++ e.1 ++ ": " ++ e.2)

def helpLine : Bytes := "tab/←/→ switch table • ↑/↓ scroll • q quit"

/-- What is shown: some lines, or a table with lines above and below it. -/
inductive Screen where
  | notice (lines : List Bytes)
  | table (above : List Bytes) (tab : Tab) (below : List Bytes)

def Screen.frame : Screen → List Bytes
  | notice lines => lines
  | table above _ below => above ++ below

/-- Two lines of the header and the active tab, once there is a report. -/
def view (x : Inspector) : Attempt Screen :=
  match x.failure, x.report with
  | some e, _ => .ok (.notice (Text.screenLines 0 ("Error: " ++ e.message ++ "\n\nPress q to quit.")))
  | none, none => .ok (.notice ["Loading object file..."])
  | none, some r =>
    if r.header.length < 2 then .error .trap
    else
      match x.tab? x.active with
      | none => .error .trap
      | some t => .ok (.table [x.titleLine r, .empty, Bytes.concat (r.tables.map tabLabel), .empty] t [helpLine])

/-- The lines above and below the table, or what is shown in place of all. -/
def frame (x : Inspector) : List Bytes := (x.view.toOption.map Screen.frame).getD []

end Inspector

end CoffWorks
