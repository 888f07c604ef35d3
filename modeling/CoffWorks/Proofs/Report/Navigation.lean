import CoffWorks.Proofs.Report
import CoffWorks.Proofs.Text.Plain
import CoffWorks.Report.Inspector
import Mathlib.Data.List.DropRight
import Mathlib.Data.List.Induction

namespace CoffWorks

/-- If there is a result for each item, there is one for the list. -/
theorem Attempt.exists_mapM {α β : Type} {f : α → Attempt β} {P : β → Prop} {l : List α}
    (h : ∀ a ∈ l, ∃ b, f a = .ok b ∧ P b) : ∃ m, l.mapM f = .ok m ∧ m.length = l.length ∧ ∀ b ∈ m, P b := by
  induction l with
  | nil => exact ⟨[], rfl, rfl, by simp⟩
  | cons a rest ih =>
    rw [List.forall_mem_cons] at h
    obtain ⟨b, first, hb⟩ := h.1
    obtain ⟨m, others, length, hm⟩ := ih h.2
    refine ⟨b :: m, ?_, by simp [length], List.forall_mem_cons.mpr ⟨hb, hm⟩⟩
    rw [List.mapM_cons, first, others]
    rfl

/-- Every row has a cell for each column. -/
def Grid.Regular (g : Grid) : Prop := ∀ row ∈ g.rows, row.length = g.columns.length

/-- The tables of a report have as many cells in each row as there are columns. -/
theorem Report.regular_of_ofBytes {path data : Bytes} {r : Report} (h : ofBytes path data = .ok r) :
    (∀ g ∈ r.tables, g.Regular) ∧ 2 ≤ r.header.length := by
  unfold ofBytes at h
  cases inspected : Image.inspect data with
  | error e => simp [inspected] at h
  | ok img =>
    rw [inspected] at h
    obtain rfl := Except.ok.inj h
    refine ⟨?_, by simp [ofImage, headerRows]⟩
    simp only [tables, List.forall_mem_cons, Grid.Regular, ofImage, sectionRows_eq]
    refine ⟨?_, ?_, ?_, ?_, by simp⟩
    · intro row hrow
      obtain ⟨i, inside, rfl⟩ := List.mem_mapIdx.mp hrow
      rfl
    · intro row hrow
      obtain ⟨e, -, rfl⟩ := List.mem_map.mp hrow
      rfl
    · intro row hrow
      obtain ⟨e, -, member⟩ := List.mem_flatMap.mp hrow
      obtain ⟨x, -, rfl⟩ := List.mem_map.mp member
      rfl
    · intro row hrow
      obtain ⟨e, -, rfl⟩ := List.mem_map.mp hrow
      rfl

namespace Tab

private theorem exists_widen {ws : List Nat} {row : List Bytes} (fits : row.length ≤ ws.length) :
    ∃ ws', widen ws row = .ok ws' ∧ ws'.length = ws.length := by
  induction row generalizing ws with
  | nil => exact ⟨ws, by rw [widen], rfl⟩
  | cons cell cells ih =>
    cases ws with
    | nil => simp at fits
    | cons w ws =>
      obtain ⟨ws', widened, length⟩ := ih (Nat.le_of_succ_le_succ fits)
      refine ⟨max w (Text.width cell) :: ws', ?_, by simp [length]⟩
      rw [widen, widened]
      rfl

private theorem exists_foldlM_widen {rows : List (List Bytes)} {ws : List Nat}
    (fit : ∀ row ∈ rows, row.length = ws.length) :
    ∃ ws', rows.foldlM widen ws = .ok ws' := by
  induction rows generalizing ws with
  | nil => exact ⟨ws, rfl⟩
  | cons row rest ih =>
    rw [List.forall_mem_cons] at fit
    obtain ⟨ws', widened, length⟩ := exists_widen (Nat.le_of_eq fit.1)
    rw [List.foldlM_cons, widened]
    apply ih
    rw [length]
    exact fit.2

/-- A regular table can be made into a tab, which is not focused. -/
theorem exists_ofGrid {g : Grid} (regular : g.Regular) (height : Int64) :
    ∃ t, ofGrid height g = .ok t ∧ t.isFocused = false ∧ t.height = height := by
  have fit : ∀ row ∈ g.rows, row.length = (g.columns.map ByteArray.size).length := by
    rw [List.length_map]
    exact regular
  obtain ⟨widths, widened⟩ := exists_foldlM_widen fit
  refine ⟨{ rows := g.rows.length, widths, height }, ?_, rfl, rfl⟩
  rw [ofGrid, columnWidths, widened]
  rfl

end Tab

namespace Inspector

variable {x : Inspector}

private theorem around_eq (i : Int) {n : Int} (positive : 0 < n) : around i n = i % n := by
  have low : -n < i.tmod n := Int.lt_tmod_of_pos i positive
  have same : i.tmod n % n = i % n := by rw [Int.tmod_def, Int.sub_mul_emod_self_left]
  rw [around, Int.tmod_eq_emod_of_nonneg (by omega), Int.add_emod_right, same]

theorem exists_tab {i : Int} (first : 0 ≤ i) (last : i < x.tabs.size) : ∃ t, x.tab? i = some t := by
  rw [tab?, if_pos first]
  exact ⟨_, Array.getElem?_eq_getElem (by omega)⟩

theorem changeTab_eq {i : Int} (first : 0 ≤ i) (last : i < x.tabs.size) (f : Tab → Tab) :
    x.changeTab i f = .ok { x with tabs := x.tabs.modify i.toNat f } := by
  obtain ⟨t, found⟩ := exists_tab first last
  rw [changeTab, found]
  rfl

/-- The tabs have the height, and just the one with number `active` is focused. -/
structure Arranged (tabs : Array Tab) (active : Int) (height : Int64) : Prop where
  focused_iff : ∀ (j : Nat) t, tabs[j]? = some t → (t.isFocused ↔ (j : Int) = active)
  height_eq : ∀ (j : Nat) t, tabs[j]? = some t → t.height = height

/-- What a change keeps of one tab, it keeps of all. -/
private theorem forall_modify {tabs : Array Tab} {i : Nat} {f : Tab → Tab} {P : Nat → Tab → Prop}
    (keeps : ∀ j t, P j t → P j (f t)) (h : ∀ j t, tabs[j]? = some t → P j t) :
    ∀ j t, (tabs.modify i f)[j]? = some t → P j t := by
  intro j t found
  rw [Array.getElem?_modify] at found
  split_ifs at found with here
  · obtain ⟨t', found', rfl⟩ := Option.map_eq_some_iff.mp found
    exact keeps j t' (h j t' found')
  · exact h j t found

private theorem arranged_empty (active : Int) (height : Int64) : Arranged #[] active height :=
  ⟨by simp, by simp⟩

/-- The focus is taken from the one tab that may have it. -/
theorem arranged_refocused {tabs : Array Tab} {active next : Int} {height : Int64} (nonneg : 0 ≤ active)
    (first : 0 ≤ next) (alone : ∀ (j : Nat) t, tabs[j]? = some t → t.isFocused → (j : Int) = active)
    (same : ∀ (j : Nat) t, tabs[j]? = some t → t.height = height) :
    Arranged ((tabs.modify active.toNat fun t => { t with isFocused := false }).modify next.toNat
      fun t => { t with isFocused := true }) next height := by
  refine ⟨?_, ?_⟩
  · intro j t found
    rw [Array.getElem?_modify, Array.getElem?_modify] at found
    by_cases here : next.toNat = j
    · rw [if_pos here] at found
      obtain ⟨t', -, rfl⟩ := Option.map_eq_some_iff.mp found
      exact iff_of_true rfl (by omega)
    · rw [if_neg here] at found
      refine iff_of_false ?_ (by omega)
      split_ifs at found with there
      · obtain ⟨t', -, rfl⟩ := Option.map_eq_some_iff.mp found
        simp
      · intro focused
        have old := alone j t found focused
        omega
  · exact forall_modify (fun _ _ kept => kept) (forall_modify (fun _ _ kept => kept) same)

/-- The focus can be moved to any number, which is taken around the ends. -/
theorem exists_focus (i : Int) (first : 0 ≤ x.active) (last : x.active < x.tabs.size)
    (alone : ∀ (j : Nat) t, x.tabs[j]? = some t → t.isFocused → (j : Int) = x.active)
    (same : ∀ (j : Nat) t, x.tabs[j]? = some t → t.height = x.height) :
    ∃ tabs, x.focus i = .ok { x with tabs, active := i % x.tabs.size } ∧ tabs.size = x.tabs.size ∧
      Arranged tabs (i % x.tabs.size) x.height := by
  have nonempty : ¬ x.tabs.isEmpty := by
    rw [Array.isEmpty_iff_size_eq_zero]
    omega
  have size : (x.tabs.modify x.active.toNat fun t => { t with isFocused := false }).size = x.tabs.size :=
    Array.size_modify
  have low : 0 ≤ i % (x.tabs.size : Int) := Int.emod_nonneg i (by omega)
  have high : i % (x.tabs.size : Int) < x.tabs.size := Int.emod_lt_of_pos i (by omega)
  refine ⟨_, ?_, ?_, arranged_refocused first low alone same⟩
  · rw [focus, if_neg nonempty, changeTab_eq first last, Attempt.ok_bind]
    dsimp only
    rw [size, around_eq i (by omega)]
    exact changeTab_eq low (by dsimp only; omega) _
  · rw [Array.size_modify, size]

namespace Event

/-- A report was loaded. -/
def isLoad : Event → Bool
  | loaded (.ok _) => true
  | _ => false

/-- A key that moves to the next tab. -/
def isRight : Event → Bool
  | key name => name == "tab" || name == "right" || name == "l"
  | _ => false

/-- A key that moves to the tab before. -/
def isLeft : Event → Bool
  | key name => name == "shift+tab" || name == "left" || name == "h"
  | _ => false

/-- A report that was loaded is made from the content of some file. -/
def Genuine : Event → Prop
  | loaded (.ok r) => ∃ path data, Report.ofBytes path data = .ok r
  | _ => True

end Event

theorem isRight_key (name : Bytes) : (Event.key name).isRight = isRight name := by
  rw [Bool.eq_iff_iff]
  simp only [Event.isRight, isRight, Bool.or_eq_true, Bytes.beq_iff, decide_eq_true_eq, or_assoc]

theorem isLeft_key (name : Bytes) : (Event.key name).isLeft = isLeft name := by
  rw [Bool.eq_iff_iff]
  simp only [Event.isLeft, isLeft, Bool.or_eq_true, Bytes.beq_iff, decide_eq_true_eq, or_assoc]

/-- The events since a report was last loaded. -/
def recent (events : List Event) : List Event := events.rtakeWhile fun e => !e.isLoad

/-- How far the moves since then lead to the right. -/
def moves (events : List Event) : Int :=
  ((recent events).countP Event.isRight : Int) - (recent events).countP Event.isLeft

private theorem isQuit_apart {key : Bytes} (h : isQuit key) : isRight key = false ∧ isLeft key = false := by
  rw [isQuit, decide_eq_true_eq] at h
  rcases h with rfl | rfl <;> exact ⟨rfl, rfl⟩

private theorem isRight_apart {key : Bytes} (h : isRight key) : isLeft key = false := by
  rw [isRight, decide_eq_true_eq] at h
  rcases h with rfl | rfl | rfl <;> rfl

/-- What an inspector is after the events. -/
structure Sound (events : List Event) (x : Inspector) : Prop where
  size_eq : x.tabs.size = if events.any Event.isLoad then 4 else 0
  active_eq : x.active = if events.any Event.isLoad then moves events % 4 else 0
  arranged : Arranged x.tabs x.active x.height
  three_le : 3 ≤ x.height.toInt
  drawable : ∀ r, x.report = some r → 2 ≤ r.header.length ∧ events.any Event.isLoad

variable {events : List Event} {e : Event}

theorem moves_load (h : e.isLoad = true) : moves (events ++ [e]) = 0 := by
  rw [moves, recent, List.rtakeWhile_concat, h]
  rfl

/-- An event that loads nothing counts for the way that it moves. -/
theorem moves_concat (h : e.isLoad = false) :
    moves (events ++ [e]) = moves events + ((if e.isRight then 1 else 0) - (if e.isLeft then 1 else 0)) := by
  rw [moves, recent, List.rtakeWhile_concat, h, Bool.not_false, if_pos rfl, List.countP_append, List.countP_append,
    List.countP_singleton, List.countP_singleton, moves, recent]
  push_cast
  omega

private theorem moves_quiet (quiet : e.isLoad = false) (right : e.isRight = false) (left : e.isLeft = false) :
    moves (events ++ [e]) = moves events := by
  rw [moves_concat quiet, right, left]
  simp

private theorem any_concat (h : e.isLoad = false) : (events ++ [e]).any Event.isLoad = events.any Event.isLoad := by
  simp [h]

namespace Sound

theorem start (path : Bytes) : Sound [] { path } := by
  refine ⟨rfl, rfl, arranged_empty _ _, ?_, ?_⟩
  · change 3 ≤ (15 : Int64).toInt
    decide
  · intro r none
    cases none

theorem active_lt (h : Sound events x) : 0 ≤ x.active ∧ x.active < 4 := by
  rw [h.active_eq]
  split_ifs <;> omega

theorem exists_tab (h : Sound events x) (loaded : events.any Event.isLoad) : ∃ t, x.tab? x.active = some t := by
  have size := h.size_eq
  have active := h.active_lt
  rw [if_pos loaded] at size
  exact Inspector.exists_tab active.1 (by omega)

/-- A sound inspector can be viewed, before and after a report is loaded. -/
theorem view (h : Sound events x) : ∃ screen, x.view = .ok screen := by
  unfold Inspector.view
  split
  · exact ⟨_, rfl⟩
  · exact ⟨_, rfl⟩
  · rename_i r unfailed shown
    obtain ⟨header, loaded⟩ := h.drawable r shown
    obtain ⟨t, found⟩ := h.exists_tab loaded
    rw [if_neg (by omega), found]
    exact ⟨_, rfl⟩

/-- Before anything is loaded an event may be a move, but it leaves everything as it is. -/
theorem concat (h : Sound events x) (quiet : e.isLoad = false)
    (still : events.any Event.isLoad → moves (events ++ [e]) = moves events) : Sound (events ++ [e]) x := by
  have same : (events ++ [e]).any Event.isLoad = events.any Event.isLoad := any_concat quiet
  refine ⟨?_, ?_, h.arranged, h.three_le, ?_⟩
  · rw [same]
    exact h.size_eq
  · rw [same, h.active_eq]
    split_ifs with loaded
    · rw [still loaded]
    · rfl
  · rw [same]
    exact h.drawable

theorem respond (h : Sound events x) (w : Widget) (key : Bytes) (i : Nat) :
    Sound events { x with tabs := x.tabs.modify i fun t => w.respond t key } := by
  refine ⟨?_, h.active_eq, ⟨?_, ?_⟩, h.three_le, h.drawable⟩
  · rw [Array.size_modify]
    exact h.size_eq
  · apply forall_modify _ h.arranged.focused_iff
    intro j t focused
    rwa [w.isFocused_respond]
  · apply forall_modify _ h.arranged.height_eq
    intro j t same
    rwa [w.height_respond]

theorem resize (h : Sound events x) (screen : Int64) : Sound events (x.resize screen) := by
  refine ⟨?_, h.active_eq, ⟨?_, ?_⟩, ?_, h.drawable⟩
  · rw [Inspector.resize, Array.size_map]
    exact h.size_eq
  · intro j t found
    rw [Inspector.resize, Array.getElem?_map] at found
    obtain ⟨t', found', rfl⟩ := Option.map_eq_some_iff.mp found
    exact h.arranged.focused_iff j t' found'
  · intro j t found
    rw [Inspector.resize, Array.getElem?_map] at found
    obtain ⟨t', found', rfl⟩ := Option.map_eq_some_iff.mp found
    rfl
  · dsimp only [Inspector.resize]
    split_ifs with low
    · decide
    · rw [Int64.lt_iff_toInt_lt, not_lt] at low
      exact low

/-- Moving by some way leads to the tab at that way, around the ends. -/
theorem turn (h : Sound events x) (quiet : e.isLoad = false) {d : Int}
    (moved : moves (events ++ [e]) = moves events + d) :
    ∃ x', x.focus (x.active + d) = .ok x' ∧ Sound (events ++ [e]) x' := by
  have active := h.active_lt
  have size := h.size_eq
  by_cases loaded : events.any Event.isLoad
  · rw [if_pos loaded] at size
    have alone : ∀ (j : Nat) t, x.tabs[j]? = some t → t.isFocused → (j : Int) = x.active :=
      fun j t found => (h.arranged.focused_iff j t found).mp
    obtain ⟨tabs, focused, size', arranged⟩ :=
      exists_focus (x.active + d) active.1 (by omega) alone h.arranged.height_eq
    refine ⟨_, focused, ?_, ?_, arranged, h.three_le, ?_⟩
    · rw [any_concat quiet, if_pos loaded, size', size]
    · have before := h.active_eq
      rw [if_pos loaded] at before
      rw [any_concat quiet, if_pos loaded, moved, size]
      dsimp only
      omega
    · rw [any_concat quiet]
      exact h.drawable
  · rw [if_neg loaded, Array.size_eq_zero_iff] at size
    refine ⟨x, ?_, h.concat quiet fun some => absurd some loaded⟩
    rw [focus, size]
    rfl

/-- The new tabs are not focused, and so the number of the active tab may still be that of an old one. -/
theorem load (h : Sound events x) {r : Report} (regular : ∀ g ∈ r.tables, g.Regular) (header : 2 ≤ r.header.length) :
    ∃ x', x.load (.ok r) = .ok x' ∧ Sound (events ++ [.loaded (.ok r)]) x' := by
  have active := h.active_lt
  obtain ⟨tabs, made, length, each⟩ := Attempt.exists_mapM fun g hg => Tab.exists_ofGrid (regular g hg) x.height
  have four : tabs.toArray.size = 4 := length
  have new (j : Nat) (t : Tab) (found : tabs.toArray[j]? = some t) : t.isFocused = false ∧ t.height = x.height :=
    each t (Array.mem_toList_iff.mpr (Array.mem_of_getElem? found))
  have alone (j : Nat) (t : Tab) (found : tabs.toArray[j]? = some t) (on : t.isFocused) : (j : Int) = x.active := by
    simp [(new j t found).1] at on
  have same (j : Nat) (t : Tab) (found : tabs.toArray[j]? = some t) : t.height = x.height := (new j t found).2
  -- the old number is below four also if there were no tabs
  have inside : x.active < tabs.toArray.size := by omega
  obtain ⟨tabs', focused, size, arranged⟩ :=
    exists_focus (x := { x with report := some r, tabs := tabs.toArray }) 0 active.1 inside alone same
  have loaded : x.load (.ok r) = { x with report := some r, tabs := tabs.toArray }.focus 0 := by
    rw [Inspector.load, made, Attempt.ok_bind]
  have any : (events ++ [Event.loaded (.ok r)]).any Event.isLoad = true := by simp [Event.isLoad]
  refine ⟨_, loaded.trans focused, ?_, ?_, arranged, h.three_le, ?_⟩
  · rw [any, if_pos rfl]
    exact size.trans four
  · rw [any, if_pos rfl, moves_load rfl]
    exact Int.zero_emod _
  · intro r' shown
    obtain rfl := Option.some.inj shown
    exact ⟨header, any⟩

/-- A key quits, moves, or is left to the active tab. -/
theorem press (h : Sound events x) (w : Widget) (key : Bytes) :
    ∃ x', x.press w key = .ok x' ∧ Sound (events ++ [.key key]) x' := by
  have quiet (right : isRight key = false) (left : isLeft key = false) : Sound (events ++ [.key key]) x :=
    h.concat rfl fun _ => moves_quiet rfl ((isRight_key key).trans right) ((isLeft_key key).trans left)
  unfold Inspector.press
  split_ifs with quit right left none
  · obtain ⟨right, left⟩ := isQuit_apart quit
    exact ⟨x, rfl, quiet right left⟩
  · apply h.turn rfl
    rw [moves_concat rfl]
    simp [isRight_key, isLeft_key, right, isRight_apart right]
  · apply h.turn rfl
    rw [moves_concat rfl]
    simp [isRight_key, isLeft_key, right, left]
  · exact ⟨x, rfl, quiet (eq_false_of_ne_true right) (eq_false_of_ne_true left)⟩
  · have active := h.active_lt
    have size := h.size_eq
    have inside : x.active < x.tabs.size := by
      rw [Array.isEmpty_iff_size_eq_zero] at none
      split_ifs at size <;> omega
    refine ⟨_, changeTab_eq active.1 inside _, ?_⟩
    exact (quiet (eq_false_of_ne_true right) (eq_false_of_ne_true left)).respond w key _

/-- Every step of a sound inspector ends, with an inspector that is sound after one more event. -/
theorem step (h : Sound events x) (w : Widget) (genuine : e.Genuine) :
    ∃ x' quit, x.step w e = .ok (x', quit) ∧ Sound (events ++ [e]) x' := by
  cases e with
  | key name =>
    obtain ⟨x', pressed, sound⟩ := h.press w name
    refine ⟨x', isQuit name, ?_, sound⟩
    rw [Inspector.step, pressed]
    rfl
  | resize height => exact ⟨_, _, rfl, (h.concat rfl fun _ => moves_quiet rfl rfl rfl).resize height⟩
  | loaded result =>
    cases result with
    | error f =>
      have quiet : Sound (events ++ [.loaded (.error f)]) x := h.concat rfl fun _ => moves_quiet rfl rfl rfl
      exact ⟨_, _, rfl, quiet.size_eq, quiet.active_eq, quiet.arranged, quiet.three_le, quiet.drawable⟩
    | ok r =>
      obtain ⟨path, data, made⟩ := genuine
      obtain ⟨regular, header⟩ := Report.regular_of_ofBytes made
      obtain ⟨x', loaded, sound⟩ := h.load regular header
      refine ⟨x', false, ?_, sound⟩
      rw [Inspector.step, loaded]
      rfl

end Sound

/-- The inspector of a file after the events. -/
def run (w : Widget) (path : Bytes) (events : List Event) : Attempt Inspector :=
  events.foldlM (fun x e => (x.step w e).map Prod.fst) { path }

private theorem run_concat (w : Widget) (path : Bytes) (events : List Event) (e : Event) :
    run w path (events ++ [e]) = run w path events >>= fun x => (x.step w e).map Prod.fst := by
  rw [run, List.foldlM_append]
  simp only [List.foldlM_cons, List.foldlM_nil, bind_pure]
  rfl

/-- An event that breaks nothing has the same effect on an inspector that is updated. -/
theorem update_of_step {r : Inspector × Bool} (h : x.step .table e = .ok r) : x.update e = r := by
  rw [update, h]
  rfl

/-- So does every run, by induction on the events from the last one. -/
theorem exists_run (w : Widget) (path : Bytes) {events : List Event} (genuine : ∀ e ∈ events, e.Genuine) :
    ∃ x, run w path events = .ok x ∧ Sound events x ∧
      (w = .table → events.foldl (fun x e => (x.update e).1) { path } = x) := by
  induction events using List.reverseRecOn with
  | nil => exact ⟨_, rfl, Sound.start path, fun _ => rfl⟩
  | append_singleton events e ih =>
    obtain ⟨x, ran, sound, updated⟩ := ih fun e' he' => genuine e' (List.mem_append_left _ he')
    obtain ⟨x', quit, stepped, sound'⟩ := sound.step w (genuine e (by simp))
    refine ⟨x', ?_, sound', ?_⟩
    · rw [run_concat, ran, Attempt.ok_bind, stepped]
      rfl
    · intro table
      subst table
      rw [List.foldl_append, updated rfl, List.foldl_cons, List.foldl_nil, update_of_step stepped]

/-- Whatever happens to an inspector, it gets through all of it without breaking off. Then it is sound and can be
viewed, and once a report was loaded there is an active tab. -/
theorem run_sound (w : Widget) (path : Bytes) (events : List Event) (genuine : ∀ e ∈ events, e.Genuine) :
    ∃ x, run w path events = .ok x ∧ Sound events x ∧ (events.any Event.isLoad → ∃ t, x.tab? x.active = some t) ∧
      (∃ screen, x.view = .ok screen) ∧
      (w = .table → events.foldl (fun x e => (x.update e).1) { path } = x) := by
  obtain ⟨x, ran, sound, updated⟩ := exists_run w path genuine
  exact ⟨x, ran, sound, sound.exists_tab, sound.view, updated⟩

/-- Moves before and after a report is loaded, around the ends and back, a screen that is too low, and a load that
fails. -/
def eventful (r : Report) : List Event :=
  [.key "l", .loaded (.ok r), .key "left", .resize 2, .loaded (.error .diskFull), .key "j", .key "tab", .key "right",
    .key "l", .key "h"]

/-- The file has nothing but a header. -/
theorem run_sound_eventful : ∃ r x, Report.ofBytes "in.obj" (Bytes.zeros 20) = .ok r ∧
    run .table "in.obj" (eventful r) = .ok x ∧ x.tabs.size = 4 ∧ x.active = 1 ∧ ∃ screen, x.view = .ok screen := by
  have read : (Image.inspect (Bytes.zeros 20)).toOption.isSome := by decide +kernel
  cases inspected : Image.inspect (Bytes.zeros 20) with
  | error e => simp [inspected, Except.toOption] at read
  | ok img =>
    have made : Report.ofBytes "in.obj" (Bytes.zeros 20) = .ok _ := Report.ofBytes_of_inspect inspected
    have genuine : ∀ e ∈ eventful (Report.ofImage "in.obj" (Bytes.zeros 20).size img), e.Genuine := by
      simp only [eventful, List.forall_mem_cons]
      exact ⟨trivial, ⟨_, _, made⟩, trivial, trivial, trivial, trivial, trivial, trivial, trivial, trivial, by simp⟩
    obtain ⟨x, ran, sound, -, view, -⟩ := run_sound .table "in.obj" _ genuine
    exact ⟨_, x, made, ran, sound.size_eq, sound.active_eq, view⟩

end Inspector

end CoffWorks
