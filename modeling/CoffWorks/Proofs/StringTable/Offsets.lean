import CoffWorks.Proofs.InPlace
import CoffWorks.Proofs.StringTable

namespace CoffWorks.StringTable

open Bytes

/-- What can be asked of a table. -/
inductive Call where
  | add (text : Bytes)
  | addLong (text : Bytes)
  | reset

inductive Answer where
  | name (n : Name)
  | offset (o : UInt32)
  | done
deriving DecidableEq

/-- The offset that is handed out. -/
def Answer.offset? : Answer → Option UInt32
  | name (.long o) => some o
  | offset o => some o
  | _ => none

/-- Append `text` to the table. -/
def storing (text : Bytes) : InPlace StringTable UInt32 := do
  let (offset, t) ← (← get).store text
  set t
  return offset

namespace Call

/-- The text to add. -/
def text : Call → Bytes
  | add text => text
  | addLong text => text
  | reset => .empty

/-- The call step by step. A long text is in the table before there is a name for it. -/
def steps : Call → InPlace StringTable Answer
  | add text => do
    checkText text
    if text.size ≤ Name.fieldSize then
      let name ← Name.ofBytes text
      return .name name
    else
      let offset ← storing text
      let name ← Name.ofOffset offset
      return .name name
  | addLong text => do
    checkText text
    let offset ← storing text
    return .offset offset
  | reset => do
    set ({} : StringTable)
    return .done

def perform (c : Call) (t : StringTable) : Attempt Answer × StringTable := c.steps.perform t

private theorem perform_storing (t : StringTable) (text : Bytes) :
    (storing text).perform t = InPlace.keep t (t.store text) := by
  cases stored : t.store text <;> simp [storing, stored]

/-- There is a name for every offset at which a text is stored. -/
private theorem ofOffset_of_store {t t' : StringTable} {text : Bytes} {o : UInt32}
    (h : t.store text = .ok (o, t')) : Name.ofOffset o = .ok (.long o) := by
  obtain ⟨reach, made⟩ := store_eq_ok.mp h
  cases made
  rw [Name.ofOffset, Name.toNat_of_le_maxOffset reach, if_neg (Nat.not_lt.mpr reach)]

/-- A name is checked before the table is changed, so that a failure changes nothing. -/
theorem perform_add (t : StringTable) (text : Bytes) :
    (add text).perform t = InPlace.keep t ((t.add text).map fun r => (.name r.1, r.2)) := by
  unfold perform steps StringTable.add
  cases checked : checkText text with
  | error e => simp [checked, Attempt.error_bind, Except.map]
  | ok =>
    rw [Attempt.ok_bind]
    by_cases short : text.size ≤ Name.fieldSize
    · cases named : Name.ofBytes text with
      | error e => simp [checked, short, named, Except.map]
      | ok n => simp [checked, short, named, Attempt.ok_bind, Attempt.pure_eq_ok, Except.map]
    · cases stored : t.store text with
      | error e => simp [checked, short, perform_storing, stored, Attempt.error_bind, Except.map]
      | ok r =>
        have name := ofOffset_of_store stored
        simp [checked, short, perform_storing, stored, name, Attempt.ok_bind, Attempt.pure_eq_ok, Except.map]

theorem perform_addLong (t : StringTable) (text : Bytes) :
    (addLong text).perform t = InPlace.keep t ((t.addLong text).map fun r => (.offset r.1, r.2)) := by
  unfold perform steps StringTable.addLong
  cases checked : checkText text with
  | error e => simp [checked, Attempt.error_bind, Except.map]
  | ok =>
    rw [Attempt.ok_bind]
    cases stored : t.store text <;> simp [checked, perform_storing, stored, Except.map]

/-- The calls that put a text into the table. -/
def Stores : Call → Prop
  | add text => 8 < text.size
  | addLong _ => True
  | reset => False

/-- What a call can do to a table. -/
inductive Outcome (t : StringTable) : Call → Attempt Answer × StringTable → Prop where
  | refused {c : Call} (e : Failure) : Outcome t c (.error e, t)
  | short {text : Bytes} (fits : text.size ≤ Name.fieldSize) :
      Outcome t (add text) (.ok (.name (.short (.pad 8 text))), t)
  | stored {c : Call} {a : Answer} (stores : c.Stores) (offset : a.offset? = some (.ofNat (bias + t.size)))
      (reach : bias + t.size ≤ Name.maxOffset) (valid : Text.isValid c.text) :
      Outcome t c (.ok a, ⟨(t.blob ++ c.text).push 0⟩)
  | emptied : Outcome t reset (.ok .done, {})

/-- A call stores its text, holds it in a short name, empties the table, or fails and changes nothing. -/
theorem perform_outcome (t : StringTable) (c : Call) : Outcome t c (c.perform t) := by
  cases c with
  | add text =>
    rw [perform_add]
    cases made : t.add text with
    | error e => exact .refused e
    | ok r =>
      obtain ⟨⟨valid, reach⟩, rfl⟩ := add_eq_ok.mp made
      by_cases fits : text.size ≤ Name.fieldSize
      · rw [Name.stored, if_pos fits, extend, if_pos fits]
        exact .short fits
      · rw [Name.stored, if_neg fits, extend, if_neg fits]
        have long := Nat.not_le.mp fits
        exact .stored (c := add text) long rfl (reach long) valid
  | addLong text =>
    rw [perform_addLong]
    cases made : t.addLong text with
    | error e => exact .refused e
    | ok r =>
      obtain ⟨⟨valid, reach⟩, rfl⟩ := addLong_eq_ok.mp made
      exact .stored (c := addLong text) trivial rfl reach valid
  | reset => exact .emptied

/-- The table after one call after the other. -/
def after (t : StringTable) (calls : List Call) : StringTable :=
  calls.foldl (fun t c => (c.perform t).2) t

/-- Only `reset` takes something away. -/
theorem blob_perform (t : StringTable) {c : Call} (h : c ≠ reset) :
    ∃ more, (c.perform t).2.blob = t.blob ++ more := by
  have outcome := perform_outcome t c
  generalize c.perform t = made at outcome ⊢
  cases outcome with
  | refused e => exact ⟨.empty, ByteArray.append_empty.symm⟩
  | short fits => exact ⟨.empty, ByteArray.append_empty.symm⟩
  | stored stores offset reach valid =>
    exact ⟨c.text ++ ofOctet 0, by rw [push_eq_append, ByteArray.append_assoc]⟩
  | emptied => exact absurd rfl h

/-- Texts only move away from the end, by induction on the calls. -/
theorem blob_after (t : StringTable) {calls : List Call} (h : reset ∉ calls) :
    ∃ more, (after t calls).blob = t.blob ++ more := by
  induction calls generalizing t with
  | nil => exact ⟨.empty, ByteArray.append_empty.symm⟩
  | cons c calls ih =>
    obtain ⟨first, step⟩ := blob_perform t (fun same => h (same ▸ List.mem_cons_self))
    obtain ⟨more, run⟩ := ih (c.perform t).2 (fun later => h (List.mem_cons_of_mem c later))
    refine ⟨first ++ more, ?_⟩
    rw [after, List.foldl_cons, ← after, run, step, ByteArray.append_assoc]

/-- An offset is handed out for a text that is now the last one of the table. -/
theorem of_offset {t : StringTable} {c : Call} {a : Answer} {o : UInt32} (h : (c.perform t).1 = .ok a)
    (ho : a.offset? = some o) : o.toNat = bias + t.size ∧ bias + t.size ≤ Name.maxOffset ∧
      Text.isValid c.text ∧ (c.perform t).2.blob = t.blob ++ (c.text ++ ofOctet 0) := by
  have outcome := perform_outcome t c
  generalize c.perform t = made at outcome h ⊢
  cases outcome with
  | refused e => cases h
  | short fits =>
    cases h
    cases ho
  | stored stores offset reach valid =>
    cases h
    cases offset.symm.trans ho
    exact ⟨Name.toNat_of_le_maxOffset reach, reach, valid, by rw [push_eq_append, ByteArray.append_assoc]⟩
  | emptied =>
    cases h
    cases ho

/-- The calls on a table: how they relate to `add` and `addLong`, which of them fail, and which of them
leave the table alone. -/
structure Guarded (t : StringTable) : Prop where
  add_eq : ∀ text, (add text).perform t = InPlace.keep t ((t.add text).map fun r => (.name r.1, r.2))
  addLong_eq : ∀ text, (addLong text).perform t = InPlace.keep t ((t.addLong text).map fun r => (.offset r.1, r.2))
  add_fails : ∀ text, (∃ e, ((add text).perform t).1 = .error e) ↔
    ¬ Text.isValid text ∨ 8 < text.size ∧ 9999999 < t.size + 4
  addLong_fails : ∀ text, (∃ e, ((addLong text).perform t).1 = .error e) ↔
    ¬ Text.isValid text ∨ 9999999 < t.size + 4
  failure_keeps : ∀ (c : Call) (e : Failure), (c.perform t).1 = .error e → (c.perform t).2 = t
  short_keeps : ∀ text, text.size ≤ 8 → ((add text).perform t).2 = t

/-- What the answer `a` to the call `c` is good for while the table is `t`. -/
structure Lasts (c : Call) (a : Answer) (t : StringTable) : Prop where
  offset_range : ∀ o, a.offset? = some o → 4 ≤ o.toNat ∧ o.toNat ≤ 9999999
  lookup : ∀ o, a.offset? = some o → t.lookup o = .ok c.text.untilZero
  resolve : ∀ n, a = .name n → t.resolve n = .ok c.text.untilZero
  offset_lt : ∀ o, a.offset? = some o → ∀ (c' : Call) (a' : Answer) (o' : UInt32),
    (c'.perform t).1 = .ok a' → a'.offset? = some o' → o < o'

theorem guarded (t : StringTable) : Guarded t where
  add_eq := perform_add t
  addLong_eq := perform_addLong t
  add_fails text := by
    rw [perform_add, InPlace.fst_keep_map_eq_error]
    simp only [add_eq_ok, exists_and_left, exists_eq', and_true, not_and_or, Name.Reaches, Classical.not_imp,
      Nat.not_le, Nat.add_comm bias]
    rfl
  addLong_fails text := by
    rw [perform_addLong, InPlace.fst_keep_map_eq_error]
    simp only [addLong_eq_ok, exists_and_left, exists_eq', and_true, not_and_or, Nat.not_le, Nat.add_comm bias]
    rfl
  failure_keeps c e h := by
    have outcome := perform_outcome t c
    generalize c.perform t = made at outcome h ⊢
    cases outcome with
    | refused e => rfl
    | _ => cases h
  short_keeps text fits := by
    rw [perform_add]
    cases made : t.add text with
    | error e => rfl
    | ok r =>
      obtain ⟨-, rfl⟩ := add_eq_ok.mp made
      exact if_pos fits

private theorem offset?_isSome {t : StringTable} {c : Call} {a : Answer} (h : (c.perform t).1 = .ok a) :
    a.offset?.isSome ↔ c.Stores := by
  have outcome := perform_outcome t c
  generalize c.perform t = made at outcome h
  cases outcome with
  | refused e => cases h
  | short fits =>
    cases h
    exact iff_of_false Bool.false_ne_true (Nat.not_lt.mpr fits)
  | stored stores offset reach valid =>
    cases h
    exact iff_of_true (Option.isSome_of_eq_some offset) stores
  | emptied =>
    cases h
    exact iff_of_false Bool.false_ne_true id

/-- A short name holds its text itself, a long one leads to where the text stands. -/
theorem lasts_after {t : StringTable} {c : Call} {a : Answer} (h : (c.perform t).1 = .ok a)
    {later : List Call} (kept : reset ∉ later) : Lasts c a (after t (c :: later)) := by
  obtain ⟨more, grown⟩ := blob_after (c.perform t).2 kept
  have lookup : ∀ o, a.offset? = some o → (after t (c :: later)).lookup o = .ok c.text.untilZero := by
    intro o ho
    obtain ⟨offset, reach, valid, blob⟩ := of_offset h ho
    rw [blob, ByteArray.append_assoc, ByteArray.append_assoc] at grown
    have found := lookup_stored grown reach valid
    rwa [← size, ← offset, UInt32.ofNat_toNat] at found
  refine ⟨?_, lookup, ?_, ?_⟩
  · intro o ho
    obtain ⟨offset, reach, -⟩ := of_offset h ho
    exact ⟨offset ▸ Nat.le_add_right bias t.size, offset ▸ reach⟩
  · intro n hn
    subst hn
    have outcome := perform_outcome t c
    generalize c.perform t = made at outcome h
    cases outcome with
    | refused e => cases h
    | short fits =>
      cases h
      rw [resolve, Field.pad_bytes 8 _ fits, untilZero_append_zeros]
      rfl
    | stored stores offset reach valid =>
      cases h
      cases n with
      | long o => exact lookup o rfl
      | _ => cases offset
    | emptied => cases h
  · intro o ho c' a' o' h' ho'
    obtain ⟨offset, -, -, blob⟩ := of_offset h ho
    obtain ⟨offset', -⟩ := of_offset h' ho'
    have longer : (after t (c :: later)).size = t.size + (c.text.size + 1) + more.size := by
      rw [after, List.foldl_cons, ← after, StringTable.size, grown, blob]
      simp only [ByteArray.size_append, size_ofOctet, StringTable.size]
    rw [UInt32.lt_iff_toNat_lt, offset, offset', longer]
    omega

/-- In every sequence of calls, an answer lasts until the table is emptied. -/
theorem answers_last (t : StringTable) (before : List Call) : Guarded (after t before) ∧
    ∀ (c : Call) (a : Answer), (c.perform (after t before)).1 = .ok a → (a.offset?.isSome ↔ c.Stores) ∧
      ∀ later, reset ∉ later → Lasts c a (after t (before ++ c :: later)) := by
  refine ⟨guarded _, fun c a h => ⟨offset?_isSome h, fun later kept => ?_⟩⟩
  rw [after, List.foldl_append]
  exact lasts_after h kept

/-- The second of four texts has a zero byte in it. -/
theorem answers_last_cut :
    ((add "of two\x00parts").perform (after {} [addLong "first"])).1 = .ok (.name (.long 10)) ∧
      (after {} [addLong "first", add "of two\x00parts", addLong "", add "ab"]).lookup 10 = .ok "of two" := by
  have given : ((add "of two\x00parts").perform (after {} [addLong "first"])).1 = .ok (.name (.long 10)) := by
    decide +kernel
  have last := ((answers_last {} [addLong "first"]).2 _ _ given).2 [addLong "", add "ab"] (by simp)
  have cut : (add "of two\x00parts").text.untilZero = "of two".toUTF8 := by decide +kernel
  exact ⟨given, cut ▸ last.lookup 10 rfl⟩

end Call

end CoffWorks.StringTable
