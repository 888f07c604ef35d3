import CoffWorks.Proofs.Bytes.Zero
import CoffWorks.Proofs.Name
import CoffWorks.StringTable

namespace CoffWorks

open Bytes

namespace StringTable

/-- The table after a name. -/
def extend (t : StringTable) (text : Bytes) : StringTable :=
  if text.size ≤ Name.fieldSize then t else ⟨(t.blob ++ text).push 0⟩

private theorem checkText_eq_ok {text : Bytes} : checkText text = .ok () ↔ Text.isValid text := by
  rw [checkText, Attempt.ok_or_reject_eq_ok, and_iff_left rfl]

/-- A text is stored if its offset can be expressed. -/
theorem store_eq_ok {t : StringTable} {text : Bytes} {r : UInt32 × StringTable} :
    t.store text = .ok r ↔ bias + t.size ≤ Name.maxOffset ∧
      (.ofNat (bias + t.size), ⟨(t.blob ++ text).push 0⟩) = r := by
  rw [StringTable.store, Nat.add_comm t.size]
  by_cases reach : Name.maxOffset < bias + t.size
  · simp [reach, reject, Nat.not_le.mpr reach]
  · simp [reach, Nat.not_lt.mp reach, -UInt32.ofNat_add]

theorem addLong_eq_ok {t : StringTable} {text : Bytes} {r : UInt32 × StringTable} :
    t.addLong text = .ok r ↔ (Text.isValid text ∧ bias + t.size ≤ Name.maxOffset) ∧
      (.ofNat (bias + t.size), ⟨(t.blob ++ text).push 0⟩) = r := by
  rw [addLong, Attempt.bind_eq_ok]
  simp only [store_eq_ok, and_assoc, ← checkText_eq_ok]
  exact ⟨fun ⟨_, valid, rest⟩ => ⟨valid, rest⟩, fun ⟨valid, rest⟩ => ⟨(), valid, rest⟩⟩

/-- A name is added if it is a text and reaches. -/
theorem add_eq_ok {t : StringTable} {text : Bytes} {r : Name × StringTable} :
    t.add text = .ok r ↔ (Text.isValid text ∧ Name.Reaches (bias + t.size) text) ∧
      (Name.stored (bias + t.size) text, t.extend text) = r := by
  have check := @checkText_eq_ok text
  have offset : t.size + bias = bias + t.size := Nat.add_comm _ _
  unfold add Name.Reaches Name.stored extend
  rw [Attempt.bind_eq_ok]
  by_cases short : text.size ≤ Name.fieldSize
  · have name : Name.ofBytes text = .ok (.short (.pad 8 text)) := if_neg (Nat.not_lt.mpr short)
    simp [check, short, Nat.not_lt.mpr short, name, bind, Except.bind, pure, Except.pure]
  · by_cases reach : bias + t.size ≤ Name.maxOffset
    · have store : t.store text = .ok _ := store_eq_ok.mpr ⟨reach, rfl⟩
      have name : Name.ofOffset (.ofNat (bias + t.size)) = .ok (.long (.ofNat (bias + t.size))) := by
        rw [Name.ofOffset, Name.toNat_of_le_maxOffset reach, if_neg (Nat.not_lt.mpr reach)]
      simp [check, short, store, name, reach, bind, Except.bind, pure, Except.pure, -UInt32.ofNat_add]
    · obtain ⟨e, store⟩ : ∃ e, t.store text = .error e := by
        rw [StringTable.store, offset, if_pos (Nat.not_le.mp reach)]
        exact ⟨_, rfl⟩
      simp [short, Nat.not_le.mp short, store, reach, bind, Except.bind]

/-- The table that holds the long ones of the names, one after the other. -/
def ofNames (names : List Bytes) : StringTable :=
  ⟨concat ((names.filter fun n => Name.fieldSize < n.size).map (·.push 0))⟩

theorem ofNames_concat (names : List Bytes) (n : Bytes) :
    ofNames (names ++ [n]) = (ofNames names).extend n := by
  unfold extend
  by_cases h : n.size ≤ Name.fieldSize
  · have short : ¬ Name.fieldSize < n.size := Nat.not_lt.mpr h
    simp [ofNames, short, h]
  · have long : Name.fieldSize < n.size := Nat.not_le.mp h
    simp [ofNames, long, h, concat_append, push_eq_append, ByteArray.append_assoc]

/-- A long name stands in the table after the names before it, ended by a zero byte. -/
private theorem blob_ofNames {names : List Bytes} {k : Nat} {n : Bytes} (hn : names[k]? = some n)
    (long : Name.fieldSize < n.size) :
    ∃ after, (ofNames names).blob = (ofNames (names.take k)).blob ++ (n ++ (ofOctet 0 ++ after)) := by
  obtain ⟨inside, eq⟩ := List.getElem?_eq_some_iff.mp hn
  have split : names.take k ++ n :: names.drop (k + 1) = names := by
    rw [← eq, ← List.drop_eq_getElem_cons inside, List.take_append_drop]
  refine ⟨(ofNames (names.drop (k + 1))).blob, ?_⟩
  have whole := congrArg (fun l => (ofNames l).blob) split
  simp only [ofNames, List.filter_append, List.filter_cons, long, decide_true, ↓reduceIte, List.map_append,
    List.map_cons, concat_append, concat_cons, push_eq_append, ByteArray.append_assoc] at whole ⊢
  exact whole.symm

/-- A text is found where it stands, up to its first zero byte. -/
theorem lookup_stored {t : StringTable} {before text after : Bytes}
    (blob : t.blob = before ++ (text ++ (ofOctet 0 ++ after)))
    (reach : bias + before.size ≤ Name.maxOffset) (valid : Text.isValid text) :
    t.lookup (.ofNat (bias + before.size)) = .ok text.untilZero := by
  have stop : t.endOf before.size = before.size + text.untilZero.size := by
    rw [endOf, blob, indexFrom_append_zero, Option.getD_some]
  have inside : ¬ before.size ≥ t.size := by
    rw [size, blob]
    simp only [ByteArray.size_append, size_ofOctet]
    omega
  rw [lookup, Name.toNat_of_le_maxOffset reach, if_neg (Nat.not_lt.mpr (Nat.le_add_right _ _))]
  simp only [Nat.add_sub_cancel_left, stop]
  rw [if_neg inside, blob, slice_append_zero, if_pos (Text.isValid_untilZero valid)]

/-- A name without zero bytes is found where it was stored. -/
private theorem lookup_ofNames {names : List Bytes} {k : Nat} {n : Bytes} (hn : names[k]? = some n)
    (long : Name.fieldSize < n.size) (reach : bias + (ofNames (names.take k)).size ≤ Name.maxOffset)
    (valid : Text.isValid n) (hz : NoZero n) :
    (ofNames names).lookup (.ofNat (bias + (ofNames (names.take k)).size)) = .ok n := by
  obtain ⟨after, blob⟩ := blob_ofNames hn long
  rw [size, lookup_stored blob reach valid, untilZero_of_noZero hz]

/-- Every name that was added is given back, long or short. -/
theorem resolve_ofNames {names : List Bytes} {k : Nat} {n : Bytes} (hn : names[k]? = some n)
    (valid : Text.isValid n) (reach : Name.Reaches (bias + (ofNames (names.take k)).size) n)
    (hz : NoZero n) :
    (ofNames names).resolve (Name.stored (bias + (ofNames (names.take k)).size) n) = .ok n := by
  unfold Name.stored
  split_ifs with short
  · rw [resolve, Field.untilZero_pad (n := 8) short hz]
  · have long := Nat.not_le.mp short
    exact lookup_ofNames hn long (reach long) valid hz

theorem lengthBytes_eq (t : StringTable) : t.lengthBytes = word 4 (UInt32.ofNat t.size).toNat := by
  rw [lengthBytes, push32_eq_append, ByteArray.empty_append]

@[simp] theorem size_lengthBytes (t : StringTable) : t.lengthBytes.size = 4 := by
  rw [lengthBytes_eq, size_word]

theorem u32At_lengthBytes (t : StringTable) (b : Bytes) : (t.lengthBytes ++ b).u32At 0 = .ofNat t.size := by
  rw [lengthBytes_eq, u32At_word]

end StringTable

end CoffWorks
