import CoffWorks.Proofs.StringTable

namespace CoffWorks.StringTable

open Bytes

/-- The part of a blob that starts at `start` is made of the texts of the entries. -/
inductive Parted : Nat → Bytes → List StringEntry → Prop where
  | done (start : Nat) : Parted start .empty []
  | last (start : Nat) {text : Bytes} (clean : NoZero text) (some_byte : text ≠ .empty) :
      Parted start text [⟨.ofNat (start + bias), text⟩]
  | text (start : Nat) {text rest : Bytes} {es : List StringEntry} (clean : NoZero text)
      (parted : Parted (start + text.size + 1) rest es) :
      Parted start (text ++ (ofOctet 0 ++ rest)) (⟨.ofNat (start + bias), text⟩ :: es)

/-- A text stands at `start` in the blob, up to a zero byte or to the end. -/
structure Stands (t : StringTable) (start : Nat) (text : Bytes) : Prop where
  inside : start < t.size
  stop : t.endOf start = start + text.size
  here : t.blob.slice start text.size = text

theorem stands_text {t : StringTable} {before text rest : Bytes} (clean : NoZero text)
    (blob : t.blob = before ++ (text ++ (ofOctet 0 ++ rest))) : t.Stands before.size text where
  inside := by
    simp only [StringTable.size, blob, ByteArray.size_append, size_ofOctet]
    omega
  stop := by rw [endOf, blob, indexFrom_zero before text rest clean, Option.getD_some]
  here := by rw [blob, slice_middle]

theorem stands_last {t : StringTable} {before text : Bytes} (clean : NoZero text) (some_byte : text ≠ .empty)
    (blob : t.blob = before ++ text) : t.Stands before.size text := by
  have nonempty : text.size ≠ 0 := fun none => some_byte (ByteArray.size_eq_zero_iff.mp none)
  have whole : t.size = before.size + text.size := by rw [StringTable.size, blob, ByteArray.size_append]
  have open_end : t.blob.indexFrom 0 before.size = none := by
    apply indexFrom_eq_none
    intro i from_start inside
    obtain ⟨j, rfl⟩ := Nat.exists_eq_add_of_le from_start
    rw [blob, ByteArray.size_append] at inside
    rw [blob, byteAt_append]
    exact clean.byteAt_ne (by omega)
  refine ⟨by omega, ?_, ?_⟩
  · rw [endOf, open_end, Option.getD_none, whole]
  · rw [blob, slice_append, slice_zero_size]

private theorem entriesFrom_of_stands {t : StringTable} {start : Nat} {text : Bytes} (h : t.Stands start text)
    (acc : Array StringEntry) :
    t.entriesFrom start acc =
      t.entriesFrom (start + text.size + 1) (acc.push ⟨.ofNat (start + bias), text⟩) := by
  rw [entriesFrom, if_pos h.inside]
  simp only [h.stop, Nat.add_sub_cancel_left, h.here]

private theorem entriesFrom_of_size_le {t : StringTable} {start : Nat} (h : t.size ≤ start) (acc : Array StringEntry) :
    t.entriesFrom start acc = acc := by
  rw [entriesFrom, if_neg (Nat.not_lt.mpr h)]

/-- All entries are taken from the start on, by induction on the parts. -/
private theorem entriesFrom_of_parted {start : Nat} {rest : Bytes} {es : List StringEntry} (h : Parted start rest es)
    {t : StringTable} (before : Bytes) (blob : t.blob = before ++ rest) (size : before.size = start)
    (acc : Array StringEntry) : t.entriesFrom start acc = acc ++ es.toArray := by
  -- The texts before `start` are already in `acc`.
  induction h generalizing before acc with
  | done start =>
    rw [entriesFrom_of_size_le (by rw [StringTable.size, blob, ByteArray.append_empty, size])]
    simp
  | @last start text clean some_byte =>
    subst size
    have whole : t.size = before.size + text.size := by rw [StringTable.size, blob, ByteArray.size_append]
    rw [entriesFrom_of_stands (stands_last clean some_byte blob), entriesFrom_of_size_le (by omega)]
    rfl
  | @text start text rest es clean parted ih =>
    subst size
    have next := ih (before ++ (text ++ ofOctet 0)) (by simp only [blob, ByteArray.append_assoc])
      (by simp only [ByteArray.size_append, size_ofOctet, Nat.add_assoc])
    rw [entriesFrom_of_stands (stands_text clean blob), next]
    simp

/-- The entries of a table are the parts of its blob. -/
theorem entries_of_parted {t : StringTable} {es : List StringEntry} (h : Parted 0 t.blob es) :
    t.entries.toList = es := by
  rw [entries, entriesFrom_of_parted h .empty (ByteArray.empty_append).symm rfl]
  simp

/-- The long ones of the names, numbered. -/
def longNames (names : List Bytes) : List (Bytes × Nat) := names.zipIdx.filter fun e => Name.fieldSize < e.1.size

theorem mem_longNames {names : List Bytes} {e : Bytes × Nat} (h : e ∈ longNames names) :
    names[e.2]? = some e.1 ∧ Name.fieldSize < e.1.size := by
  rw [longNames, List.mem_filter, List.mem_zipIdx_iff_getElem?, decide_eq_true_iff] at h
  exact h

/-- Names are parts at the offsets where they were stored, by induction on those that follow. -/
private theorem parted_ofNames {names : List Bytes} (clean : ∀ n ∈ names, NoZero n) (before rest : List Bytes)
    (split : names = before ++ rest) :
    Parted (ofNames before).size (ofNames rest).blob
      (((rest.zipIdx before.length).filter fun e => Name.fieldSize < e.1.size).map fun e =>
        ⟨.ofNat (bias + (ofNames (names.take e.2)).size), e.1⟩) := by
  induction rest generalizing before with
  | nil => exact .done _
  | cons n rest ih =>
    have next := ih (before ++ [n]) (by rw [split, List.append_assoc, List.singleton_append])
    rw [List.length_append, List.length_singleton, ofNames_concat] at next
    rw [List.zipIdx_cons]
    by_cases long : Name.fieldSize < n.size
    · have here : names.take before.length = before := by rw [split, List.take_left]
      have size : ((ofNames before).extend n).size = (ofNames before).size + n.size + 1 := by
        rw [extend, if_neg (Nat.not_le.mpr long)]
        simp only [StringTable.size, ByteArray.size_push, ByteArray.size_append]
      have blob : (ofNames (n :: rest)).blob = n ++ (ofOctet 0 ++ (ofNames rest).blob) := by
        simp [ofNames, long, push_eq_append, ByteArray.append_assoc]
      rw [size] at next
      rw [List.filter_cons_of_pos (by simpa using long), List.map_cons, here, blob, Nat.add_comm bias]
      exact .text _ (clean n (by simp [split])) next
    · have same : (ofNames before).extend n = ofNames before := if_pos (Nat.not_lt.mp long)
      have blob : (ofNames (n :: rest)).blob = (ofNames rest).blob := by simp [ofNames, long]
      rw [same] at next
      rw [List.filter_cons_of_neg (by simpa using long), blob]
      exact next

/-- The entries of a table of names are the long ones among them. -/
theorem entries_ofNames {names : List Bytes} (clean : ∀ n ∈ names, NoZero n) :
    (ofNames names).entries.toList =
      (longNames names).map fun e => ⟨.ofNat (bias + (ofNames (names.take e.2)).size), e.1⟩ :=
  entries_of_parted (parted_ofNames clean [] names rfl)

end CoffWorks.StringTable
