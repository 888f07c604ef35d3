import CoffWorks.Proofs.StringTable.Entries
import CoffWorks.Proofs.StringTable.Offsets

namespace CoffWorks.StringTable

open Bytes

/-- Every blob is made of parts, by induction on its size. -/
private theorem exists_parted (start : Nat) (b : Bytes) : ∃ es, Parted start b es := by
  -- Each zero byte leaves a shorter rest.
  induction size : b.size using Nat.strong_induction_on generalizing start b with
  | _ n ih =>
    cases found : b.indexFrom 0 0 with
    | none =>
      have clean := noZero_of_indexFrom_eq_none found
      by_cases none : b = .empty
      · exact ⟨[], none ▸ .done start⟩
      · exact ⟨_, .last start clean none⟩
    | some i =>
      obtain ⟨clean, parts⟩ := eq_append_of_indexFrom found
      have shorter : (b.drop (i + 1)).size < n := by
        have inside := (of_indexFrom found).1
        rw [drop, size_slice]
        omega
      obtain ⟨es, rest⟩ := ih _ shorter (start + (b.take i).size + 1) (b.drop (i + 1)) rfl
      rw [parts]
      exact ⟨_, .text start clean rest⟩

/-- The entries are these parts, whatever the blob holds. -/
theorem parted_entries (t : StringTable) : Parted 0 t.blob t.entries.toList := by
  obtain ⟨es, parted⟩ := exists_parted 0 t.blob
  rwa [entries_of_parted parted]

/-- The zero byte that is missing at the end of a blob. -/
def closing (b : Bytes) : Bytes := if b.size = 0 ∨ b.byteAt (b.size - 1) = 0 then .empty else ofOctet 0

private theorem closing_of_noZero {b : Bytes} (clean : NoZero b) (h : b ≠ .empty) : closing b = ofOctet 0 := by
  have nonempty : b.size ≠ 0 := mt ByteArray.size_eq_zero_iff.mp h
  apply if_neg
  rintro (none | zero)
  · exact nonempty none
  · exact clean.byteAt_ne (by omega) zero

private theorem closing_append (a rest : Bytes) : closing (a ++ (ofOctet 0 ++ rest)) = closing rest := by
  have size : (a ++ (ofOctet 0 ++ rest)).size = a.size + (1 + rest.size) := by
    simp only [ByteArray.size_append, size_ofOctet]
  have last : (a ++ (ofOctet 0 ++ rest)).byteAt (a.size + (1 + rest.size) - 1) = 0 ↔
      rest.size = 0 ∨ rest.byteAt (rest.size - 1) = 0 := by
    by_cases none : rest.size = 0
    · have position : a.size + (1 + rest.size) - 1 = a.size + 0 := by omega
      rw [position, byteAt_append, byteAt_octet]
      simp [none]
    · have position : a.size + (1 + rest.size) - 1 = a.size + ((ofOctet 0).size + (rest.size - 1)) := by
        rw [size_ofOctet]
        omega
      rw [position, byteAt_append, byteAt_append, or_iff_right none]
  have nonempty : a.size + (1 + rest.size) ≠ 0 := by omega
  unfold closing
  rw [size]
  exact if_congr ((or_iff_right nonempty).trans last) rfl rfl

namespace Parted

variable {start : Nat} {b : Bytes} {es : List StringEntry}

theorem length_le (h : Parted start b es) : es.length ≤ b.size := by
  induction h with
  | done start => exact Nat.le_refl 0
  | last start clean some_byte => exact Nat.one_le_iff_ne_zero.mpr (mt ByteArray.size_eq_zero_iff.mp some_byte)
  | text start clean rest ih =>
    simp only [List.length_cons, ByteArray.size_append, size_ofOctet]
    omega

theorem noZero (h : Parted start b es) : ∀ e ∈ es, NoZero e.text := by
  induction h with
  | done start => exact List.forall_mem_nil _
  | last start clean some_byte => exact List.forall_mem_singleton.mpr clean
  | text start clean rest ih => exact List.forall_mem_cons.mpr ⟨clean, ih⟩

/-- With a zero byte after each, the texts make up the blob. -/
theorem concat_eq (h : Parted start b es) : concat (es.map fun e => e.text.push 0) = b ++ closing b := by
  induction h with
  | done start => rfl
  | last start clean some_byte =>
    rw [closing_of_noZero clean some_byte, List.map_singleton, concat_cons, concat_nil, push_eq_append,
      ByteArray.append_empty]
  | text start clean rest ih =>
    rw [closing_append, List.map_cons, concat_cons, ih, push_eq_append]
    simp only [ByteArray.append_assoc]

private theorem head_offset (h : Parted start b es) : ∀ e ∈ es.head?, e.offset = .ofNat (start + bias) := by
  cases h with
  | done start => exact fun e he => nomatch he
  | last start clean some_byte =>
    rintro e ⟨rfl⟩
    rfl
  | text start clean rest =>
    rintro e ⟨rfl⟩
    rfl

/-- Offsets do not wrap in a table that is not too large. -/
private theorem le_offset (h : Parted start b es) (small : start + b.size + bias ≤ UInt32.size) :
    ∀ e ∈ es, start + bias ≤ e.offset.toNat := by
  induction h with
  | done start => exact List.forall_mem_nil _
  | @last start text clean some_byte =>
    have nonempty : text.size ≠ 0 := mt ByteArray.size_eq_zero_iff.mp some_byte
    have first : (UInt32.ofNat (start + bias)).toNat = start + bias := UInt32.toNat_ofNat_of_lt' (by omega)
    exact List.forall_mem_singleton.mpr (Nat.le_of_eq first.symm)
  | text start clean rest ih =>
    simp only [ByteArray.size_append, size_ofOctet] at small
    have first : (UInt32.ofNat (start + bias)).toNat = start + bias := UInt32.toNat_ofNat_of_lt' (by omega)
    refine List.forall_mem_cons.mpr ⟨Nat.le_of_eq first.symm, ?_⟩
    intro e he
    have later := ih (by omega) e he
    omega

/-- Later entries have larger offsets. -/
theorem offset_lt (h : Parted start b es) (small : start + b.size + bias ≤ UInt32.size) :
    es.Pairwise fun e f => e.offset < f.offset := by
  induction h with
  | done start => exact .nil
  | last start clean some_byte => exact List.pairwise_singleton _ _
  | text start clean rest ih =>
    simp only [ByteArray.size_append, size_ofOctet] at small
    have first : (UInt32.ofNat (start + bias)).toNat = start + bias := UInt32.toNat_ofNat_of_lt' (by omega)
    refine .cons ?_ (ih (by omega))
    intro e he
    have later := rest.le_offset (by omega) e he
    rw [UInt32.lt_iff_toNat_lt, first]
    omega

/-- Each entry stands where its offset says. -/
theorem stands (h : Parted start b es) {t : StringTable} (before : Bytes) (blob : t.blob = before ++ b)
    (size : before.size = start) : ∀ e ∈ es, ∃ pos, e.offset = .ofNat (pos + bias) ∧ t.Stands pos e.text := by
  induction h generalizing before with
  | done start => exact List.forall_mem_nil _
  | last start clean some_byte =>
    subst size
    exact List.forall_mem_singleton.mpr ⟨_, rfl, stands_last clean some_byte blob⟩
  | @text start text rest es clean parted ih =>
    subst size
    refine List.forall_mem_cons.mpr ⟨⟨_, rfl, stands_text clean blob⟩, ?_⟩
    apply ih (before ++ (text ++ ofOctet 0))
    · simp only [blob, ByteArray.append_assoc]
    · simp only [ByteArray.size_append, size_ofOctet, Nat.add_assoc]

end Parted

/-- An entry is found by its offset, unless it is not a text. -/
theorem lookup_of_stands {t : StringTable} {start : Nat} {text : Bytes} (h : t.Stands start text)
    (small : start + bias < UInt32.size) : t.lookup (.ofNat (start + bias)) =
      if Text.isValid text then .ok text
      else reject (.invalidData .decode ["string table"]
        ("entry at offset " ++ Text.decimal (start + bias) ++ " is not valid UTF-8")) := by
  have offset : (UInt32.ofNat (start + bias)).toNat = start + bias := UInt32.toNat_ofNat_of_lt' small
  rw [lookup, offset, if_neg (Nat.not_lt.mpr (Nat.le_add_left bias start))]
  simp only [Nat.add_sub_cancel]
  rw [if_neg (Nat.not_le.mpr h.inside), h.stop, Nat.add_sub_cancel_left, h.here]

/-- The entries of a table are the parts of its blob. -/
structure Partitioned (t : StringTable) : Prop where
  count_le : t.entries.size ≤ t.size
  first_offset : ∀ e ∈ t.entries.toList.head?, e.offset = 4
  offsets_increase : t.entries.toList.Pairwise fun e f => e.offset < f.offset
  no_zero : ∀ e ∈ t.entries, NoZero e.text
  concat_eq : concat (t.entries.toList.map fun e => e.text.push 0) = t.blob ++ closing t.blob
  lookup_valid : ∀ e ∈ t.entries, Text.isValid e.text → t.lookup e.offset = .ok e.text
  lookup_invalid : ∀ e ∈ t.entries, ¬ Text.isValid e.text →
    ∃ f, t.lookup e.offset = .error (.fault f) ∧ f.phase = .decode ∧ f.kind = .invalidData

theorem partitioned {t : StringTable} (small : t.size < 2 ^ 32 - 4) : Partitioned t := by
  have parted := parted_entries t
  have room : 0 + t.blob.size + bias ≤ UInt32.size := by
    have four : bias = 4 := rfl
    have word : UInt32.size = 2 ^ 32 := rfl
    rw [size] at small
    omega
  have lookup : ∀ e ∈ t.entries, ∃ pos, e.offset = .ofNat (pos + bias) ∧ t.Stands pos e.text ∧
      pos + bias < UInt32.size := by
    intro e he
    have mem := Array.mem_toList_iff.mpr he
    obtain ⟨pos, offset, stands⟩ := parted.stands .empty ByteArray.empty_append.symm rfl e mem
    have inside := stands.inside
    rw [size] at inside
    exact ⟨pos, offset, stands, by omega⟩
  refine ⟨?_, parted.head_offset, parted.offset_lt room, ?_, parted.concat_eq, ?_, ?_⟩
  · exact parted.length_le
  · intro e he
    exact parted.noZero e (Array.mem_toList_iff.mpr he)
  · intro e he valid
    obtain ⟨pos, offset, stands, reach⟩ := lookup e he
    rw [offset, lookup_of_stands stands reach, if_pos valid]
  · intro e he invalid
    obtain ⟨pos, offset, stands, reach⟩ := lookup e he
    rw [offset, lookup_of_stands stands reach, if_neg invalid]
    exact ⟨_, rfl, rfl, rfl⟩

namespace Call

/-- The texts that the calls put into a table, with the offsets that they hand out. -/
def handedOut (t : StringTable) : List Call → List StringEntry
  | [] => []
  | c :: rest =>
    ((c.perform t).1.toOption.bind Answer.offset?).toList.map (⟨·, c.text⟩) ++ handedOut (c.perform t).2 rest

/-- Texts are put behind each other by the calls, by induction on them. -/
private theorem parted_handedOut (t : StringTable) {calls : List Call} (kept : reset ∉ calls)
    (clean : ∀ c ∈ calls, NoZero c.text) :
    ∃ more, (after t calls).blob = t.blob ++ more ∧ Parted t.size more (handedOut t calls) := by
  induction calls generalizing t with
  | nil => exact ⟨.empty, ByteArray.append_empty.symm, .done _⟩
  | cons c rest ih =>
    obtain ⟨here, later⟩ := List.forall_mem_cons.mp clean
    obtain ⟨more, blob, parted⟩ := ih (c.perform t).2 (fun mem => kept (List.mem_cons_of_mem c mem)) later
    rw [after, List.foldl_cons, ← after, handedOut]
    have outcome := perform_outcome t c
    generalize c.perform t = made at outcome blob parted ⊢
    cases outcome with
    | refused e => exact ⟨more, blob, parted⟩
    | short fits => exact ⟨more, blob, parted⟩
    | stored stores offset reach valid =>
      refine ⟨c.text ++ (ofOctet 0 ++ more), ?_, ?_⟩
      · rw [blob, push_eq_append]
        simp only [ByteArray.append_assoc]
      · have size : (⟨(t.blob ++ c.text).push 0⟩ : StringTable).size = t.size + c.text.size + 1 := by
          rw [StringTable.size, ByteArray.size_push, ByteArray.size_append, ← StringTable.size]
        rw [size] at parted
        have next := Parted.text t.size here parted
        rw [Nat.add_comm t.size bias] at next
        simpa [Except.toOption, offset] using next
    | emptied => exact absurd List.mem_cons_self kept

theorem entries_after {calls : List Call} (kept : reset ∉ calls) (clean : ∀ c ∈ calls, NoZero c.text) :
    (after {} calls).entries.toList = handedOut {} calls := by
  obtain ⟨more, blob, parted⟩ := parted_handedOut {} kept clean
  apply entries_of_parted
  rw [blob, ByteArray.empty_append]
  exact parted

end Call

/-- Every table is cut into its entries; after calls that add texts without zero bytes, the entries are these
texts at the offsets that were handed out for them. -/
theorem entries_partition : (∀ t : StringTable, t.size < 2 ^ 32 - 4 → Partitioned t) ∧
    ∀ calls, Call.reset ∉ calls → (∀ c ∈ calls, NoZero c.text) →
      (Call.after {} calls).entries.toList = Call.handedOut {} calls :=
  ⟨fun _ small => partitioned small, fun _ kept clean => Call.entries_after kept clean⟩

/-- A text, an empty one, a byte that is no text, and a text without its zero byte. -/
def raggedTable : StringTable := ⟨"ab\x00\x00".toUTF8 ++ (ofOctet 0xff ++ "\x00tail".toUTF8)⟩

/-- Of the four calls, the second stores nothing. -/
theorem entries_partition_ragged : raggedTable.size < 2 ^ 32 - 4 ∧ Partitioned raggedTable ∧
    (Call.after {}
      [.addLong "ab".toUTF8, .add "cd".toUTF8, .addLong "".toUTF8, .add "not short".toUTF8]).entries.toList =
      Call.handedOut {} [.addLong "ab".toUTF8, .add "cd".toUTF8, .addLong "".toUTF8, .add "not short".toUTF8] := by
  have small : raggedTable.size < 2 ^ 32 - 4 := by decide
  exact ⟨small, entries_partition.1 raggedTable small, entries_partition.2 _ (by simp) (by decide +kernel)⟩

end CoffWorks.StringTable
