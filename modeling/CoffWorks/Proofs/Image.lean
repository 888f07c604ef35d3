import CoffWorks.Proofs.Bytes.Cursor
import CoffWorks.Proofs.Record
import CoffWorks.Proofs.StringTable.Codec

namespace CoffWorks

open Bytes

theorem take_succ_of_getElem? {α : Type} {l : List α} {i : Nat} {a : α} (h : l[i]? = some a) :
    l.take (i + 1) = l.take i ++ [a] := by
  rw [List.take_add_one, h]
  rfl

theorem sum_map_take_le {α : Type} (g : α → Nat) (l : List α) (k : Nat) :
    ((l.take k).map g).sum ≤ (l.map g).sum :=
  ((List.take_sublist k l).map g).sum_le_sum (by simp)

namespace SymbolEntry

/-- A symbol's record and its auxiliary records. -/
def encode (e : SymbolEntry) : Bytes := e.record.encode ++ concat (e.aux.map (·.bytes))

/-- How many slots the symbol takes. -/
def slots (e : SymbolEntry) : Nat := 1 + e.aux.length

theorem size_encode (e : SymbolEntry) : e.encode.size = SymbolRecord.size * e.slots := by
  have aux : (concat (e.aux.map (·.bytes))).size = SymbolRecord.size * e.aux.length :=
    size_concat_records _ _ (fun a => a.size_eq) _
  rw [encode, ByteArray.size_append, SymbolRecord.size_encode, aux, slots, Nat.mul_add, Nat.mul_one]

/-- The entries follow each other from `slot` on, and their records count the auxiliary records. -/
def Contiguous (slot : Nat) (es : List SymbolEntry) : Prop :=
  ∀ k e, es[k]? = some e → e.index.toNat = slot + ((es.take k).map slots).sum ∧
    e.record.auxCount.toNat = e.aux.length

private theorem contiguous_cons {slot : Nat} {e : SymbolEntry} {rest : List SymbolEntry}
    (h : Contiguous slot (e :: rest)) : e.index.toNat = slot ∧ e.record.auxCount.toNat = e.aux.length ∧
      Contiguous (slot + e.slots) rest := by
  obtain ⟨index, count⟩ := h 0 e rfl
  refine ⟨by simpa using index, count, ?_⟩
  intro k x hk
  obtain ⟨index, count⟩ := h (k + 1) x (by simpa using hk)
  refine ⟨?_, count⟩
  rw [index, List.take_succ_cons, List.map_cons, List.sum_cons, Nat.add_assoc]

/-- The slot holds an auxiliary record of the symbol. -/
def OwnsAux (e : SymbolEntry) (slot : Nat) : Prop :=
  e.index.toNat < slot ∧ slot ≤ e.index.toNat + e.aux.length

/-- In a contiguous table the slot of a symbol is none of an auxiliary record. -/
theorem Contiguous.not_ownsAux {slot : Nat} {es : List SymbolEntry} (h : Contiguous slot es) {k m : Nat}
    {e other : SymbolEntry} (hk : es[k]? = some e) (hm : es[m]? = some other) :
    ¬ other.OwnsAux e.index.toNat := by
  rintro ⟨after, inside⟩
  rw [(h k e hk).1, (h m other hm).1] at after inside
  rcases Nat.lt_or_ge m k with before | later
  · -- All slots of `other` are before that of `e`.
    have next := sum_map_take_le slots (es.take k) (m + 1)
    rw [List.take_take, Nat.min_eq_left before, take_succ_of_getElem? hm, List.map_append, List.sum_append,
      List.map_singleton, List.sum_singleton, slots] at next
    omega
  · have prior := sum_map_take_le slots (es.take m) k
    rw [List.take_take, Nat.min_eq_left later] at prior
    omega

theorem Contiguous.index_lt {slot : Nat} {es : List SymbolEntry} (h : Contiguous slot es) {k : Nat}
    {e : SymbolEntry} (hk : es[k]? = some e) : e.index.toNat < slot + (es.map slots).sum := by
  have next := sum_map_take_le slots es (k + 1)
  rw [take_succ_of_getElem? hk, List.map_append, List.sum_append, List.map_singleton, List.sum_singleton,
    slots] at next
  rw [(h k e hk).1]
  omega

end SymbolEntry

namespace Image

section Records

variable {α : Type} (format : RecordFormat α) (label : Nat → Bytes)

/-- `n` records of a sort, the first of which is number `i`. -/
def readRecords : Nat → Nat → Array α → Cursor → Attempt (Array α × Cursor)
  | 0, _, acc, c => .ok (acc, c)
  | n + 1, i, acc, c => do
    let (raw, c) ← recordBytes c (fun _ => label i) format.size
    let record ← format.parse raw
    readRecords n (i + 1) (acc.push record) c

/-- Encoded records that stand behind the cursor are read back, and the cursor stops after the last one. -/
theorem readRecords_between (rs : List α) (a c : Bytes) (i : Nat) (acc : Array α)
    (hb : a.size + (concat (rs.map format.encode)).size < 2 ^ 63) :
    readRecords format label rs.length i acc (.between a (concat (rs.map format.encode) ++ c)) =
      .ok (acc ++ rs.toArray, .between (a ++ concat (rs.map format.encode)) c) := by
  induction rs generalizing a i acc with
  | nil => simp [readRecords]
  | cons r rest ih =>
    simp only [List.map_cons, concat_cons, ByteArray.size_append] at hb
    have read (record : Unit → Bytes) :=
      recordBytes_between a (format.encode r) (concat (rest.map format.encode) ++ c) record (by omega)
    have parsed : format.parse (format.encode r) = .ok r := by
      simpa using format.parse_encode r .empty
    have next := ih (a ++ format.encode r) (i + 1) (acc.push r) (by rw [ByteArray.size_append]; omega)
    simp only [format.size_encode] at read
    simp only [List.map_cons, concat_cons, List.length_cons, readRecords, ByteArray.append_assoc]
    rw [read]
    simp only [bind, Except.bind, parsed, next]
    simp [ByteArray.append_assoc]

end Records

/-- The directory is read as a table of records. -/
theorem readSections_eq (n i : Nat) (acc : Array SectionHeader) (c : Cursor) : readSections n i acc c =
    readRecords SectionHeader.format (fun i => "section header " ++ Text.decimal i) n i acc c := by
  induction n generalizing i acc c with
  | zero => rfl
  | succ n ih =>
    simp only [readSections, readRecords, ih]
    rfl

theorem readRelocations_eq (i n j : Nat) (acc : Array RelocationRecord) (c : Cursor) :
    readRelocations i n j acc c = readRecords RelocationRecord.format
      (fun j => "relocation " ++ Text.decimal j ++ " of section " ++ Text.decimal i) n j acc c := by
  induction n generalizing j acc c with
  | zero => rfl
  | succ n ih =>
    simp only [readRelocations, readRecords, ih]
    rfl

theorem readSections_between (hs : List SectionHeader) (a c : Bytes) (i : Nat) (acc : Array SectionHeader)
    (hb : a.size + (concat (hs.map (·.encode))).size < 2 ^ 63) :
    readSections hs.length i acc (.between a (concat (hs.map (·.encode)) ++ c)) =
      .ok (acc ++ hs.toArray, .between (a ++ concat (hs.map (·.encode))) c) := by
  rw [readSections_eq]
  exact readRecords_between SectionHeader.format _ hs a c i acc hb

theorem readRelocations_between (rs : List RelocationRecord) (a c : Bytes) (i j : Nat)
    (acc : Array RelocationRecord) (hb : a.size + (concat (rs.map (·.encode))).size < 2 ^ 63) :
    readRelocations i rs.length j acc (.between a (concat (rs.map (·.encode)) ++ c)) =
      .ok (acc ++ rs.toArray, .between (a ++ concat (rs.map (·.encode))) c) := by
  rw [readRelocations_eq]
  exact readRecords_between RelocationRecord.format _ rs a c j acc hb

/-- The header points to the encoded relocations in the file, unless there are none. -/
def Relocates (data : Bytes) (h : SectionHeader) (rs : List RelocationRecord) : Prop :=
  h.relocationCount.toNat = rs.length ∧
    ∃ a c, data = a ++ (concat (rs.map (·.encode)) ++ c) ∧ h.relocations.toNat = a.size ∧
      (a ++ concat (rs.map (·.encode))).size < 2 ^ 63

/-- Wherever the cursor is, the pointers lead to the relocations. -/
theorem readAllRelocations_eq {data : Bytes} {hs : List SectionHeader}
    {rss : List (List RelocationRecord)} (h : List.Forall₂ (Relocates data) hs rss) (i : Nat)
    (acc : Array (Array RelocationRecord)) (c : Cursor) (hc : c.data = data) :
    ∃ c', c'.data = data ∧
      readAllRelocations i acc c hs = .ok (acc ++ (rss.map (·.toArray)).toArray, c') := by
  induction h generalizing i acc c with
  | nil => exact ⟨c, hc, by simp [readAllRelocations]⟩
  | @cons head rs hs rss points _ ih =>
    obtain ⟨count, a, b, split, start, bound⟩ := points
    by_cases none : head.relocationCount = 0
    · have empty : rs = [] := by
        apply List.eq_nil_of_length_eq_zero
        rw [← count, none]
        rfl
      obtain ⟨c', hc', next⟩ := ih (i + 1) (acc.push #[]) c hc
      refine ⟨c', hc', ?_⟩
      rw [readAllRelocations, if_pos none, next, empty]
      simp
    · rw [ByteArray.size_append] at bound
      have seek := seekTo_between c (fun _ => "relocations of section " ++ Text.decimal i) a _
        (hc.trans split) (by omega)
      have read := readRelocations_between rs a b i 0 #[] bound
      obtain ⟨c', hc', next⟩ := ih (i + 1) (acc.push rs.toArray)
        (.between (a ++ concat (rs.map (·.encode))) b) (by rw [split]; simp [ByteArray.append_assoc])
      refine ⟨c', hc', ?_⟩
      rw [readAllRelocations, if_neg none, start, seek, count]
      simp only [bind, Except.bind, read, Array.empty_append, next]
      simp

private theorem readAux_between (aux : List (Field 18)) (a c : Bytes) (slot : UInt32) (k : Nat)
    (hb : a.size + (concat (aux.map (·.bytes))).size < 2 ^ 63) :
    readAux slot aux.length k (.between a (concat (aux.map (·.bytes)) ++ c)) =
      .ok (aux, .between (a ++ concat (aux.map (·.bytes))) c) := by
  induction aux generalizing a k with
  | nil => simp [readAux]
  | cons x rest ih =>
    simp only [List.map_cons, concat_cons, ByteArray.size_append] at hb
    have read (record : Unit → Bytes) :=
      recordBytes_between a x.bytes (concat (rest.map (·.bytes)) ++ c) record (by omega)
    have next := ih (a ++ x.bytes) (k + 1) (by rw [ByteArray.size_append]; omega)
    simp only [x.size_eq] at read
    simp only [List.map_cons, concat_cons, List.length_cons, readAux, ByteArray.append_assoc, auxSize,
      SymbolRecord.size]
    rw [read]
    simp only [bind, Except.bind, next, pure, Except.pure, Field.pad_bytes_self]
    simp [ByteArray.append_assoc]

private theorem readSymbol_between (e : SymbolEntry) (a c : Bytes) (hx : e.record.auxCount.toNat = e.aux.length)
    (hb : a.size + e.encode.size < 2 ^ 63) :
    readSymbol e.index (.between a (e.encode ++ c)) = .ok (e, .between (a ++ e.encode) c) := by
  rw [SymbolEntry.encode, ByteArray.size_append] at hb
  have read (record : Unit → Bytes) :=
    recordBytes_between a e.record.encode (concat (e.aux.map (·.bytes)) ++ c) record (by omega)
  have parsed : SymbolRecord.parse e.record.encode = .ok e.record := by
    simpa using SymbolRecord.parse_encode e.record .empty
  have aux := readAux_between e.aux (a ++ e.record.encode) c e.index 0
    (by rw [ByteArray.size_append]; omega)
  simp only [SymbolRecord.size_encode] at read
  simp only [readSymbol, SymbolEntry.encode, ByteArray.append_assoc]
  rw [read]
  simp only [bind, Except.bind, parsed, hx, aux, pure, Except.pure]
  simp [ByteArray.append_assoc]

/-- The slots of a contiguous table are counted up to its end. -/
theorem readSymbols_between (es : List SymbolEntry) (a c : Bytes) (count slot : UInt32)
    (acc : Array SymbolEntry) (hes : SymbolEntry.Contiguous slot.toNat es)
    (hc : slot.toNat + (es.map SymbolEntry.slots).sum = count.toNat)
    (hb : a.size + (concat (es.map (·.encode))).size < 2 ^ 63) :
    readSymbols count slot acc (.between a (concat (es.map (·.encode)) ++ c)) =
      .ok (acc ++ es.toArray, .between (a ++ concat (es.map (·.encode))) c) := by
  induction es generalizing a slot acc with
  | nil =>
    have stop : ¬ slot < count := by
      rw [UInt32.lt_iff_toNat_lt]
      simp at hc
      omega
    rw [readSymbols, if_neg stop]
    simp
  | cons e rest ih =>
    obtain ⟨index, hx, contiguous⟩ := SymbolEntry.contiguous_cons hes
    obtain rfl : e.index = slot := UInt32.toNat_inj.mp index
    simp only [List.map_cons, concat_cons, List.sum_cons, ByteArray.size_append] at hb hc
    have go : e.index < count := by
      rw [UInt32.lt_iff_toNat_lt]
      simp only [SymbolEntry.slots] at hc
      omega
    have bound := count.toNat_lt
    have next : (e.index + 1 + e.record.auxCount.toUInt32).toNat = e.index.toNat + e.slots := by
      simp only [UInt32.toNat_add, UInt8.toNat_toUInt32, hx, SymbolEntry.slots, UInt32.toNat_one] at hc ⊢
      omega
    have read := readSymbol_between e a (concat (rest.map (·.encode)) ++ c) hx (by omega)
    have rest_read := ih (a ++ e.encode) (e.index + 1 + e.record.auxCount.toUInt32) (acc.push e)
      (by rw [next]; exact contiguous) (by omega) (by rw [ByteArray.size_append]; omega)
    simp only [List.map_cons, concat_cons, ByteArray.append_assoc]
    rw [readSymbols, if_pos go]
    split
    · next err h =>
      rw [read] at h
      cases h
    · next entry c' h =>
      rw [read] at h
      cases h
      rw [rest_read]
      simp [ByteArray.append_assoc]

end Image

theorem Image.readStrings_between (t : StringTable) (a : Bytes) (hb : a.size + 4 < 2 ^ 63) :
    readStrings (.between a (t.lengthBytes ++ t.blob)) = .ok t.covered := by
  have length : (UInt32.ofNat t.size).toNat = t.size % UInt32.size := UInt32.toNat_ofNat'
  have inside : t.size % UInt32.size ≤ t.blob.size := Nat.mod_le _ _
  have read := Cursor.u32_between a t.blob (.ofNat t.size) hb
  rw [← StringTable.lengthBytes_eq] at read
  have rest := t.read_bytes_append .empty .endOfInput
  rw [ByteArray.append_empty, StringTable.bytes_eq] at rest
  have fits : ¬ (UInt32.ofNat t.size).toNat > (Cursor.between (a ++ t.lengthBytes) t.blob).remaining := by
    rw [length, Cursor.between_remaining]
    exact Nat.not_lt.mpr inside
  rw [readStrings, Cursor.reading_eq_ok.mpr read]
  simp only [bind, Except.bind]
  rw [if_neg fits, Cursor.reading_eq_ok]
  simp only [Cursor.between_data, Cursor.between_pos, ByteArray.append_assoc, drop_append]
  exact rest

end CoffWorks
