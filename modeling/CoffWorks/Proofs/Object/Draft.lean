import CoffWorks.Proofs.Object.Delivery

namespace CoffWorks

open Bytes

/-- Position `i` is within the pointer at `x`. -/
def InField (x i : Nat) : Prop := x ≤ i ∧ i < x + 4

/-- `q` is a first part of `d`, except that pointers at `fields` may be zero in it. -/
structure Draft (fields : List Nat) (q d : Bytes) : Prop where
  size_le : q.size ≤ d.size
  outside : ∀ i, i < q.size → (∀ x ∈ fields, ¬ InField x i) → q.byteAt i = d.byteAt i
  field : ∀ x ∈ fields, (∀ i, i < q.size → InField x i → q.byteAt i = 0) ∨
    ∀ i, i < q.size → InField x i → q.byteAt i = d.byteAt i

/-- No two of the pointers overlap. -/
def Apart (fields : List Nat) : Prop := ∀ x ∈ fields, ∀ y ∈ fields, x ≠ y → x + 4 ≤ y ∨ y + 4 ≤ x

/-- The pointer at `x` has been written, as zero. -/
structure Blank (b : Bytes) (x : Nat) : Prop where
  inside : x + 4 ≤ b.size
  zero : ∀ i, InField x i → b.byteAt i = 0

variable {fields : List Nat}

namespace Blank

variable {b : Bytes} {x : Nat}

theorem append (h : Blank b x) (data : Bytes) : Blank (b ++ data) x := by
  have inside := h.inside
  refine ⟨by rw [ByteArray.size_append]; omega, ?_⟩
  rintro i ⟨start, stop⟩
  rw [byteAt_append_left _ _ _ (by omega)]
  exact h.zero i ⟨start, stop⟩

/-- Another pointer that is filled in does not touch this one. -/
theorem overwrite (h : Blank b x) {y : Nat} {data : Bytes} (hs : data.size = 4) (hy : y + 4 ≤ b.size)
    (apart : x + 4 ≤ y ∨ y + 4 ≤ x) : Blank (b.overwrite y data) x := by
  refine ⟨?_, ?_⟩
  · rw [size_overwrite _ _ _ (by omega)]
    exact h.inside
  · rintro i ⟨start, stop⟩
    rw [byteAt_overwrite_of_outside _ _ (by omega) (by omega)]
    exact h.zero i ⟨start, stop⟩

theorem shift (h : Blank b x) (a : Bytes) : Blank (a ++ b) (a.size + x) := by
  have inside := h.inside
  refine ⟨by rw [ByteArray.size_append]; omega, ?_⟩
  rintro i ⟨start, stop⟩
  obtain ⟨j, rfl⟩ := Nat.exists_eq_add_of_le (Nat.le_trans (Nat.le_add_right _ _) start)
  rw [byteAt_append]
  exact h.zero j ⟨by omega, by omega⟩

theorem middle (a c : Bytes) : Blank (a ++ (word 4 0 ++ c)) a.size := by
  refine ⟨by simp only [ByteArray.size_append, size_word]; omega, ?_⟩
  rintro i ⟨start, stop⟩
  obtain ⟨j, rfl⟩ := Nat.exists_eq_add_of_le start
  have small : j < 4 := by omega
  rw [byteAt_append, byteAt_append_left _ _ _ (by simpa using small)]
  interval_cases j <;> rfl

end Blank

namespace Draft

variable {q c d : Bytes}

theorem refl (fields : List Nat) (d : Bytes) : Draft fields d d :=
  ⟨Nat.le_refl _, fun _ _ _ => rfl, fun _ _ => .inr fun _ _ _ => rfl⟩

/-- A draft of a draft is a draft, since a pointer is filled in only once. -/
theorem trans (first : Draft fields q c) (second : Draft fields c d) : Draft fields q d := by
  have le := first.size_le
  refine ⟨Nat.le_trans le second.size_le, ?_, ?_⟩
  · intro i hi out
    rw [first.outside i hi out, second.outside i (by omega) out]
  · intro x hx
    rcases first.field x hx with zero | same
    · exact .inl zero
    · rcases second.field x hx with zero | next
      · refine .inl fun i hi within => ?_
        rw [same i hi within, zero i (by omega) within]
      · refine .inr fun i hi within => ?_
        rw [same i hi within, next i (by omega) within]

/-- A first part of a draft is a draft. -/
theorem take (h : Draft fields q d) (k : Nat) : Draft fields (q.take k) d := by
  have size := size_take q k
  have le := h.size_le
  have kept {i : Nat} (hi : i < (q.take k).size) : (q.take k).byteAt i = q.byteAt i :=
    byteAt_take q (by omega)
  refine ⟨by omega, ?_, ?_⟩
  · intro i hi out
    rw [kept hi, h.outside i (by omega) out]
  · intro x hx
    refine (h.field x hx).imp ?_ ?_
    · intro zero i hi within
      rw [kept hi, zero i (by omega) within]
    · intro same i hi within
      rw [kept hi, same i (by omega) within]

theorem append (b data : Bytes) : Draft fields b (b ++ data) := by
  have kept {i : Nat} (hi : i < b.size) : b.byteAt i = (b ++ data).byteAt i :=
    (byteAt_append_left b data i hi).symm
  exact ⟨by simp, fun i hi _ => kept hi, fun _ _ => .inr fun i hi _ => kept hi⟩

/-- Filling in a pointer that is still zero. -/
theorem overwrite (apart : Apart fields) {b data : Bytes} {x : Nat} (hx : x ∈ fields) (blank : Blank b x)
    (hs : data.size = 4) : Draft fields b (b.overwrite x data) := by
  have inside : x + data.size ≤ b.size := hs ▸ blank.inside
  have kept {i : Nat} (hi : ¬ InField x i) : b.byteAt i = (b.overwrite x data).byteAt i := by
    rw [byteAt_overwrite_of_outside _ _ inside]
    unfold InField at hi
    omega
  refine ⟨Nat.le_of_eq (size_overwrite _ _ _ inside).symm, fun i _ out => kept (out x hx), ?_⟩
  intro y hy
  by_cases same : y = x
  · exact .inl fun i _ within => blank.zero i (same ▸ within)
  · refine .inr fun i _ within => kept ?_
    have between := apart x hx y hy (Ne.symm same)
    unfold InField at within ⊢
    omega

end Draft

namespace Step

/-- All that the steps make on the way are drafts of `b`, which they make in the end. -/
def MakesDrafts (fields : List Nat) (steps : List Step) (b : Bytes) : Prop :=
  steps.foldlM apply .empty = some b ∧ ∀ q, Reaches .empty steps q → Draft fields q b

private theorem makesDrafts_nil : MakesDrafts fields [] .empty := by
  refine ⟨rfl, ?_⟩
  rintro q ⟨done, rest, parts, made⟩
  obtain ⟨rfl, -⟩ := List.append_eq_nil_iff.mp parts.symm
  obtain rfl : .empty = q := by simpa using made
  exact .refl fields _

/-- One more step that makes a draft of what was there. -/
theorem MakesDrafts.concat {steps : List Step} {step : Step} {b c : Bytes} (h : MakesDrafts fields steps b)
    (last : step.apply b = some c) (next : Draft fields b c) : MakesDrafts fields (steps ++ [step]) c := by
  obtain ⟨content, drafts⟩ := h
  refine ⟨by simp [List.foldlM_append, content, last], ?_⟩
  rintro q ⟨done, rest, parts, made⟩
  rcases List.append_eq_append_iff.mp parts.symm with ⟨more, rfl, -⟩ | ⟨more, rfl, ends⟩
  · exact (drafts q ⟨done, more, rfl, made⟩).trans next
  · rcases List.singleton_eq_append_iff.mp ends with ⟨rfl, -⟩ | ⟨rfl, -⟩
    · rw [List.append_nil] at made
      exact (drafts q ⟨steps, [], by simp, made⟩).trans next
    · have whole : step.apply b = some q := by simpa [List.foldlM_append, content] using made
      obtain rfl : c = q := Option.some.inj (last.symm.trans whole)
      exact .refl fields c

end Step

namespace Script

/-- The file is a draft all along. If the script has not failed, the pointers for which `Open` holds are
there, as zeros. -/
structure Drafts (s : Script) (fields : List Nat) (Open : Nat → Prop) : Prop where
  content : ∃ b, Step.MakesDrafts fields s.steps.toList b ∧ s.size = b.size ∧
    (s.failure = none → ∀ x ∈ fields, Open x → Blank b x)

variable {s : Script} {Open : Nat → Prop}

private theorem drafts_empty (failure : Option Failure) : Drafts { failure } fields fun _ => False :=
  ⟨.empty, Step.makesDrafts_nil, rfl, fun _ _ _ none => none.elim⟩

namespace Drafts

theorem mono (h : s.Drafts fields Open) {Fewer : Nat → Prop} (le : ∀ x ∈ fields, Fewer x → Open x) :
    s.Drafts fields Fewer := by
  obtain ⟨b, drafts, size, blank⟩ := h
  exact ⟨b, drafts, size, fun going x hx fewer => blank going x hx (le x hx fewer)⟩

/-- A script that fails is not continued. -/
theorem fail (h : s.Drafts fields Open) (strings : StringTable) (e : Failure) {More : Nat → Prop} :
    Drafts ⟨s.steps, s.size, strings, some e⟩ fields More := by
  obtain ⟨b, drafts, size, -⟩ := h
  exact ⟨b, drafts, size, fun going => by simp at going⟩

theorem append (h : s.Drafts fields Open) (data : Bytes) : (s.append data).Drafts fields Open := by
  obtain ⟨steps, size, strings, _ | e⟩ := s
  · obtain ⟨b, drafts, rfl, blank⟩ := h
    refine ⟨b ++ data, ?_, ByteArray.size_append.symm, fun _ x hx still => (blank rfl x hx still).append data⟩
    rw [Script.append, Array.toList_push]
    exact drafts.concat rfl (.append b data)
  · exact h

/-- An open pointer is filled in and is open no more. -/
theorem point (apart : Apart fields) (h : s.Drafts fields Open) {x : Nat} (hx : x ∈ fields) (still : Open x)
    (field : Bytes) : (s.point x field).Drafts fields fun y => Open y ∧ y ≠ x := by
  obtain ⟨steps, size, strings, _ | e⟩ := s
  · rw [Script.point]
    split_ifs with small
    · obtain ⟨b, drafts, rfl, blank⟩ := h
      have here := blank rfl x hx still
      have word : (push32 .empty (UInt32.ofNat b.size)).size = 4 := by simp [push32]
      have inside : x + (push32 .empty (UInt32.ofNat b.size)).size ≤ b.size := word.symm ▸ here.inside
      refine ⟨b.overwrite x (push32 .empty (UInt32.ofNat b.size)), ?_, (size_overwrite _ _ _ inside).symm, ?_⟩
      · rw [Array.toList_push]
        exact drafts.concat (if_pos ⟨inside, small⟩) (.overwrite apart hx here word)
      · rintro - y hy ⟨also, other⟩
        exact (blank rfl y hy also).overwrite word here.inside (apart y hy x hx other)
    · exact h.fail _ _
  · exact h.fail strings e

theorem emit (h : s.Drafts fields Open) (bytes : Unit → Attempt Bytes) :
    (s.emit bytes).Drafts fields Open := by
  obtain ⟨steps, size, strings, _ | e⟩ := s
  · rw [Script.emit]
    cases bytes () with
    | ok data =>
      dsimp only
      split_ifs with none
      · exact h
      · exact h.append data
    | error e => exact h.fail _ e
  · exact h

theorem emitNamed (h : s.Drafts fields Open) (bytes : StringTable → Attempt (Bytes × StringTable)) :
    (s.emitNamed bytes).Drafts fields Open := by
  obtain ⟨steps, size, strings, _ | e⟩ := s
  · rw [Script.emitNamed]
    cases bytes strings with
    | ok r =>
      have renamed : Drafts ⟨steps, size, r.2, none⟩ fields Open := ⟨h.content⟩
      exact renamed.append r.1
    | error e => exact h.fail _ e
  · exact h

/-- Pointers are open if they are seen to be zero. -/
theorem reopen (h : s.Drafts fields Open) {C : Prop} {b : Bytes} {t : StringTable} (made : s.Produces C b t)
    {More : Nat → Prop} (zero : ∀ x ∈ fields, More x → Blank b x) : s.Drafts fields More := by
  obtain ⟨c, drafts, size, -⟩ := h
  refine ⟨c, drafts, size, ?_⟩
  intro going
  have written := made.writes (made.failure_iff.mp going)
  obtain rfl : b = c := Option.some.inj (written.content_eq.symm.trans drafts.1)
  exact zero

end Drafts

end Script

private theorem FileHeader.blank_unplaced (h : FileHeader) : Blank h.unplaced.encode symbolTableField := by
  have zero := Blank.middle
    (word 2 h.machine.code.toNat ++ (word 2 h.sections.toNat ++ word 4 h.timestamp.toNat))
    (word 4 h.symbols.toNat ++ (word 2 h.optionalHeader.toNat ++ word 2 h.flags.bits.toNat))
  simp only [ByteArray.append_assoc, ByteArray.size_append, size_word] at zero
  rw [encode_eq]
  exact zero

private theorem SectionHeader.blank_unplaced (h : SectionHeader) {field : Nat}
    (which : field ∈ [rawDataField, relocationsField, lineNumbersField]) : Blank h.unplaced.encode field := by
  have rawData := Blank.middle h.front (word 4 0 ++ (word 4 0 ++ h.back))
  have relocations := Blank.middle (h.front ++ word 4 0) (word 4 0 ++ h.back)
  have lineNumbers := Blank.middle (h.front ++ (word 4 0 ++ word 4 0)) h.back
  simp only [ByteArray.append_assoc, ByteArray.size_append, size_word, size_front]
    at rawData relocations lineNumbers
  rw [encode_eq_pointers]
  simp only [List.mem_cons, List.not_mem_nil, or_false] at which
  rcases which with rfl | rfl | rfl
  · exact rawData
  · exact relocations
  · exact lineNumbers

namespace ObjectFile

/-- Where the pointers to tables stand: one in the file header, and three in each section header. -/
def pointerFields (f : ObjectFile) : List Nat :=
  FileHeader.symbolTableField :: (List.range f.sections.size).flatMap fun i =>
    [SectionHeader.rawDataField, SectionHeader.relocationsField, SectionHeader.lineNumbersField].map
      (Encode.headerPosition i + ·)

variable {f : ObjectFile} {p : Pool}

private theorem mem_pointerFields {x : Nat} : x ∈ f.pointerFields ↔ x = FileHeader.symbolTableField ∨
    ∃ i < f.sections.size, ∃ field ∈
      [SectionHeader.rawDataField, SectionHeader.relocationsField, SectionHeader.lineNumbersField],
      Encode.headerPosition i + field = x := by
  simp only [pointerFields, List.mem_cons, List.mem_flatMap, List.mem_range, List.mem_map]

/-- The pointers stand in different headers, or at different places in one. -/
theorem apart_pointerFields : Apart f.pointerFields := by
  intro x hx y hy other
  have place {z : Nat} (hz : z ∈ f.pointerFields) : z = 8 ∨ ∃ i, z = 20 + 40 * i + 20 ∨
      z = 20 + 40 * i + 24 ∨ z = 20 + 40 * i + 28 := by
    rcases mem_pointerFields.mp hz with rfl | ⟨i, -, field, which, rfl⟩
    · exact .inl rfl
    · refine .inr ⟨i, ?_⟩
      simpa [Encode.headerPosition, SectionHeader.rawDataField, SectionHeader.relocationsField,
        SectionHeader.lineNumbersField, FileHeader.size, SectionHeader.size, eq_comm] using which
  rcases place hx with rfl | ⟨i, hi⟩ <;> rcases place hy with rfl | ⟨j, hj⟩ <;> omega

/-- Headers are written with zeros for pointers. -/
private theorem blank_pointerFields {x : Nat} (hx : x ∈ f.pointerFields) : Blank (f.afterBodies p 0) x := by
  rw [← afterHeaders_size, afterHeaders, take_sectionHeaders]
  rcases mem_pointerFields.mp hx with rfl | ⟨i, hi, field, which, rfl⟩
  · exact (FileHeader.blank_unplaced _).append _
  · have inside : i < (f.sectionHeaders p).length := by simpa using hi
    have position : ((f.header p).unplaced.encode ++
        concat (((f.sectionHeaders p).take i).map (·.unplaced.encode))).size = Encode.headerPosition i := by
      rw [ByteArray.size_append, FileHeader.size_encode,
        size_concat_records (fun h : SectionHeader => h.unplaced.encode) _ fun h => h.unplaced.size_encode,
        List.length_take_of_le (Nat.le_of_lt inside), Encode.headerPosition]
    rw [concat_map_getElem _ _ inside, ← ByteArray.append_assoc, ← position]
    exact ((SectionHeader.blank_unplaced _ which).append _).shift _

end ObjectFile

namespace Encode

open ObjectFile

variable {f : ObjectFile} {p : Pool} {s : Script}

/-- The pointers of the first `i` section headers are not open. -/
def OpenFrom (i x : Nat) : Prop := x < headerPosition 0 ∨ headerPosition i ≤ x

/-- The body of a section fills in the three pointers of its header, which were open until then. -/
theorem sectionBody_drafts (slots : Slots) {i : Nat} (hi : i < f.sections.size) (x : Section)
    (h : s.Drafts f.pointerFields (OpenFrom i)) :
    (sectionBody slots i x s).Drafts f.pointerFields (OpenFrom (i + 1)) := by
  have pointer {field : Nat} (which : field ∈
      [SectionHeader.rawDataField, SectionHeader.relocationsField, SectionHeader.lineNumbersField]) :
      headerPosition i + field ∈ f.pointerFields := mem_pointerFields.mpr (.inr ⟨i, hi, field, which, rfl⟩)
  have own (field : Nat) : OpenFrom i (headerPosition i + field) := .inr (Nat.le_add_right _ _)
  have atData := h.point apart_pointerFields (pointer (by decide)) (own SectionHeader.rawDataField)
    "PointerToRawData"
  have atRelocations := (atData.append x.data).point apart_pointerFields (pointer (by decide))
    ⟨own SectionHeader.relocationsField, by simp [SectionHeader.rawDataField, SectionHeader.relocationsField]⟩
    "PointerToRelocations"
  have relocations := atRelocations.emit
    (fun _ => relocationBytes slots (fun _ => sectionPath i x) 0 .empty x.relocations.toList)
  have atLineNumbers := relocations.point apart_pointerFields (pointer (by decide))
    ⟨⟨own SectionHeader.lineNumbersField,
      by simp [SectionHeader.rawDataField, SectionHeader.lineNumbersField]⟩,
      by simp [SectionHeader.relocationsField, SectionHeader.lineNumbersField]⟩
    "PointerToLineNumbers"
  refine (atLineNumbers.append (zeros lineNumberBlock)).mono ?_
  intro y _ later
  simp only [OpenFrom, headerPosition, FileHeader.size, SectionHeader.size, SectionHeader.rawDataField,
    SectionHeader.relocationsField, SectionHeader.lineNumbersField] at later ⊢
  omega

/-- Whatever the encoder has written so far is a draft of what it will have written. -/
theorem script_drafts (p : Pool) (f : ObjectFile) : (script p f).Drafts f.pointerFields fun _ => False := by
  unfold script
  split
  · next e _ => exact Script.drafts_empty (some e)
  · next slots _ =>
    simp only [each_map]
    have header : (fileHeader p f {}).Drafts f.pointerFields fun _ => False :=
      (Script.drafts_empty none).emit _
    have headers : (each sectionHeader 0 (f.sectionList p) (fileHeader p f {})).Drafts f.pointerFields
        fun _ => False :=
      each_induction (I := fun _ s => s.Drafts f.pointerFields fun _ => False)
        (fun _ _ _ _ h => h.emitNamed _) header
    have opened := headers.reopen (headers_produces p f) fun x hx (_ : OpenFrom 0 x) => blank_pointerFields hx
    have inside {i : Nat} {x : Section} (hx : (f.sectionList p)[i]? = some x) : i < f.sections.size := by
      simpa using (List.getElem?_eq_some_iff.mp hx).1
    have bodies := each_induction (I := fun i s => s.Drafts f.pointerFields (OpenFrom i))
      (fun i x _ hx h => sectionBody_drafts slots (inside hx) x h) opened
    have pointer : FileHeader.symbolTableField ∈ f.pointerFields := List.mem_cons_self
    have table := bodies.point apart_pointerFields pointer (.inl (by decide)) "PointerToSymbolTable"
    have symbols := each_induction (l := f.symbolList p)
      (I := fun _ s => s.Drafts f.pointerFields fun _ => False)
      (fun k x _ _ h => (h.emitNamed _ : (symbol p f k x _).Drafts _ _))
      (table.mono fun _ _ none => none.elim)
    exact (symbols.append _).append _

end Encode

end CoffWorks
