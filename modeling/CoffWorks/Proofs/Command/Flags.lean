import CoffWorks.Command.Options
import CoffWorks.Proofs.Bytes.Split
import CoffWorks.Proofs.Text.Literal
import CoffWorks.Proofs.Text.Plain

namespace CoffWorks

/-- The words a label is written with. -/
def CodeLabel.words (l : CodeLabel) : List Bytes :=
  (if l.isPublic then ["public".toUTF8] else []) ++ (if l.isExternal then ["external".toUTF8] else [])

/-- What may stand behind the offset of a fixup. -/
def CodeFixup.modes (f : CodeFixup) : List (List Bytes) :=
  if f.isRelative then [["rel".toUTF8]] else [[], ["abs".toUTF8]]

namespace Command

open Bytes Text

/-- A name that can be given: it can be told from what follows. -/
def Givable (name : Bytes) : Prop := name ≠ .empty ∧ 58 ∉ name.toList

/-- A literal of 32 bits. -/
def IsOffset (part : Bytes) : Prop := ∃ n < 2 ^ 32, Literal part.toList n

/-- The text writes the label: its name, then its offset and its words in any order, with empty parts anywhere. -/
def WritesLabel (text : Bytes) (l : CodeLabel) : Prop :=
  Givable l.name ∧ ∃ offset parts, Literal offset.toList l.offset.toNat ∧
    (parts.filter (!·.isEmpty)).Perm (offset :: l.words) ∧ text = Bytes.join ":" (l.name :: parts)

/-- The text writes the fixup: its symbol, its offset and perhaps its mode. -/
def WritesFixup (text : Bytes) (f : CodeFixup) : Prop :=
  Givable f.symbol ∧ f.bits = 0 ∧ ∃ offset mode, Literal offset.toList f.offset.toNat ∧
    mode ∈ f.modes ∧ text = Bytes.join ":" (f.symbol :: offset :: mode)

/-- What may stand behind the name of a label. -/
def LabelPart (part : Bytes) : Prop :=
  part = .empty ∨ part = "public" ∨ part = "external" ∨ IsOffset part

/-- The texts of labels: parts between colons, a name first. -/
def LabelText (text : Bytes) : Prop :=
  ∃ name parts, Separated 58 text (name :: parts) ∧ name ≠ .empty ∧ ∀ part ∈ parts, LabelPart part

/-- The parts of a fixup, with a mode or without. -/
inductive FixupParts : List Bytes → Prop where
  | two {symbol offset : Bytes} (named : symbol ≠ .empty) (placed : IsOffset offset) : FixupParts [symbol, offset]
  | three {symbol offset mode : Bytes} (named : symbol ≠ .empty) (placed : IsOffset offset)
      (known : mode = "rel" ∨ mode = "abs") : FixupParts [symbol, offset, mode]

/-- The texts of fixups. -/
def FixupText (text : Bytes) : Prop := ∃ parts, Separated 58 text parts ∧ FixupParts parts

section
variable {α : Type} {add : List α → Bytes → Attempt (List α)} {read : Bytes → Attempt α}
  {Writes : Bytes → α → Prop} {Accepted : Bytes → Prop}

/-- Read a text, then put what it says behind the items. -/
def giving (read : Bytes → Attempt α) (text : Bytes) : InPlace (List α) Unit := do
  let x ← read text
  modify (· ++ [x])

/-- The answer to one more text, and the items after it. -/
def give (read : Bytes → Attempt α) (text : Bytes) (items : List α) : Attempt Unit × List α :=
  (giving read text).perform items

/-- Texts add to the items what they write. A text that is not accepted adds nothing, any other adds one item. -/
structure Accumulates (read : Bytes → Attempt α) (add : List α → Bytes → Attempt (List α))
    (Writes : Bytes → α → Prop) (Accepted : Bytes → Prop) : Prop where
  collects : ∀ items texts given, List.Forall₂ Writes texts given → texts.foldlM add items = .ok (items ++ given)
  rejected : ∀ items text e, (give read text items).1 = .error e → (give read text items).2 = items
  accepted : ∀ items text, (give read text items).1 = .ok () → ∃ x, (give read text items).2 = items ++ [x]
  accepts_iff : ∀ items text, (give read text items).1 = .ok () ↔ Accepted text
  give_eq : ∀ items text, give read text items = InPlace.keep items ((add items text).map fun more => ((), more))

private theorem collects_of_reads (adds : ∀ items text, add items text = (read text).map fun x => items ++ [x])
    (reads : ∀ text x, Writes text x → read text = .ok x) {texts : List Bytes} {given : List α}
    (h : List.Forall₂ Writes texts given) (items : List α) : texts.foldlM add items = .ok (items ++ given) := by
  induction h generalizing items with
  | nil => rw [List.foldlM_nil, List.append_nil, Attempt.pure_eq_ok]
  | @cons text x texts given first rest ih =>
    have added : add items text = .ok (items ++ [x]) := by
      rw [adds, reads text x first]
      rfl
    rw [List.foldlM_cons, added, Attempt.ok_bind, ih, List.append_assoc, List.singleton_append]

private theorem perform_giving (text : Bytes) (items : List α) :
    (giving read text).perform items = InPlace.andThen (read text, items) fun x items => (.ok (), items ++ [x]) := by
  rw [giving, InPlace.perform_bind, InPlace.perform_attempt]
  rfl

/-- A flag accumulates if its reader takes every way of writing an item and accepts no other texts. -/
theorem accumulates_of_reads (adds : ∀ items text, add items text = (read text).map fun x => items ++ [x])
    (reads : ∀ text x, Writes text x → read text = .ok x)
    (accepts : ∀ text, (∃ x, read text = .ok x) ↔ Accepted text) :
    Accumulates read add Writes Accepted where
  collects items _ _ h := collects_of_reads adds reads h items
  rejected items text e := by
    rw [give, perform_giving]
    cases read text <;> simp
  accepted items text := by
    rw [give, perform_giving]
    cases read text <;> simp
  accepts_iff items text := by
    rw [give, perform_giving, ← accepts]
    cases read text <;> simp
  give_eq items text := by
    rw [give, perform_giving, adds]
    cases read text <;> rfl

end

theorem isOffset_iff {part : Bytes} : IsOffset part ↔ ∃ n, literal? 32 part = some n := by
  simp only [IsOffset, literal?_eq_some_iff, and_comm]

theorem literal?_offset {part : Bytes} {v : UInt32} (h : Literal part.toList v.toNat) :
    literal? 32 part = some v.toNat :=
  literal?_eq_some_iff.mpr ⟨h, v.toNat_lt⟩

private theorem literal?_empty : literal? 32 .empty = none := by
  rw [literal?, toList_empty]
  rfl

private theorem literal?_public : literal? 32 "public" = none := by
  rw [literal?, toList_eq]
  rfl

private theorem literal?_external : literal? 32 "external" = none := by
  rw [literal?, toList_eq]
  rfl

private theorem colon_not_mem {l : List UInt8} {n : Nat} (h : Literal l n) : 58 ∉ l := by
  intro mem
  have octet : (58 : UInt8).toNat = 58 := rfl
  rcases h.counts_of_mem 58 mem with underscore | ⟨d, counts⟩
  · exact absurd underscore (by decide)
  · unfold Counts at counts
    omega

/-- Parts without colons are found again between the colons that join them. -/
theorem separated_join {parts : List Bytes} (nonempty : parts ≠ []) (free : ∀ p ∈ parts, 58 ∉ p.toList) :
    Separated 58 (join ":" parts) parts :=
  ⟨nonempty, free, rfl⟩

theorem adds_fixup (fixups : List CodeFixup) (text : Bytes) :
    addFixup fixups text = (readFixup text).map fun f => fixups ++ [f] := by
  rw [addFixup]
  cases readFixup text <;> rfl

variable {text : Bytes}

private theorem rel_ne_abs : "rel".toUTF8 ≠ "abs".toUTF8 := by
  intro same
  exact absurd (congrArg (byteAt · 0) same) (by decide)

/-- A fixup needs a symbol and an offset; its mode is one of the two words or absent. -/
theorem read_eq_ok {symbol offset : Bytes} {mode : Option Bytes} {f : CodeFixup} :
    readFixup.read text symbol offset mode = .ok f ↔ symbol ≠ .empty ∧ ∃ n, literal? 32 offset = some n ∧
      (mode = some "rel".toUTF8 ∧ f = { symbol, offset := .ofNat n, isRelative := true } ∨
        (mode = none ∨ mode = some "abs".toUTF8) ∧ f = { symbol, offset := .ofNat n }) := by
  unfold readFixup.read
  by_cases named : symbol = .empty
  · rw [if_pos (Bytes.isEmpty_iff.mpr named)]
    simp [named]
  rw [if_neg (mt Bytes.isEmpty_iff.mp named), and_iff_right named]
  cases placed : literal? 32 offset with
  | none => simp
  | some n =>
    cases mode with
    | none => simp [eq_comm]
    | some mode =>
      simp only [Option.some.injEq, exists_eq_left', reduceCtorEq, false_or]
      by_cases relative : mode = "rel"
      · have other : mode ≠ "abs" := relative ▸ rel_ne_abs
        rw [if_pos relative, or_iff_left (fun h => other h.1), and_iff_right relative, Except.ok.injEq]
        exact eq_comm
      rw [if_neg relative, or_iff_right (fun h => relative h.1)]
      by_cases absolute : mode = "abs"
      · rw [if_pos absolute, and_iff_right absolute, Except.ok.injEq]
        exact eq_comm
      · rw [if_neg absolute]
        exact ⟨nofun, fun h => absurd h.1 absolute⟩

private theorem readFixup_of_two {symbol offset : Bytes} (h : Separated 58 text [symbol, offset]) :
    readFixup text = readFixup.read text symbol offset none := by
  rw [readFixup, h.splitOn_eq]

private theorem readFixup_of_three {symbol offset mode : Bytes} (h : Separated 58 text [symbol, offset, mode]) :
    readFixup text = readFixup.read text symbol offset (some mode) := by
  rw [readFixup, h.splitOn_eq]

/-- Just the texts with the parts of a fixup are read as one. -/
theorem exists_readFixup_iff (text : Bytes) : (∃ f, readFixup text = .ok f) ↔ FixupText text := by
  constructor
  · rintro ⟨f, h⟩
    have parts := separated_splitOn 58 text
    refine ⟨_, parts, ?_⟩
    unfold readFixup at h
    generalize text.splitOn 58 = l at h
    split at h
    · rename_i symbol offset
      obtain ⟨named, n, placed, -⟩ := read_eq_ok.mp h
      exact .two named (isOffset_iff.mpr ⟨n, placed⟩)
    · rename_i symbol offset mode
      obtain ⟨named, n, placed, known⟩ := read_eq_ok.mp h
      exact .three named (isOffset_iff.mpr ⟨n, placed⟩) (by simpa using known.imp And.left And.left)
    · cases h
  · rintro ⟨parts, separated, known⟩
    cases known with
    | two named placed =>
      obtain ⟨n, placed⟩ := isOffset_iff.mp placed
      rw [readFixup_of_two separated]
      exact ⟨_, read_eq_ok.mpr ⟨named, n, placed, .inr ⟨.inl rfl, rfl⟩⟩⟩
    | three named placed known =>
      obtain ⟨n, placed⟩ := isOffset_iff.mp placed
      rw [readFixup_of_three separated]
      rcases known with rfl | rfl
      · exact ⟨_, read_eq_ok.mpr ⟨named, n, placed, .inl ⟨rfl, rfl⟩⟩⟩
      · exact ⟨_, read_eq_ok.mpr ⟨named, n, placed, .inr ⟨.inr rfl, rfl⟩⟩⟩

private theorem free_of_mem_modes {f : CodeFixup} {mode : List Bytes} (h : mode ∈ f.modes) :
    ∀ p ∈ mode, 58 ∉ p.toList := by
  have rel : 58 ∉ ByteArray.toList "rel".toUTF8 := by
    rw [toList_eq]
    decide
  have abs : 58 ∉ ByteArray.toList "abs".toUTF8 := by
    rw [toList_eq]
    decide
  unfold CodeFixup.modes at h
  split_ifs at h
  · rw [List.mem_singleton.mp h]
    exact List.forall_mem_singleton.mpr rel
  · rcases List.mem_pair.mp h with rfl | rfl
    · exact List.forall_mem_nil _
    · exact List.forall_mem_singleton.mpr abs

/-- A fixup is read from each of the texts that write it. -/
theorem readFixup_of_writes {f : CodeFixup} (h : WritesFixup text f) : readFixup text = .ok f := by
  obtain ⟨⟨named, free⟩, bits, offset, mode, placed, known, rfl⟩ := h
  have value := literal?_offset placed
  have all : ∀ p ∈ f.symbol :: offset :: mode, 58 ∉ p.toList :=
    List.forall_mem_cons.mpr ⟨free, List.forall_mem_cons.mpr ⟨colon_not_mem placed, free_of_mem_modes known⟩⟩
  have separated := separated_join (by simp) all
  obtain ⟨symbol, v, _, relative⟩ := f
  obtain rfl : _ = 0 := bits
  cases relative with
  | true =>
    obtain rfl := List.mem_singleton.mp known
    rw [readFixup_of_three separated, read_eq_ok]
    exact ⟨named, _, value, .inl ⟨rfl, by rw [UInt32.ofNat_toNat]⟩⟩
  | false =>
    rcases List.mem_pair.mp known with rfl | rfl
    · rw [readFixup_of_two separated, read_eq_ok]
      exact ⟨named, _, value, .inr ⟨.inl rfl, by rw [UInt32.ofNat_toNat]⟩⟩
    · rw [readFixup_of_three separated, read_eq_ok]
      exact ⟨named, _, value, .inr ⟨.inr rfl, by rw [UInt32.ofNat_toNat]⟩⟩

theorem adds_label (labels : List CodeLabel) (text : Bytes) :
    addLabel labels text = (readLabel text).map fun l => labels ++ [l] := by
  rw [addLabel]
  cases readLabel text <;> rfl

theorem LabelPart.free {part : Bytes} (h : LabelPart part) : 58 ∉ part.toList := by
  rcases h with rfl | rfl | rfl | ⟨n, -, literal⟩
  · rw [toList_empty]
    exact List.not_mem_nil
  · rw [toList_eq]
    decide
  · rw [toList_eq]
    decide
  · exact colon_not_mem literal

/-- What one part does to a label. -/
inductive Adds (l : CodeLabel) : Bytes → CodeLabel → Prop where
  | nothing : Adds l .empty l
  | seen : Adds l "public" { l with isPublic := true }
  | elsewhere : Adds l "external" { l with isExternal := true }
  | placed {part : Bytes} {n : Nat} (value : literal? 32 part = some n) : Adds l part { l with offset := .ofNat n }

private theorem ne_empty_of_size {b : Bytes} (h : b.size ≠ 0) : b ≠ .empty := by
  rintro rfl
  exact h rfl

private theorem public_ne_empty : "public".toUTF8 ≠ .empty := ne_empty_of_size (by decide)

private theorem external_ne_empty : "external".toUTF8 ≠ .empty := ne_empty_of_size (by decide)

private theorem public_ne_external : "public".toUTF8 ≠ "external".toUTF8 := by
  intro same
  exact absurd (congrArg ByteArray.size same) (by decide)

/-- Empty parts and words are no literals. -/
theorem ne_of_literal? {part : Bytes} {n : Nat} (h : literal? 32 part = some n) :
    part ≠ .empty ∧ part ≠ "public" ∧ part ≠ "external" := by
  refine ⟨?_, ?_, ?_⟩
  · rintro rfl
    rw [literal?_empty] at h
    cases h
  · rintro rfl
    rw [literal?_public] at h
    cases h
  · rintro rfl
    rw [literal?_external] at h
    cases h

/-- What one part does is what the reader makes of it. -/
theorem addPart_eq_ok {l l' : CodeLabel} {part : Bytes} :
    readLabel.addPart text l part = .ok l' ↔ Adds l part l' := by
  unfold readLabel.addPart
  constructor
  · intro h
    split_ifs at h with empty seen elsewhere
    · obtain rfl := Except.ok.inj h
      rw [Bytes.isEmpty_iff.mp empty]
      exact .nothing
    · obtain rfl := Except.ok.inj h
      rw [seen]
      exact .seen
    · obtain rfl := Except.ok.inj h
      rw [elsewhere]
      exact .elsewhere
    · cases value : literal? 32 part with
      | none =>
        rw [value] at h
        cases h
      | some n =>
        rw [value] at h
        obtain rfl := Except.ok.inj h
        exact .placed value
  · intro h
    cases h with
    | nothing => rfl
    | seen => rw [if_neg (mt Bytes.isEmpty_iff.mp public_ne_empty), if_pos rfl]
    | elsewhere =>
      rw [if_neg (mt Bytes.isEmpty_iff.mp external_ne_empty), if_neg public_ne_external.symm, if_pos rfl]
    | placed value =>
      obtain ⟨nonempty, not_public, not_external⟩ := ne_of_literal? value
      rw [if_neg (mt Bytes.isEmpty_iff.mp nonempty), if_neg not_public, if_neg not_external, value]

/-- `l'` is `l` with what the parts say; of several offsets the last one counts. -/
structure Gathers (l : CodeLabel) (parts : List Bytes) (l' : CodeLabel) : Prop where
  name : l'.name = l.name
  offset : l'.offset = (parts.filterMap (literal? 32)).foldl (fun _ n => .ofNat n) l.offset
  isExternal : l'.isExternal = true ↔ l.isExternal = true ∨ "external".toUTF8 ∈ parts
  isPublic : l'.isPublic = true ↔ l.isPublic = true ∨ "public".toUTF8 ∈ parts

/-- What later parts say comes on top of what was said before. -/
theorem Gathers.append {l l' l'' : CodeLabel} {parts more : List Bytes} (h : Gathers l parts l')
    (h' : Gathers l' more l'') : Gathers l (parts ++ more) l'' where
  name := h'.name.trans h.name
  offset := by rw [h'.offset, h.offset, List.filterMap_append, List.foldl_append]
  isExternal := by rw [h'.isExternal, h.isExternal, List.mem_append, or_assoc]
  isPublic := by rw [h'.isPublic, h.isPublic, List.mem_append, or_assoc]

theorem Adds.gathers {l l' : CodeLabel} {part : Bytes} (h : Adds l part l') : Gathers l [part] l' := by
  cases h with
  | nothing =>
    refine ⟨rfl, ?_, ?_, ?_⟩
    · rw [List.filterMap_cons_none literal?_empty]
      rfl
    · rw [List.mem_singleton, or_iff_left external_ne_empty]
    · rw [List.mem_singleton, or_iff_left public_ne_empty]
  | seen =>
    refine ⟨rfl, ?_, ?_, ?_⟩
    · rw [List.filterMap_cons_none literal?_public]
      rfl
    · rw [List.mem_singleton, or_iff_left public_ne_external.symm]
    · simp only [List.mem_singleton, or_true]
  | elsewhere =>
    refine ⟨rfl, ?_, ?_, ?_⟩
    · rw [List.filterMap_cons_none literal?_external]
      rfl
    · simp only [List.mem_singleton, or_true]
    · rw [List.mem_singleton, or_iff_left public_ne_external]
  | placed value =>
    obtain ⟨-, not_public, not_external⟩ := ne_of_literal? value
    refine ⟨rfl, ?_, ?_, ?_⟩
    · rw [List.filterMap_cons_some value]
      rfl
    · rw [List.mem_singleton, or_iff_left not_external.symm]
    · rw [List.mem_singleton, or_iff_left not_public.symm]

theorem labelPart_iff {part : Bytes} (l : CodeLabel) : LabelPart part ↔ ∃ l', Adds l part l' := by
  constructor
  · rintro (rfl | rfl | rfl | placed)
    · exact ⟨_, .nothing⟩
    · exact ⟨_, .seen⟩
    · exact ⟨_, .elsewhere⟩
    · obtain ⟨n, value⟩ := isOffset_iff.mp placed
      exact ⟨_, .placed value⟩
  · rintro ⟨l', h⟩
    cases h with
    | nothing => exact .inl rfl
    | seen => exact .inr (.inl rfl)
    | elsewhere => exact .inr (.inr (.inl rfl))
    | placed value => exact .inr (.inr (.inr (isOffset_iff.mpr ⟨_, value⟩)))

/-- The parts of a label can be read if each of them can. -/
theorem exists_foldlM_iff {parts : List Bytes} (l : CodeLabel) :
    (∃ l', parts.foldlM (readLabel.addPart text) l = .ok l') ↔ ∀ part ∈ parts, LabelPart part := by
  induction parts generalizing l with
  | nil => simp [Attempt.pure_eq_ok]
  | cons part parts ih =>
    simp only [List.foldlM_cons, Attempt.bind_eq_ok, addPart_eq_ok]
    rw [List.forall_mem_cons, labelPart_iff l]
    constructor
    · rintro ⟨l', l₁, first, rest⟩
      exact ⟨⟨l₁, first⟩, (ih l₁).mp ⟨l', rest⟩⟩
    · rintro ⟨⟨l₁, first⟩, rest⟩
      obtain ⟨l', rest⟩ := (ih l₁).mpr rest
      exact ⟨l', l₁, first, rest⟩

/-- A label has just what its parts say, by induction on the parts from the last one. -/
theorem gathers_of_foldlM {parts : List Bytes} {l l' : CodeLabel}
    (h : parts.foldlM (readLabel.addPart text) l = .ok l') : Gathers l parts l' := by
  induction parts generalizing l with
  | nil =>
    obtain rfl := Except.ok.inj h
    exact ⟨rfl, rfl, by simp, by simp⟩
  | cons part parts ih =>
    rw [List.foldlM_cons] at h
    obtain ⟨l₁, first, rest⟩ := Attempt.bind_eq_ok.mp h
    exact (addPart_eq_ok.mp first).gathers.append (ih rest)

theorem readLabel_of_separated {name : Bytes} {parts : List Bytes} (h : Separated 58 text (name :: parts))
    (named : name ≠ .empty) : readLabel text = parts.foldlM (readLabel.addPart text) { name } := by
  rw [readLabel, h.splitOn_eq]
  exact if_neg (mt Bytes.isEmpty_iff.mp named)

/-- Just the texts with a name and parts of a label are read as one. -/
theorem exists_readLabel_iff (text : Bytes) : (∃ l, readLabel text = .ok l) ↔ LabelText text := by
  constructor
  · rintro ⟨l, h⟩
    have separated := separated_splitOn 58 text
    obtain ⟨name, parts, split⟩ := List.exists_cons_of_ne_nil separated.nonempty
    rw [split] at separated
    by_cases named : name = .empty
    · have refused : readLabel text = .error (.plain ("symbol " ++ Text.quote text ++ " has no name")) := by
        rw [readLabel, split]
        exact if_pos (Bytes.isEmpty_iff.mpr named)
      rw [refused] at h
      cases h
    · rw [readLabel_of_separated separated named] at h
      exact ⟨name, parts, separated, named, (exists_foldlM_iff _).mp ⟨l, h⟩⟩
  · rintro ⟨name, parts, separated, named, known⟩
    rw [readLabel_of_separated separated named]
    exact (exists_foldlM_iff _).mpr known

theorem mem_words {l : CodeLabel} {w : Bytes} :
    w ∈ l.words ↔ l.isPublic = true ∧ w = "public" ∨ l.isExternal = true ∧ w = "external" := by
  rw [CodeLabel.words, List.mem_append]
  cases l.isPublic <;> cases l.isExternal <;> simp

private theorem public_mem_words {l : CodeLabel} : "public".toUTF8 ∈ l.words ↔ l.isPublic = true := by
  rw [mem_words, or_iff_left fun h => public_ne_external h.2]
  exact and_iff_left rfl

private theorem external_mem_words {l : CodeLabel} : "external".toUTF8 ∈ l.words ↔ l.isExternal = true := by
  rw [mem_words, or_iff_right fun h => public_ne_external h.2.symm]
  exact and_iff_left rfl

private theorem literal?_of_mem_words {l : CodeLabel} {w : Bytes} (h : w ∈ l.words) : literal? 32 w = none := by
  rcases mem_words.mp h with ⟨-, rfl⟩ | ⟨-, rfl⟩
  · exact literal?_public
  · exact literal?_external

section
variable {l : CodeLabel} {offset : Bytes} {parts : List Bytes}

private theorem mem_of_perm (perm : (parts.filter (!·.isEmpty)).Perm (offset :: l.words)) {p : Bytes}
    (nonempty : p ≠ .empty) : p ∈ parts ↔ p = offset ∨ p ∈ l.words := by
  have kept : p ∈ parts.filter (!·.isEmpty) ↔ p ∈ parts := by
    rw [List.mem_filter]
    exact and_iff_left (by simpa using mt Bytes.isEmpty_iff.mp nonempty)
  rw [← kept, perm.mem_iff, List.mem_cons]

/-- The offset is the only part that is a number. -/
private theorem filterMap_of_perm (perm : (parts.filter (!·.isEmpty)).Perm (offset :: l.words)) {n : Nat}
    (value : literal? 32 offset = some n) : parts.filterMap (literal? 32) = [n] := by
  have all : (parts.filter (!·.isEmpty)).filterMap (literal? 32) = parts.filterMap (literal? 32) := by
    rw [List.filterMap_filter]
    apply List.filterMap_congr
    intro p _
    by_cases empty : p = .empty
    · rw [empty, literal?_empty]
      rfl
    · exact if_pos (by simpa using mt Bytes.isEmpty_iff.mp empty)
  have none : l.words.filterMap (literal? 32) = [] :=
    List.filterMap_eq_nil_iff.mpr fun _ => literal?_of_mem_words
  have found := perm.filterMap (literal? 32)
  rwa [all, List.filterMap_cons_some value, none, List.perm_singleton] at found

/-- The parts that write a label say what it has. -/
theorem eq_of_gathers {l' : CodeLabel} (perm : (parts.filter (!·.isEmpty)).Perm (offset :: l.words))
    (value : literal? 32 offset = some l.offset.toNat) (h : Gathers { name := l.name } parts l') : l' = l := by
  obtain ⟨-, not_public, not_external⟩ := ne_of_literal? value
  have seen : l'.isPublic = l.isPublic := by
    rw [Bool.eq_iff_iff, h.isPublic, mem_of_perm perm public_ne_empty, or_iff_right not_public.symm,
      public_mem_words]
    exact or_iff_right Bool.false_ne_true
  have elsewhere : l'.isExternal = l.isExternal := by
    rw [Bool.eq_iff_iff, h.isExternal, mem_of_perm perm external_ne_empty, or_iff_right not_external.symm,
      external_mem_words]
    exact or_iff_right Bool.false_ne_true
  have placed : l'.offset = l.offset := by
    rw [h.offset, filterMap_of_perm perm value]
    exact UInt32.ofNat_toNat
  have named : l'.name = l.name := h.name
  cases l'
  simp_all

end

/-- A label is read from each of the texts that write it. -/
theorem readLabel_of_writes {l : CodeLabel} (h : WritesLabel text l) : readLabel text = .ok l := by
  obtain ⟨⟨named, free⟩, offset, parts, placed, perm, rfl⟩ := h
  have value := literal?_offset placed
  have known : ∀ p ∈ parts, LabelPart p := by
    intro p hp
    by_cases empty : p = .empty
    · exact .inl empty
    rcases (mem_of_perm perm empty).mp hp with rfl | word
    · exact .inr (.inr (.inr (isOffset_iff.mpr ⟨_, value⟩)))
    · rcases mem_words.mp word with ⟨-, rfl⟩ | ⟨-, rfl⟩
      · exact .inr (.inl rfl)
      · exact .inr (.inr (.inl rfl))
  have separated : Separated 58 (join ":" (l.name :: parts)) (l.name :: parts) :=
    separated_join (by simp) (List.forall_mem_cons.mpr ⟨free, fun p hp => (known p hp).free⟩)
  obtain ⟨l', gathered⟩ := (exists_foldlM_iff { name := l.name }).mpr known
  rw [readLabel_of_separated separated named, gathered, eq_of_gathers perm value (gathers_of_foldlM gathered)]

/-- The plainest way to write a label. -/
theorem writesLabel_decimal {l : CodeLabel} (h : Givable l.name) :
    WritesLabel (join ":" (l.name :: decimal l.offset.toNat :: l.words)) l := by
  have value := literal?_offset (literal_decimal l.offset.toNat)
  have all : ∀ p ∈ decimal l.offset.toNat :: l.words, p ≠ .empty := by
    refine List.forall_mem_cons.mpr (And.intro (ne_of_literal? value).1 ?_)
    intro w hw
    rcases mem_words.mp hw with ⟨-, rfl⟩ | ⟨-, rfl⟩
    · exact public_ne_empty
    · exact external_ne_empty
  have kept : (decimal l.offset.toNat :: l.words).filter (!·.isEmpty) = decimal l.offset.toNat :: l.words := by
    rw [List.filter_eq_self]
    intro p hp
    simpa using mt Bytes.isEmpty_iff.mp (all p hp)
  exact ⟨h, _, _, literal_decimal l.offset.toNat, .of_eq kept, rfl⟩

/-- Texts that write labels or fixups give just these in order, and a text adds one item or, where it is refused,
none. Everything with a name that can be given is written with a decimal offset, among other ways. -/
theorem flags_accumulate :
    Accumulates readLabel addLabel WritesLabel LabelText ∧
    Accumulates readFixup addFixup WritesFixup FixupText ∧
    (∀ l : CodeLabel, Givable l.name →
      WritesLabel (join ":" (l.name :: decimal l.offset.toNat :: l.words)) l) ∧
    (∀ f : CodeFixup, Givable f.symbol → f.bits = 0 → ∀ mode ∈ f.modes,
      WritesFixup (join ":" (f.symbol :: decimal f.offset.toNat :: mode)) f) := by
  refine ⟨?_, ?_, fun l => writesLabel_decimal, ?_⟩
  · exact accumulates_of_reads adds_label (fun _ _ => readLabel_of_writes) exists_readLabel_iff
  · exact accumulates_of_reads adds_fixup (fun _ _ => readFixup_of_writes) exists_readFixup_iff
  · intro f given bits mode known
    exact ⟨given, bits, _, mode, literal_decimal f.offset.toNat, known, rfl⟩

/-- Two labels, one of them with its parts in another order and empty ones between, and a fixup. -/
theorem flags_accumulate_reordered :
    ["main:16:public".toUTF8, "f::external:0x_1F:".toUTF8].foldlM addLabel [] =
      .ok [{ name := "main", offset := 16, isPublic := true }, { name := "f", offset := 31, isExternal := true }] ∧
    ["f:7:rel".toUTF8].foldlM addFixup [] = .ok [{ symbol := "f", offset := 7, isRelative := true }] := by
  obtain ⟨labels, fixups, label, fixup⟩ := flags_accumulate
  have givable_main : Givable "main" := by
    refine ⟨ne_empty_of_size (by decide), ?_⟩
    rw [toList_eq]
    decide
  have givable_f : Givable "f" := by
    refine ⟨ne_empty_of_size (by decide), ?_⟩
    rw [toList_eq]
    decide
  have main : WritesLabel "main:16:public" { name := "main", offset := 16, isPublic := true } :=
    label { name := "main", offset := 16, isPublic := true } givable_main
  have reordered : WritesLabel "f::external:0x_1F:" { name := "f", offset := 31, isExternal := true } := by
    have read : literal? 32 "0x_1F" = some 31 := by
      rw [literal?, toList_eq]
      rfl
    exact ⟨givable_f, "0x_1F", [.empty, "external", "0x_1F", .empty], (literal?_eq_some_iff.mp read).1,
      .swap _ _ _, rfl⟩
  have relative : WritesFixup "f:7:rel" { symbol := "f", offset := 7, isRelative := true } :=
    fixup { symbol := "f", offset := 7, isRelative := true } givable_f rfl _ (List.mem_singleton_self _)
  exact ⟨labels.collects [] _ _ (.cons main (.cons reordered .nil)), fixups.collects [] _ _ (.cons relative .nil)⟩

end Command

end CoffWorks
