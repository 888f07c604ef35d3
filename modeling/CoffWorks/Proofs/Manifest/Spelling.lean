import CoffWorks.Proofs.Manifest.Parts
import CoffWorks.Proofs.Text.Numeral
import CoffWorks.Manifest.OfObject

namespace CoffWorks

open Text

/-- The first octet of a text, zero if it is empty. -/
abbrev Text.initial (b : Bytes) : UInt8 := b.byteAt 0

private theorem Text.initial_hex (w n : Nat) : initial ("0x" ++ hex w n) = 48 :=
  Bytes.byteAt_append_left "0x" (hex w n) 0 (by decide +kernel)

private theorem Text.isDigit_initial_decimal (n : Nat) : IsDigit (initial (decimal n)) := by
  cases h : digits n with
  | nil => simp [digits] at h
  | cons d rest =>
    rw [decimal_eq, h, Bytes.toByteArray_cons, initial, Bytes.byteAt_octet]
    exact isDigit_of_mem_digits (n := n) (h ▸ List.mem_cons_self)

private theorem Text.initial_extract {b : Bytes} {n : Nat} (h : 0 < n) : initial (b.extract 0 n) = initial b := by
  unfold initial Bytes.byteAt
  by_cases inside : 0 < b.size
  · rw [dif_pos inside, dif_pos (by rw [ByteArray.size_extract]; omega), ByteArray.getElem_extract]
  · rw [dif_neg inside, dif_neg (by rw [ByteArray.size_extract]; omega)]

private theorem Text.initial_of_startsWith {b start : Bytes} (h : b.startsWith start) (hs : 0 < start.size) :
    initial b = initial start := by
  rw [Bytes.startsWith_iff, Bytes.take, Bytes.slice_eq_extract, Nat.zero_add] at h
  rw [← initial_extract hs, h]

namespace Lexicon

variable {α : Type} {l m : Lexicon α} {P : UInt8 → Prop}

/-- Every name of `l` is a plain text and stands for the same code in `m`, and no name of `m` starts
with one of some octets. -/
structure Sound (P : UInt8 → Prop) (l m : Lexicon α) : Prop where
  within : ∀ e ∈ l, Plain e.1.toUTF8 ∧ m.code? e.1.toUTF8 = some e.2
  initial : ∀ e ∈ m, ¬ P (initial e.1.toUTF8)

instance [DecidableEq α] [DecidablePred P] : Decidable (Sound P l m) :=
  decidable_of_iff (_ ∧ _) ⟨fun h => ⟨h.1, h.2⟩, fun h => ⟨h.within, h.initial⟩⟩

/-- A text that starts as no name does. -/
theorem Sound.code?_eq_none (h : Sound P l m) {key : Bytes} (hk : P (Text.initial key)) : m.code? key = none := by
  have absent : m.find? (fun e => e.1.toUTF8 == key) = none := by
    rw [List.find?_eq_none]
    intro e he same
    rw [Bytes.beq_iff] at same
    exact h.initial e he (same ▸ hk)
  rw [code?, absent, Option.map_none]

variable [DecidableEq α]

theorem Sound.code?_of_name? (h : Sound P l m) {a : α} {name : Bytes} (hn : l.name? a = some name) :
    Plain name ∧ m.code? name = some a := by
  obtain ⟨e, found, rfl⟩ := Option.map_eq_some_iff.mp hn
  have code : e.2 = a := by simpa using List.find?_some found
  rw [← code]
  exact h.within e (List.mem_of_find?_eq_some found)

/-- A name is read as its code, and so is the number of a code that has none. -/
theorem Sound.read?_spelling (h : Sound P l m) {bits n : Nat} (ofNat : Nat → α) {number : Bytes}
    (plain : Plain number) (hn : P (Text.initial number)) (value : literal? bits number = some n) :
    m.read? bits ofNat (keyword ((l.name? (ofNat n)).getD number)) = some (ofNat n) := by
  cases hl : l.name? (ofNat n) with
  | none => rw [Option.getD_none, plain.keyword_eq, read?, h.code?_eq_none hn, value, Option.map_some]
  | some name =>
    obtain ⟨plain', code⟩ := h.code?_of_name? hl
    rw [Option.getD_some, plain'.keyword_eq, read?, code]

omit [DecidableEq α] in
/-- Nothing is read from an empty text. -/
theorem Sound.read?_empty (h : Sound P l m) (h0 : P (Text.initial .empty)) (bits : Nat) (ofNat : Nat → α) :
    m.read? bits ofNat (keyword .empty) = none := by
  have plain : Plain .empty := fun x hx => by cases hx
  have value : literal? bits .empty = none := by
    rw [literal?, Bytes.toList_eq]
    rfl
  rw [plain.keyword_eq, read?, h.code?_eq_none h0, value, Option.map_none]

/-- Codes of 16 bits have their numbers in hexadecimal. -/
theorem Sound.read?_spelling16 {l m : Lexicon UInt16} (h : Sound (· = 48) l m) (a : UInt16) :
    m.read? 16 UInt16.ofNat (keyword ((l.name? a).getD ("0x" ++ hex 4 a.toNat))) = some a := by
  have small : a.toNat < 1 <<< 16 := a.toNat_lt
  have read := h.read?_spelling UInt16.ofNat (plain_hex 4 a.toNat) (initial_hex 4 a.toNat)
    (literal?_hex small)
  rwa [UInt16.ofNat_toNat] at read

/-- Codes of 8 bits have their numbers in decimal. -/
theorem Sound.read?_spelling8 {l : Lexicon UInt8} (h : Sound (fun x => x = 0 ∨ IsDigit x) l l) (a : UInt8) :
    l.read? 8 UInt8.ofNat (keyword ((l.name? a).getD (decimal a.toNat))) = some a := by
  have small : a.toNat < 1 <<< 8 := a.toNat_lt
  have read := h.read?_spelling UInt8.ofNat (plain_decimal a.toNat)
    (.inr (isDigit_initial_decimal a.toNat)) (literal?_decimal small)
  rwa [UInt8.ofNat_toNat] at read

/-- All tables of names are sound. Numbers start with a digit, in hexadecimal with a zero, and alignments
with the letter `a`. -/
theorem tables_sound :
    (Sound (· = 48) Machine.names (Machine.names ++ Machine.aliases) ∧
      Sound (· = 48) FileFlags.table FileFlags.table ∧
      ∀ l ∈ [[], RelocationType.i386Names, RelocationType.amd64Names, RelocationType.armNames,
        RelocationType.arm64Names], Sound (· = 48) l l) ∧
    Sound (fun x => x = 48 ∨ x = 97) SectionFlags.table SectionFlags.table ∧
    ∀ l ∈ [StorageClass.names, BaseType.names, ComplexType.names],
      Sound (fun x => x = 0 ∨ IsDigit x) l l := by decide +kernel

end Lexicon

theorem Machine.parse_spelling (m : Machine) : parse m.spelling = .ok m := by
  rw [parse, spelling, name?, Lexicon.tables_sound.1.1.read?_spelling16]
  rfl

/-- Every type of relocation is read back from its label, whatever machine it is for. -/
theorem RelocationType.parse_label (m : Machine) (t : RelocationType) : parse m (t.label m) = .ok t := by
  have sound : Lexicon.Sound (· = 48) (names m) (names m) := by
    apply Lexicon.tables_sound.1.2.2
    unfold names
    split_ifs <;> simp
  rw [parse, label, sound.read?_spelling16]

namespace StorageClass

theorem names_sound : Lexicon.Sound (fun x => x = 0 ∨ IsDigit x) names names :=
  Lexicon.tables_sound.2.2 names (by simp)

theorem parse_spelling (c : StorageClass) : parse c.spelling = .ok c := by
  rw [parse, spelling, name?, names_sound.read?_spelling8]
  rfl

/-- An empty text spells nothing, so that it can stand for a default. -/
theorem parse_empty (c : StorageClass) : parse .empty ≠ .ok c := by
  rw [parse, names_sound.read?_empty (.inl rfl)]
  rintro ⟨⟩

end StorageClass

namespace BaseType

theorem names_sound : Lexicon.Sound (fun x => x = 0 ∨ IsDigit x) names names :=
  Lexicon.tables_sound.2.2 names (by simp)

theorem parse_label (t : BaseType) : parse t.label = .ok t := by
  rw [parse, label, names_sound.read?_spelling8]
  rfl

theorem parse_empty (t : BaseType) : parse .empty ≠ .ok t := by
  rw [parse, names_sound.read?_empty (.inl rfl)]
  rintro ⟨⟩

end BaseType

namespace ComplexType

theorem names_sound : Lexicon.Sound (fun x => x = 0 ∨ IsDigit x) names names :=
  Lexicon.tables_sound.2.2 names (by simp)

theorem parse_label (t : ComplexType) : parse t.label = .ok t := by
  rw [parse, label, names_sound.read?_spelling8]
  rfl

theorem parse_empty (t : ComplexType) : parse .empty ≠ .ok t := by
  rw [parse, names_sound.read?_empty (.inl rfl)]
  rintro ⟨⟩

end ComplexType

section Words

variable {α : Type} [OrOp α]

/-- The last word may be left out if it is zero. -/
private theorem foldl_or_rest [Zero α] [DecidableEq α] (or_zero : ∀ a : α, a ||| 0 = a) {bits a r : α} {l : List α}
    (h : l.foldl (· ||| ·) a ||| r = bits) : (l ++ if r = 0 then [] else [r]).foldl (· ||| ·) a = bits := by
  rw [List.foldl_append, ← h]
  split_ifs with none
  · rw [none, or_zero, List.foldl_nil]
  · rw [List.foldl_cons, List.foldl_nil]

variable [AndOp α] [Complement α]

/-- Taking flags out of a word, with the flags taken out so far kept apart, loses nothing. -/
private theorem foldl_or_foldl_clear (split : ∀ a b e : α, (a ||| e) ||| (b &&& ~~~e) = (a ||| b) ||| e) {bits a b : α}
    {l : List α} (h : ∀ e ∈ l, bits ||| e = bits) (hab : a ||| b = bits) :
    l.foldl (· ||| ·) a ||| l.foldl (fun b e => b &&& ~~~e) b = bits := by
  induction l generalizing a b with
  | nil => exact hab
  | cons e rest ih =>
    apply ih fun x hx => h x (List.mem_cons_of_mem e hx)
    rw [split, hab, h e List.mem_cons_self]

end Words

private theorem bitVec_or_of_and_eq {n : Nat} {a e : BitVec n} (h : a &&& e = e) : a ||| e = a := by
  rw [← h]
  ext i
  simp +contextual

private theorem bitVec_split_or {n : Nat} (a b e : BitVec n) : (a ||| e) ||| (b &&& ~~~e) = (a ||| b) ||| e := by
  ext i
  simp only [BitVec.getElem_or, BitVec.getElem_and, BitVec.getElem_not]
  cases a[i] <;> cases b[i] <;> cases e[i] <;> rfl

namespace Manifest

theorem readFlags_of_parse {α : Type} [OrOp α] {zero : α} {path : List Bytes} {parse : Bytes → Attempt α}
    {texts : List Bytes} {flags : List α} (h : List.Forall₂ (fun text f => parse text = .ok f) texts flags) :
    readFlags zero path parse texts = .ok (flags.foldl (· ||| ·) zero) := by
  induction h generalizing zero with
  | nil => rfl
  | cons head _ ih =>
    rw [readFlags, List.foldlM_cons, readAt_eq_ok.mpr head]
    exact ih

end Manifest

namespace FileFlags

theorem table_sound : Lexicon.Sound (· = 48) table table := Lexicon.tables_sound.1.2.1

theorem parse_name {e : String × UInt16} (h : e ∈ table) : parse e.1.toUTF8 = .ok ⟨e.2⟩ := by
  obtain ⟨plain, code⟩ := table_sound.within e h
  rw [parse, plain.keyword_eq, Lexicon.read?, code]
  rfl

theorem parse_number (v : UInt16) : parse ("0x" ++ hex 4 v.toNat) = .ok ⟨v⟩ := by
  have small : v.toNat < 1 <<< 16 := v.toNat_lt
  rw [parse, (plain_hex 4 v.toNat).keyword_eq, Lexicon.read?, table_sound.code?_eq_none (initial_hex 4 v.toNat),
    literal?_hex small, Option.map_some, UInt16.ofNat_toNat]
  rfl

theorem foldl_or_mk (l : List UInt16) (a : UInt16) :
    (l.map FileFlags.mk).foldl (· ||| ·) ⟨a⟩ = ⟨l.foldl (· ||| ·) a⟩ := by
  rw [List.foldl_map]
  exact List.foldl_hom FileFlags.mk fun _ _ => rfl

theorem or_of_and_eq {a e : UInt16} (h : a &&& e = e) : a ||| e = a :=
  UInt16.toBitVec_inj.mp (bitVec_or_of_and_eq (congrArg UInt16.toBitVec h))

theorem split_or (a b e : UInt16) : (a ||| e) ||| (b &&& ~~~e) = (a ||| b) ||| e :=
  UInt16.toBitVec_inj.mp (bitVec_split_or _ _ _)

/-- The names and the number make up all flags. -/
theorem readFlags_spelling (f : FileFlags) (path : List Bytes) :
    Manifest.readFlags ⟨0⟩ path parse f.spelling = .ok f := by
  let named := table.filter fun e => f.bits &&& e.2 = e.2
  have parsed : List.Forall₂ (fun text g => parse text = .ok g) f.spelling
      ((named.map (·.2) ++ if f.unnamed = 0 then [] else [f.unnamed]).map FileFlags.mk) := by
    rw [spelling, List.map_append]
    apply List.rel_append
    · rw [names, List.map_map]
      exact forall₂_map_same fun e he => parse_name (List.mem_of_mem_filter he)
    · split_ifs
      · exact .nil
      · exact .cons (parse_number f.unnamed) .nil
  have set : ∀ e ∈ named.map (·.2), f.bits ||| e = f.bits := by
    intro e he
    obtain ⟨entry, mem, rfl⟩ := List.mem_map.mp he
    exact or_of_and_eq (of_decide_eq_true (List.mem_filter.mp mem).2)
  have all : (named.map (·.2)).foldl (· ||| ·) 0 ||| f.unnamed = f.bits := by
    -- at the start no flag is taken out, so that the rest is the whole word
    rw [unnamed, ← List.foldl_map (g := fun b e => b &&& ~~~e)]
    exact foldl_or_foldl_clear split_or set UInt16.zero_or
  rw [Manifest.readFlags_of_parse parsed, foldl_or_mk, foldl_or_rest (fun _ => UInt16.or_zero) all]

end FileFlags

namespace SectionFlags

theorem table_sound : Lexicon.Sound (fun x => x = 48 ∨ x = 97) table table := Lexicon.tables_sound.2.1

theorem parse_name {e : String × UInt32} (h : e ∈ table) : parse e.1.toUTF8 = .ok ⟨e.2⟩ := by
  obtain ⟨plain, code⟩ := table_sound.within e h
  simp only [parse, plain.keyword_eq, code]

theorem parse_number (v : UInt32) : parse ("0x" ++ hex 8 v.toNat) = .ok ⟨v⟩ := by
  have small : v.toNat < 1 <<< 32 := v.toNat_lt
  have first := initial_hex 8 v.toNat
  have other : ¬ Bytes.startsWith ("0x" ++ hex 8 v.toNat) "align_" := by
    intro starts
    rw [initial_of_startsWith starts (by decide +kernel)] at first
    exact absurd first (by decide +kernel)
  simp only [parse, (plain_hex 8 v.toNat).keyword_eq, table_sound.code?_eq_none (.inl first), other,
    literal?_hex small, Option.map_some, UInt32.ofNat_toNat]
  rfl

theorem parse_alignment {k : Nat} (h : k < 14) : parse ("align_" ++ decimal (1 <<< k)) = .ok (alignedTo k) := by
  have plain : Plain ("align_" ++ decimal (1 <<< k)) := (show Plain "align_" by decide +kernel).append (plain_decimal _)
  have first : initial ("align_" ++ decimal (1 <<< k)) = 97 :=
    Bytes.byteAt_append_left "align_" (decimal (1 <<< k)) 0 (by decide +kernel)
  have table : ∀ k < 14, 1 <<< k < 1 <<< 32 ∧ alignFlag (.ofNat (1 <<< k)) = alignedTo k ∧
      (alignedTo k).bits ≠ 0 := by decide +kernel
  obtain ⟨small, flag, nonzero⟩ := table k h
  have digits : Bytes.drop ("align_" ++ decimal (1 <<< k)) 6 = decimal (1 <<< k) :=
    Bytes.drop_append "align_" (decimal (1 <<< k))
  simp only [parse, plain.keyword_eq, table_sound.code?_eq_none (.inr first), Bytes.startsWith_append, if_true, digits,
    decimal?_decimal small, Option.map_some, flag, if_neg nonzero]

private theorem shift_alignmentMask (v : UInt32) : ((v &&& alignmentMask) >>> 20) <<< 20 = v &&& alignmentMask := by
  have whole : 2 ^ 20 ∣ v.toNat &&& alignmentMask.toNat := by
    apply Nat.dvd_of_mod_eq_zero
    rw [Nat.and_mod_two_pow]
    simp [alignmentMask]
  have le : v.toNat &&& alignmentMask.toNat ≤ alignmentMask.toNat := Nat.and_le_right
  obtain ⟨k, hk⟩ := whole
  have small : alignmentMask.toNat < 2 ^ 32 := by decide
  have twenty : (20 : UInt32).toNat % 32 = 20 := rfl
  apply UInt32.toNat_inj.mp
  rw [UInt32.toNat_shiftLeft, UInt32.toNat_shiftRight, UInt32.toNat_and, twenty, hk, Nat.shiftRight_eq_div_pow,
    Nat.shiftLeft_eq, Nat.mul_div_cancel_left k (by decide), Nat.mul_comm k, ← hk]
  exact Nat.mod_eq_of_lt (by omega)

/-- The alignment is one of fourteen powers of two, or there is none. -/
theorem alignment_cases (f : SectionFlags) : f.alignment = 0 ∨
    ∃ k < 14, f.alignment = 1 <<< k ∧ alignedTo k = ⟨f.bits &&& alignmentMask⟩ := by
  let v := ((f.bits &&& alignmentMask) >>> 20).toNat
  by_cases none : v = 0 ∨ v > 14
  · exact .inl (if_pos none)
  · refine .inr ⟨v - 1, by omega, if_neg none, ?_⟩
    rw [alignedTo, Nat.sub_add_cancel (by omega), UInt32.ofNat_toNat, shift_alignmentMask]

theorem foldl_or_mk (l : List UInt32) (a : UInt32) :
    (l.map SectionFlags.mk).foldl (· ||| ·) ⟨a⟩ = ⟨l.foldl (· ||| ·) a⟩ := by
  rw [List.foldl_map]
  exact List.foldl_hom SectionFlags.mk fun _ _ => rfl

theorem or_of_and_eq {a e m : UInt32} (h : (a &&& ~~~m) &&& e = e) : a ||| e = a := by
  have inside : a &&& e = e := by
    rw [← h, UInt32.and_assoc, ← UInt32.and_assoc a a, UInt32.and_self]
  exact UInt32.toBitVec_inj.mp (bitVec_or_of_and_eq (congrArg UInt32.toBitVec inside))

theorem split_or (a b e : UInt32) : (a ||| e) ||| (b &&& ~~~e) = (a ||| b) ||| e :=
  UInt32.toBitVec_inj.mp (bitVec_split_or _ _ _)

private theorem merge_or (a b m : UInt32) : (a ||| ((a ||| b) &&& m)) ||| (b &&& ~~~m) = a ||| b := by
  apply UInt32.toBitVec_inj.mp
  ext i
  simp only [UInt32.toBitVec_or, UInt32.toBitVec_and, UInt32.toBitVec_not, BitVec.getElem_or,
    BitVec.getElem_and, BitVec.getElem_not]
  cases a.toBitVec[i] <;> cases b.toBitVec[i] <;> cases m.toBitVec[i] <;> rfl

/-- The names, the alignment and the number make up all flags. An alignment field without a meaning is
part of the number. -/
theorem readFlags_spelling (f : SectionFlags) (path : List Bytes) :
    Manifest.readFlags ⟨0⟩ path parse f.spelling = .ok f := by
  let named := table.filter fun e => (f.bits &&& ~~~alignmentMask) &&& e.2 = e.2
  let aligned := if f.alignment = 0 then [] else [f.bits &&& alignmentMask]
  have parsed : List.Forall₂ (fun text g => parse text = .ok g) f.spelling
      (((named.map (·.2) ++ aligned) ++ if f.unnamed = 0 then [] else [f.unnamed]).map SectionFlags.mk) := by
    rw [spelling, List.map_append]
    apply List.rel_append
    · rw [names, List.map_append]
      apply List.rel_append
      · rw [List.map_map]
        exact forall₂_map_same fun e he => parse_name (List.mem_of_mem_filter he)
      · simp only [aligned]
        rcases f.alignment_cases with none | ⟨k, small, alignment, bits⟩
        · simp only [none, if_true]
          exact .nil
        · rw [alignment, if_neg (by simp), if_neg (by simp)]
          exact .cons (bits ▸ parse_alignment small) .nil
    · split_ifs
      · exact .nil
      · exact .cons (parse_number f.unnamed) .nil
  have set : ∀ e ∈ named.map (·.2), f.bits ||| e = f.bits := by
    intro e he
    obtain ⟨entry, mem, rfl⟩ := List.mem_map.mp he
    exact or_of_and_eq (of_decide_eq_true (List.mem_filter.mp mem).2)
  have all : (named.map (·.2) ++ aligned).foldl (· ||| ·) 0 ||| f.unnamed = f.bits := by
    have rest := foldl_or_foldl_clear split_or set UInt32.zero_or
    rw [List.foldl_map (g := fun b e => b &&& ~~~e)] at rest
    simp only [unnamed, aligned]
    split_ifs with none
    · rwa [List.append_nil]
    · have merged := merge_or ((named.map (·.2)).foldl (· ||| ·) 0)
        (named.foldl (fun b e => b &&& ~~~e.2) f.bits) alignmentMask
      rw [rest] at merged
      rw [List.foldl_append]
      exact merged
  rw [Manifest.readFlags_of_parse parsed, foldl_or_mk, foldl_or_rest (fun _ => UInt32.or_zero) all]

end SectionFlags

end CoffWorks
