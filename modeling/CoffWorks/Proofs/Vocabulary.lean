import CoffWorks.Proofs.Manifest.Loading
import CoffWorks.Proofs.Text.Keyword

namespace CoffWorks

open Text

/-- The parser has the same result for all variants of a text, or none for all of them. -/
def Text.Tolerates {α : Type} (parse : Bytes → Attempt α) : Prop :=
  ∀ a b, Variant a b → (parse b).toOption = (parse a).toOption

/-- A parser that looks at keywords only tolerates all variants. -/
theorem Text.tolerates_of_keyword {α : Type} {parse : Bytes → Attempt α}
    (h : ∀ a b, keyword a = keyword b → (parse a).toOption = (parse b).toOption) : Tolerates parse :=
  fun a b variant => h b a (keyword_of_variant variant)

private theorem toOption_knownOr {α : Type} (what text : Bytes) (r : Option α) :
    (knownOr what text r).toOption = r := by
  cases r <;> rfl

/-- The complaint about an unknown text has that text in it, but there is one for all of its variants. -/
theorem Text.tolerates_knownOr {α : Type} (what : Bytes) (read : Bytes → Option α) :
    Tolerates fun text => knownOr what text (read (keyword text)) := by
  apply tolerates_of_keyword
  intro a b same
  rw [toOption_knownOr, toOption_knownOr, same]

theorem Machine.tolerates : Tolerates parse :=
  tolerates_knownOr "machine" fun key => (Lexicon.read? (names ++ aliases) 16 UInt16.ofNat key).map mk

theorem StorageClass.tolerates : Tolerates parse :=
  tolerates_knownOr "storage class" fun key => (names.read? 8 UInt8.ofNat key).map mk

theorem BaseType.tolerates : Tolerates parse :=
  tolerates_knownOr "base type" fun key => (names.read? 8 UInt8.ofNat key).map mk

theorem ComplexType.tolerates : Tolerates parse :=
  tolerates_knownOr "complex type" fun key => (names.read? 8 UInt8.ofNat key).map mk

theorem FileFlags.tolerates : Tolerates parse :=
  tolerates_knownOr "file flag" fun key => (table.read? 16 UInt16.ofNat key).map mk

theorem RelocationType.tolerates (m : Machine) : Tolerates (parse m) := by
  apply tolerates_of_keyword
  intro a b same
  unfold parse
  rw [same]
  cases (names m).read? 16 UInt16.ofNat (keyword b) <;> rfl

/-- A bad alignment is not read as a number. -/
theorem SectionFlags.tolerates : Tolerates parse := by
  apply tolerates_of_keyword
  intro a b same
  simp only [parse, same]
  cases table.code? (keyword b) with
  | some bits => rfl
  | none =>
    dsimp only
    split_ifs
    · cases (decimal? 32 ((keyword b).drop 6)).map fun n => alignFlag (UInt32.ofNat n) with
      | none => rfl
      | some f =>
        dsimp only
        split_ifs <;> rfl
    · rw [toOption_knownOr, toOption_knownOr]

namespace Manifest

/-- What the description of a symbol says about its class and its type. -/
theorem Symbol.parse_of_ofObject {p : Pool} {s : CoffWorks.Symbol} {x : Symbol} (h : Symbol.ofObject p s = .ok x) :
    StorageClass.parse x.storageClass = .ok s.storageClass ∧
      ∀ t ∈ x.type, BaseType.parse t.base = .ok s.type.base ∧ ComplexType.parse t.complex = .ok s.type.complex := by
  obtain ⟨aux, -, made⟩ := Attempt.bind_eq_ok.mp h
  obtain rfl := Except.ok.inj made
  refine ⟨StorageClass.parse_spelling _, ?_⟩
  intro t ht
  simp only at ht
  split_ifs at ht with plain
  · cases ht
  · obtain rfl := Option.some.inj ht
    exact ⟨BaseType.parse_label _, ComplexType.parse_label _⟩

end Manifest

/-- Nothing is lost in the texts for codes and flag words, and nothing depends on the case of their letters or
the white space around them. -/
theorem vocabulary_lossless :
    ((∀ m : Machine, Machine.parse m.spelling = .ok m) ∧
      (∀ c : StorageClass, StorageClass.parse c.spelling = .ok c) ∧
      (∀ t : BaseType, BaseType.parse t.label = .ok t) ∧
      (∀ t : ComplexType, ComplexType.parse t.label = .ok t) ∧
      (∀ (p : Pool) (s : Symbol) (x : Manifest.Symbol), Manifest.Symbol.ofObject p s = .ok x →
        StorageClass.parse x.storageClass = .ok s.storageClass ∧ ∀ t ∈ x.type,
          BaseType.parse t.base = .ok s.type.base ∧ ComplexType.parse t.complex = .ok s.type.complex) ∧
      (∀ (m : Machine) (t : RelocationType), RelocationType.parse m (t.label m) = .ok t) ∧
      (∀ f : SectionFlags, Manifest.FlagsRead ⟨0⟩ SectionFlags.parse f.spelling f) ∧
      ∀ f : FileFlags, Manifest.FlagsRead ⟨0⟩ FileFlags.parse f.spelling f) ∧
    Tolerates Machine.parse ∧ Tolerates StorageClass.parse ∧ Tolerates BaseType.parse ∧
      Tolerates ComplexType.parse ∧ (∀ m, Tolerates (RelocationType.parse m)) ∧ Tolerates SectionFlags.parse ∧
      Tolerates FileFlags.parse := by
  refine ⟨⟨Machine.parse_spelling, StorageClass.parse_spelling, BaseType.parse_label, ComplexType.parse_label,
    fun _ _ _ => Manifest.Symbol.parse_of_ofObject, RelocationType.parse_label, ?_, ?_⟩, Machine.tolerates,
    StorageClass.tolerates, BaseType.tolerates, ComplexType.tolerates, RelocationType.tolerates,
    SectionFlags.tolerates, FileFlags.tolerates⟩
  · intro f
    exact Manifest.readFlags_eq_ok.mp (f.readFlags_spelling [])
  · intro f
    exact Manifest.readFlags_eq_ok.mp (f.readFlags_spelling [])

/-- Capitals, and an em space and a newline around the text. -/
theorem vocabulary_lossless_spaced : Variant "align_16" "\u2003ALIGN_16\n" ∧
    (SectionFlags.parse "\u2003ALIGN_16\n").toOption = some ⟨0x00500000⟩ := by
  have variant : Variant "align_16" "\u2003ALIGN_16\n" := by
    refine ⟨['\u2003'], "ALIGN_16".toUTF8, ['\n'], by simp [isBlank], ?_, by simp [isBlank], ?_⟩
    · rw [SameLetters]
      decide +kernel
    · decide +kernel
  have parsed : (SectionFlags.parse "align_16").toOption = some ⟨0x00500000⟩ := by decide +kernel
  exact ⟨variant, (vocabulary_lossless.2.2.2.2.2.2.1 _ _ variant).trans parsed⟩

end CoffWorks
