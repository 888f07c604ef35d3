import CoffWorks.Proofs.Text.Plain

namespace CoffWorks.Text

open Bytes String

/-- The texts are the same but for the case of ASCII letters. -/
def SameLetters (a b : Bytes) : Prop := a.data.toList.map lowerByte = b.data.toList.map lowerByte

/-- `b` is `a` with some ASCII letters changed in case, and with white space put around it. -/
def Variant (a b : Bytes) : Prop :=
  ∃ before core after, (∀ c ∈ before, isBlank c) ∧ SameLetters a core ∧ (∀ c ∈ after, isBlank c) ∧
    b = ofChars before ++ core ++ ofChars after

private theorem trimmed_append {before after : List Glyph} (hb : ∀ g ∈ before, g.isBlank) (ha : ∀ g ∈ after, g.isBlank)
    (gs : List Glyph) : trimmed (before ++ gs ++ after) = trimmed gs := by
  unfold trimmed
  rw [List.append_assoc, List.dropWhile_append_of_pos hb, List.dropWhile_append]
  split_ifs with none
  · have all : after.dropWhile Glyph.isBlank = [] := List.dropWhile_eq_nil_iff.mpr ha
    rw [all, List.isEmpty_iff.mp none]
  · have back : ∀ g ∈ after.reverse, g.isBlank := fun g hg => ha g (List.mem_reverse.mp hg)
    rw [List.reverse_append, List.dropWhile_append_of_pos back]

private theorem isBlank_of_mem_map {cs : List Char} (h : ∀ c ∈ cs, isBlank c) : ∀ g ∈ cs.map Glyph.char, g.isBlank := by
  intro g hg
  obtain ⟨c, hc, rfl⟩ := List.mem_map.mp hg
  exact h c hc

theorem keyword_ofChars_append {before after : List Char} (hb : ∀ c ∈ before, isBlank c)
    (ha : ∀ c ∈ after, isBlank c) (b : Bytes) : keyword (ofChars before ++ b ++ ofChars after) = keyword b := by
  rw [keyword, glyphs_ofChars_append, trimmed_append (isBlank_of_mem_map hb) (isBlank_of_mem_map ha)]
  rfl

/-- The glyph with an ASCII letter in lower case. -/
def Glyph.lower : Glyph → Glyph
  | .char c => .char c.toLower
  | .stray x => .stray x

private theorem lowerByte_of_le {x : UInt8} (h : 128 ≤ x.toNat) : lowerByte x = x := by
  apply if_neg
  rintro ⟨-, high⟩
  have capital : x.toNat ≤ 90 := UInt8.le_iff_toNat_le.mp high
  omega

private theorem lowerByte_of_le_lowerByte {x : UInt8} (h : 128 ≤ (lowerByte x).toNat) : lowerByte x = x := by
  have low : ∀ n < 128, (lowerByte (.ofNat n)).toNat < 128 := by decide
  apply lowerByte_of_le
  by_contra ascii
  have small := low x.toNat (Nat.not_le.mp ascii)
  rw [UInt8.ofNat_toNat] at small
  omega

/-- Every character is an ASCII character, or has no smaller octets than 128. -/
theorem char_cases (c : Char) : (∃ n < 128, c = Char.ofUInt8 (.ofNat n)) ∨
    127 < c.toNat ∧ ∀ x ∈ utf8EncodeChar c, 128 ≤ x.toNat := by
  by_cases ascii : ∃ x ∈ utf8EncodeChar c, x.toNat < 128
  · obtain ⟨x, mem, low⟩ := ascii
    refine .inl ⟨x.toNat, low, ?_⟩
    rw [UInt8.ofNat_toNat]
    exact eq_ofUInt8_of_mem mem low
  · have high : ∀ x ∈ utf8EncodeChar c, 128 ≤ x.toNat := fun x hx => Nat.not_lt.mp fun low => ascii ⟨x, hx, low⟩
    refine .inr ⟨?_, high⟩
    by_contra small
    -- then its only octet would be its number
    have size : c.utf8Size = 1 := Char.utf8Size_eq_one_iff.mpr (UInt32.le_iff_toNat_le.mpr (Nat.not_lt.mp small))
    have octet := high c.val.toUInt8 (by rw [utf8EncodeChar_eq_singleton size]; exact List.mem_singleton_self _)
    rw [UInt32.toNat_toUInt8] at octet
    have number : c.val.toNat = c.toNat := rfl
    omega

private theorem toLower_eq_self {c : Char} (h : 127 < c.toNat) : c.toLower = c := by
  apply dif_neg
  rintro ⟨-, capital⟩
  have low : c.toNat ≤ 90 := UInt32.le_iff_toNat_le.mp capital
  omega

theorem utf8EncodeChar_toLower (c : Char) : utf8EncodeChar c.toLower = (utf8EncodeChar c).map lowerByte := by
  rcases char_cases c with ⟨n, ascii, rfl⟩ | ⟨large, high⟩
  · revert n
    decide +kernel
  · rw [toLower_eq_self large, List.map_congr_left fun x hx => lowerByte_of_le (high x hx), List.map_id']

private theorem not_startsWithChar_lower {x : UInt8} {l : List UInt8} (h : ¬ StartsWithChar (x :: l)) :
    ¬ StartsWithChar (x :: l.map lowerByte) := by
  have high := le_of_not_startsWithChar h
  rintro ⟨c, rest, split⟩
  rcases char_cases c with ⟨n, ascii, rfl⟩ | ⟨-, octets⟩
  · have small : (UInt8.ofNat n).toNat = n := UInt8.toNat_ofNat_of_lt' (Nat.lt_trans ascii (by decide))
    rw [utf8EncodeChar_ofUInt8 (by omega)] at split
    obtain rfl : x = .ofNat n := (List.cons.inj split).1
    omega
  · -- the octets of a character are above the letters, so that they were there before
    cases encoded : utf8EncodeChar c with
    | nil => exact absurd (congrArg List.length encoded) (by simp [Nat.ne_of_gt c.utf8Size_pos])
    | cons y t =>
      rw [encoded] at split octets
      obtain ⟨rfl, tail⟩ := List.cons.inj split
      obtain ⟨front, back, rfl, lower, -⟩ := List.map_eq_append_iff.mp tail
      have same : front.map lowerByte = front := by
        rw [List.map_congr_left (g := id) fun y hy => ?_, List.map_id]
        apply lowerByte_of_le_lowerByte
        exact octets _ (List.mem_cons_of_mem _ (lower ▸ List.mem_map_of_mem hy))
      exact h ⟨c, back, by rw [encoded, ← lower, same, List.cons_append]⟩

/-- A text in lower case is read as the same glyphs in lower case. -/
theorem Reads.lower {l : List UInt8} {gs : List Glyph} (h : Reads l gs) :
    Reads (l.map lowerByte) (gs.map Glyph.lower) := by
  induction h with
  | nil => exact .nil
  | char c rest ih =>
    rw [List.map_append, ← utf8EncodeChar_toLower]
    exact .char c.toLower ih
  | stray none rest ih =>
    rw [List.map_cons, lowerByte_of_le (le_of_not_startsWithChar none)]
    exact .stray (not_startsWithChar_lower none) ih

/-- What does not tell ASCII letters by their case does not tell any glyph from the one in lower case. -/
theorem eq_lower_of_ascii {α : Type} {f : Glyph → α}
    (h : ∀ n < 128, f (Glyph.char (.ofUInt8 (.ofNat n))).lower = f (.char (.ofUInt8 (.ofNat n)))) (g : Glyph) :
    f g.lower = f g := by
  cases g with
  | char c =>
    rcases char_cases c with ⟨n, ascii, rfl⟩ | ⟨large, -⟩
    · exact h n ascii
    · rw [Glyph.lower, toLower_eq_self large]
  | stray x => rfl

theorem isBlank_lower (g : Glyph) : g.lower.isBlank = g.isBlank := eq_lower_of_ascii (by decide +kernel) g

theorem lowerKey_lower (g : Glyph) : g.lower.lowerKey = g.lowerKey := eq_lower_of_ascii (by decide +kernel) g

private theorem trimmed_map_lower (gs : List Glyph) : trimmed (gs.map Glyph.lower) = (trimmed gs).map Glyph.lower := by
  have blank : Glyph.isBlank ∘ Glyph.lower = Glyph.isBlank := funext isBlank_lower
  simp only [trimmed, List.dropWhile_map, ← List.map_reverse, blank]

theorem keyword_of_sameLetters {a b : Bytes} (h : SameLetters a b) : keyword a = keyword b := by
  have lower (b : Bytes) : keyword b = ofGlyphs ((trimmed ((glyphs b).map Glyph.lower)).map Glyph.lowerKey) := by
    have key : Glyph.lowerKey ∘ Glyph.lower = Glyph.lowerKey := funext lowerKey_lower
    rw [trimmed_map_lower, List.map_map, key]
    rfl
  have first := (reads_glyphs a).lower
  rw [h] at first
  rw [lower a, lower b, first.unique (reads_glyphs b).lower]

/-- All variants of a text are the same keyword. -/
theorem keyword_of_variant {a b : Bytes} (h : Variant a b) : keyword b = keyword a := by
  obtain ⟨before, core, after, hb, same, ha, rfl⟩ := h
  rw [keyword_ofChars_append hb ha, keyword_of_sameLetters same]

end CoffWorks.Text
