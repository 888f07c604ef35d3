import CoffWorks.Proofs.Bytes.Append
import CoffWorks.Text.Glyph

namespace CoffWorks

namespace Bytes

theorem toByteArray_cons (x : UInt8) (l : List UInt8) :
    (x :: l).toByteArray = ofOctet x ++ l.toByteArray := by
  rw [← List.singleton_append, List.toByteArray_append]
  rfl

theorem toByteArray_toList (b : Bytes) : b.data.toList.toByteArray = b := by
  apply ByteArray.ext
  rw [List.data_toByteArray, Array.toArray_toList]

theorem foldl_push (l : List UInt8) (b : Bytes) : l.foldl ByteArray.push b = b ++ l.toByteArray := by
  induction l generalizing b with
  | nil => exact ByteArray.append_empty.symm
  | cons x rest ih => rw [List.foldl_cons, ih, push_eq_append, toByteArray_cons, ByteArray.append_assoc]

end Bytes

namespace Text

open Bytes String

/-- The encoding of a character stands at the start. -/
def StartsWithChar (l : List UInt8) : Prop := ∃ c rest, l = utf8EncodeChar c ++ rest

/-- The octets are those of the glyphs, which are characters as far as possible. -/
inductive Reads : List UInt8 → List Glyph → Prop where
  | nil : Reads [] []
  | char (c : Char) {l : List UInt8} {gs : List Glyph} (rest : Reads l gs) :
      Reads (utf8EncodeChar c ++ l) (.char c :: gs)
  | stray {x : UInt8} {l : List UInt8} {gs : List Glyph} (none : ¬ StartsWithChar (x :: l)) (rest : Reads l gs) :
      Reads (x :: l) (.stray x :: gs)

/-- Whatever the octets are, they are those of some glyphs. -/
theorem exists_reads (l : List UInt8) : ∃ gs, Reads l gs := by
  induction length : l.length using Nat.strong_induction_on generalizing l with
  | _ n ih =>
    cases l with
    | nil => exact ⟨[], .nil⟩
    | cons x rest =>
      by_cases start : StartsWithChar (x :: rest)
      · obtain ⟨c, after, split⟩ := start
        have shorter : after.length < n := by
          have pos := c.utf8Size_pos
          rw [split, List.length_append, length_utf8EncodeChar] at length
          omega
        obtain ⟨gs, reads⟩ := ih _ shorter after rfl
        exact ⟨.char c :: gs, split ▸ .char c reads⟩
      · obtain ⟨gs, reads⟩ := ih rest.length (by rw [← length, List.length_cons]; omega) rest rfl
        exact ⟨.stray x :: gs, .stray start reads⟩

theorem utf8EncodeChar_ofUInt8 {x : UInt8} (h : x.toNat < 128) : utf8EncodeChar (Char.ofUInt8 x) = [x] := by
  have all : ∀ n < 128, utf8EncodeChar (Char.ofUInt8 (.ofNat n)) = [.ofNat n] := by decide +kernel
  have here := all x.toNat h
  rwa [UInt8.ofNat_toNat] at here

private theorem char_eq_of_append_eq {c d : Char} {l m : List UInt8}
    (h : utf8EncodeChar c ++ l = utf8EncodeChar d ++ m) :
    c = d := by
  have decoded := ByteArray.utf8DecodeChar?_utf8EncodeChar_append (b := l.toByteArray) (c := c)
  rw [← List.toByteArray_append, h, List.toByteArray_append,
    ByteArray.utf8DecodeChar?_utf8EncodeChar_append] at decoded
  exact (Option.some.inj decoded).symm

/-- No octet below 128 is part of the encoding of another character. -/
theorem eq_ofUInt8_of_mem {c : Char} {x : UInt8} (h : x ∈ utf8EncodeChar c) (hx : x.toNat < 128) :
    c = Char.ofUInt8 x := by
  have all : ∀ n < 128, UInt8.ofNat n &&& 0x80 = 0 := by decide
  have first : x.IsUTF8FirstByte := by
    have high := all x.toNat hx
    rw [UInt8.ofNat_toNat] at high
    exact .inl high
  obtain ⟨i, inside, octet⟩ := List.getElem_of_mem h
  obtain rfl : i = 0 := by rwa [← octet, UInt8.isUTF8FirstByte_getElem_utf8EncodeChar] at first
  apply char_eq_of_append_eq (l := []) (m := (utf8EncodeChar c).drop 1)
  rw [utf8EncodeChar_ofUInt8 hx, List.append_nil, List.singleton_append, ← octet, ← List.drop_eq_getElem_cons inside,
    List.drop_zero]

/-- An octet below 128 is never stray. -/
theorem le_of_not_startsWithChar {x : UInt8} {l : List UInt8} (h : ¬ StartsWithChar (x :: l)) : 128 ≤ x.toNat := by
  by_contra low
  exact h ⟨Char.ofUInt8 x, l, by rw [utf8EncodeChar_ofUInt8 (Nat.not_le.mp low), List.singleton_append]⟩

private theorem utf8DecodeChar?_append (a b : Bytes) : (a ++ b).utf8DecodeChar? a.size = b.utf8DecodeChar? 0 := by
  have rest : (a ++ b).extract a.size (a ++ b).size = b :=
    ByteArray.extract_append_eq_right rfl ByteArray.size_append
  rw [ByteArray.utf8DecodeChar?_eq_utf8DecodeChar?_extract, rest]

private theorem utf8DecodeChar?_eq_none {l : List UInt8} (h : ¬ StartsWithChar l) :
    ByteArray.utf8DecodeChar? l.toByteArray 0 = none := by
  by_contra found
  obtain ⟨c, decoded⟩ := Option.ne_none_iff_exists'.mp found
  obtain ⟨rest, split⟩ := ByteArray.exists_of_utf8DecodeChar?_eq_some decoded
  rw [← toByteArray_toList rest, ← List.toByteArray_append] at split
  have octets := congrArg (·.data.toList) split
  simp only [List.data_toByteArray] at octets
  exact h ⟨c, _, octets⟩

private theorem glyphAt?_char (a : Bytes) (c : Char) (l : List UInt8) :
    glyphAt? (a ++ (utf8EncodeChar c ++ l).toByteArray) a.size = some (.char c) := by
  have inside : a.size < (a ++ (utf8EncodeChar c ++ l).toByteArray).size := by
    have pos := c.utf8Size_pos
    simp
    omega
  have decoded : (a ++ (utf8EncodeChar c ++ l).toByteArray).utf8DecodeChar? a.size = some c := by
    rw [utf8DecodeChar?_append, List.toByteArray_append, ByteArray.utf8DecodeChar?_utf8EncodeChar_append]
  rw [glyphAt?, dif_pos inside, decoded]

private theorem glyphAt?_stray (a : Bytes) {x : UInt8} {l : List UInt8} (none : ¬ StartsWithChar (x :: l)) :
    glyphAt? (a ++ (x :: l).toByteArray) a.size = some (.stray x) := by
  have inside : a.size < (a ++ (x :: l).toByteArray).size := by simp
  have octet : (a ++ (x :: l).toByteArray)[a.size] = x := by
    have here := (byteAt_append a (x :: l).toByteArray 0).trans (by rw [toByteArray_cons, byteAt_octet])
    rwa [Nat.add_zero, byteAt, dif_pos inside] at here
  rw [glyphAt?, dif_pos inside, utf8DecodeChar?_append, utf8DecodeChar?_eq_none none, octet]

private theorem foldGlyphsFrom_step {α : Type} (f : α → Glyph → α) (acc : α) {b : Bytes} {pos : Nat} {g : Glyph}
    (h : glyphAt? b pos = some g) : foldGlyphsFrom b f pos acc = foldGlyphsFrom b f (pos + g.width) (f acc g) := by
  have inside : pos < b.size := by
    by_contra outside
    rw [glyphAt?, dif_neg outside] at h
    cases h
  rw [foldGlyphsFrom, if_pos inside, h]

/-- The glyphs are gone through one by one, by induction on how they are read. -/
theorem foldGlyphsFrom_of_reads {α : Type} (f : α → Glyph → α) {l : List UInt8} {gs : List Glyph} (h : Reads l gs)
    (a : Bytes) (acc : α) : foldGlyphsFrom (a ++ l.toByteArray) f a.size acc = gs.foldl f acc := by
  induction h generalizing a acc with
  | nil =>
    rw [foldGlyphsFrom, if_neg (by simp)]
    rfl
  | @char c l gs rest ih =>
    have next := ih (a ++ (utf8EncodeChar c).toByteArray) (f acc (.char c))
    rw [foldGlyphsFrom_step f acc (glyphAt?_char a c l), List.toByteArray_append, ← ByteArray.append_assoc]
    simpa [Glyph.width] using next
  | @stray x l gs none rest ih =>
    have next := ih (a ++ ofOctet x) (f acc (.stray x))
    rw [foldGlyphsFrom_step f acc (glyphAt?_stray a none), toByteArray_cons, ← ByteArray.append_assoc]
    simpa [Glyph.width] using next

theorem foldGlyphs_of_reads {α : Type} (f : α → Glyph → α) (acc : α) {b : Bytes} {gs : List Glyph}
    (h : Reads b.data.toList gs) : foldGlyphs b f acc = gs.foldl f acc := by
  have fold := foldGlyphsFrom_of_reads f h .empty acc
  rwa [ByteArray.empty_append, toByteArray_toList] at fold

theorem glyphs_of_reads {b : Bytes} {gs : List Glyph} (h : Reads b.data.toList gs) : glyphs b = gs := by
  rw [glyphs, foldGlyphs_of_reads _ _ h, List.foldl_flip_cons_eq_append', List.append_nil, List.reverse_reverse]

/-- Octets are those of one list of glyphs only. -/
theorem Reads.unique {l : List UInt8} {gs gs' : List Glyph} (h : Reads l gs) (h' : Reads l gs') : gs = gs' := by
  have octets : l.toByteArray.data.toList = l := by rw [List.data_toByteArray]
  rw [← octets] at h h'
  exact (glyphs_of_reads h).symm.trans (glyphs_of_reads h')

theorem reads_glyphs (b : Bytes) : Reads b.data.toList (glyphs b) := by
  obtain ⟨gs, reads⟩ := exists_reads b.data.toList
  rwa [glyphs_of_reads reads]

theorem Reads.chars_append {l : List UInt8} {gs : List Glyph} (h : Reads l gs) (cs : List Char) :
    Reads (cs.flatMap utf8EncodeChar ++ l) (cs.map .char ++ gs) := by
  induction cs with
  | nil => exact h
  | cons c rest ih =>
    rw [List.flatMap_cons, List.append_assoc]
    exact .char c ih

/-- Only the first octet of an encoded character can be the first of one. -/
private theorem not_isUTF8FirstByte_of_encoded {c : Char} {x y : UInt8} {l m : List UInt8}
    (h : utf8EncodeChar c = x :: l ++ y :: m) : ¬ y.IsUTF8FirstByte := by
  have inside : (x :: l).length < (utf8EncodeChar c).length := by simp [h]
  have octet : (utf8EncodeChar c)[(x :: l).length] = y := by simp [h]
  intro first
  rw [← octet, UInt8.isUTF8FirstByte_getElem_utf8EncodeChar] at first
  simp at first

private theorem isUTF8FirstByte_of_flatMap {cs : List Char} {y : UInt8} {m : List UInt8}
    (h : cs.flatMap utf8EncodeChar = y :: m) : y.IsUTF8FirstByte := by
  cases cs with
  | nil => cases h
  | cons c rest =>
    have pos : 0 < (utf8EncodeChar c).length := by simp [c.utf8Size_pos]
    have first : (utf8EncodeChar c ++ rest.flatMap utf8EncodeChar)[0]? = some y := by
      rw [← List.flatMap_cons, h]
      rfl
    have octet : (utf8EncodeChar c)[0]? = some y := by rwa [List.getElem?_append_left pos] at first
    rw [List.getElem?_eq_getElem pos] at octet
    rw [← Option.some.inj octet]
    exact UInt8.isUTF8FirstByte_getElem_zero_utf8EncodeChar

/-- Characters that follow do not complete what is not the encoding of a character. -/
theorem not_startsWithChar_append {x : UInt8} {l : List UInt8} (h : ¬ StartsWithChar (x :: l)) (cs : List Char) :
    ¬ StartsWithChar (x :: (l ++ cs.flatMap utf8EncodeChar)) := by
  rintro ⟨c, rest, split⟩
  rw [← List.cons_append, List.append_eq_append_iff] at split
  rcases split with ⟨beyond, whole, follows⟩ | ⟨after, before, -⟩
  · cases beyond with
    | nil => exact h ⟨c, [], by rw [whole, List.append_nil, List.append_nil]⟩
    | cons y m => exact not_isUTF8FirstByte_of_encoded whole (isUTF8FirstByte_of_flatMap follows)
  · exact h ⟨c, after, before⟩

/-- Characters that follow a text do not change how it is read. -/
theorem Reads.append_chars {l : List UInt8} {gs : List Glyph} (h : Reads l gs) (cs : List Char) :
    Reads (l ++ cs.flatMap utf8EncodeChar) (gs ++ cs.map .char) := by
  induction h with
  | nil => simpa using Reads.nil.chars_append cs
  | char c rest ih =>
    rw [List.append_assoc]
    exact .char c ih
  | stray none rest ih => exact .stray (not_startsWithChar_append none cs) ih

theorem ofChars_eq (cs : List Char) : ofChars cs = (cs.flatMap utf8EncodeChar).toByteArray := by
  have loop (b : Bytes) : cs.foldl pushChar b = b ++ (cs.flatMap utf8EncodeChar).toByteArray := by
    induction cs generalizing b with
    | nil => exact ByteArray.append_empty.symm
    | cons c rest ih =>
      rw [List.foldl_cons, ih, pushChar, foldl_push, List.flatMap_cons, List.toByteArray_append,
        ByteArray.append_assoc]
  rw [ofChars, loop, ByteArray.empty_append]

/-- Characters around a text are glyphs of their own. -/
theorem glyphs_ofChars_append (before after : List Char) (b : Bytes) :
    glyphs (ofChars before ++ b ++ ofChars after) = before.map .char ++ glyphs b ++ after.map .char := by
  apply glyphs_of_reads
  simp only [ofChars_eq, ByteArray.data_append, Array.toList_append, List.data_toByteArray]
  exact ((reads_glyphs b).chars_append before).append_chars after

end Text

end CoffWorks
