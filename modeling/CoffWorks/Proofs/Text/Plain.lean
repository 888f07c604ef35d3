import CoffWorks.Proofs.Text.Decimal
import CoffWorks.Proofs.Text.Glyph
import CoffWorks.Text.Keyword

namespace CoffWorks

namespace Bytes

theorem beq_iff {a b : Bytes} : (a == b) = true ↔ a = b := by
  rw [ByteArray.ext_iff]
  exact beq_iff_eq (a := a.data)

theorem isEmpty_iff {b : Bytes} : b.isEmpty = true ↔ b = .empty := by
  rw [ByteArray.isEmpty, beq_iff_eq, ByteArray.size_eq_zero_iff]

end Bytes

namespace Text

open Bytes

/-- The octet of a visible ASCII character other than a capital. -/
def IsPlain (x : UInt8) : Prop := 33 ≤ x.toNat ∧ x.toNat < 127 ∧ ¬ (65 ≤ x.toNat ∧ x.toNat ≤ 90)

instance : DecidablePred IsPlain := fun _ => inferInstanceAs (Decidable (_ ∧ _ ∧ _))

/-- All octets are those of such characters. -/
def Plain (b : Bytes) : Prop := ∀ x ∈ b.data.toList, IsPlain x

instance : DecidablePred Plain := fun b =>
  decidable_of_iff (b.data.toList.all fun x => decide (IsPlain x)) (List.all_eq_true.trans (by simp [Plain]))

theorem Plain.append {a b : Bytes} (ha : Plain a) (hb : Plain b) : Plain (a ++ b) := by
  intro x hx
  rw [ByteArray.data_append, Array.toList_append] at hx
  exact (List.mem_append.mp hx).elim (ha x) (hb x)

/-- The character that is encoded by one octet. -/
def Glyph.ofOctet (x : UInt8) : Glyph := .char (Char.ofUInt8 x)

namespace IsPlain

variable {x : UInt8}

/-- What holds of all plain octets can be found out by trying them. -/
private theorem of_forall_lt {P : UInt8 → Prop} (h : ∀ n < 127, IsPlain (.ofNat n) → P (.ofNat n))
    (hx : IsPlain x) : P x := by
  have all := h x.toNat hx.2.1
  rw [UInt8.ofNat_toNat] at all
  exact all hx

theorem utf8EncodeChar_eq (h : IsPlain x) : String.utf8EncodeChar (Char.ofUInt8 x) = [x] :=
  utf8EncodeChar_ofUInt8 (Nat.lt_succ_of_lt h.2.1)

theorem not_isBlank (h : IsPlain x) : (Glyph.ofOctet x).isBlank = false := by
  apply of_forall_lt _ h
  decide +kernel

theorem lowerKey_eq (h : IsPlain x) : (Glyph.ofOctet x).lowerKey = .ofOctet x := by
  apply of_forall_lt _ h
  decide +kernel

theorem pushGlyph_eq (h : IsPlain x) (b : Bytes) : pushGlyph b (.ofOctet x) = b.push x := by
  rw [Glyph.ofOctet, pushGlyph, pushChar, h.utf8EncodeChar_eq]
  rfl

end IsPlain

variable {b : Bytes}

theorem Plain.reads (h : Plain b) : Reads b.data.toList (b.data.toList.map Glyph.ofOctet) := by
  have all (l : List UInt8) (hl : ∀ x ∈ l, IsPlain x) : Reads l (l.map Glyph.ofOctet) := by
    induction l with
    | nil => exact .nil
    | cons x rest ih =>
      have first := Reads.char (Char.ofUInt8 x) (ih fun y hy => hl y (List.mem_cons_of_mem x hy))
      rwa [(hl x List.mem_cons_self).utf8EncodeChar_eq] at first
  exact all _ h

/-- Putting glyphs together again. -/
private theorem foldl_pushGlyph_plain {l : List UInt8} (h : ∀ x ∈ l, IsPlain x) (b : Bytes) :
    (l.map Glyph.ofOctet).foldl pushGlyph b = b ++ l.toByteArray := by
  rw [← foldl_push, List.foldl_map]
  exact List.foldl_ext _ _ b fun acc x hx => (h x hx).pushGlyph_eq acc

theorem trimmed_of_not_isBlank {gs : List Glyph} (h : ∀ g ∈ gs, g.isBlank = false) : trimmed gs = gs := by
  have kept : ∀ l : List Glyph, (∀ g ∈ l, g.isBlank = false) → l.dropWhile Glyph.isBlank = l := by
    intro l hl
    rw [List.dropWhile_eq_self_iff]
    intro some
    simp [hl _ (List.getElem_mem some)]
  rw [trimmed, kept gs h, kept gs.reverse fun g hg => h g (List.mem_reverse.mp hg), List.reverse_reverse]

theorem Plain.not_isBlank (h : Plain b) : ∀ g ∈ b.data.toList.map Glyph.ofOctet, g.isBlank = false := by
  intro g hg
  obtain ⟨x, hx, rfl⟩ := List.mem_map.mp hg
  exact (h x hx).not_isBlank

theorem Plain.keyword_eq (h : Plain b) : keyword b = b := by
  have lower : (b.data.toList.map Glyph.ofOctet).map Glyph.lowerKey = b.data.toList.map Glyph.ofOctet := by
    rw [List.map_map]
    exact List.map_congr_left fun x hx => (h x hx).lowerKey_eq
  rw [keyword, glyphs_of_reads h.reads, trimmed_of_not_isBlank h.not_isBlank, lower, ofGlyphs, foldl_pushGlyph_plain h,
    toByteArray_toList, ByteArray.empty_append]

/-- Just the blanks are left out, wherever they stand. -/
theorem withoutBlanks_eq_filter (b : Bytes) : withoutBlanks b = ofGlyphs ((glyphs b).filter (!·.isBlank)) := by
  have skip : (fun (acc : Bytes) (g : Glyph) => if g.isBlank then acc else pushGlyph acc g) =
      fun acc g => if !g.isBlank then pushGlyph acc g else acc := by
    funext acc g
    cases g.isBlank <;> rfl
  rw [withoutBlanks, foldGlyphs_of_reads _ _ (reads_glyphs b), ofGlyphs, List.foldl_filter, skip]

theorem Plain.withoutBlanks_eq (h : Plain b) : withoutBlanks b = b := by
  have all : (glyphs b).filter (!·.isBlank) = glyphs b := by
    rw [List.filter_eq_self, glyphs_of_reads h.reads]
    intro g hg
    rw [h.not_isBlank g hg]
    rfl
  rw [withoutBlanks_eq_filter, all, glyphs_of_reads h.reads, ofGlyphs, foldl_pushGlyph_plain h, toByteArray_toList,
    ByteArray.empty_append]

end Text

end CoffWorks
