import CoffWorks.Proofs.Bytes.Bounds

namespace CoffWorks.Bytes

/-- `parts` stand between the separators of `b`. -/
structure Separated (sep : UInt8) (b : Bytes) (parts : List Bytes) : Prop where
  nonempty : parts ≠ []
  free : ∀ p ∈ parts, sep ∉ p.toList
  joined : join (ofOctet sep) parts = b

theorem toList_inj {a b : Bytes} : a.toList = b.toList ↔ a = b := by
  rw [toList_eq, toList_eq, Array.toList_inj, ByteArray.ext_iff]

theorem length_toList (b : Bytes) : b.toList.length = b.size := by
  rw [toList_eq, Array.length_toList, ByteArray.size_data]

theorem toList_ofOctet (x : UInt8) : (ofOctet x).toList = [x] := by
  rw [toList_eq]
  rfl

theorem join_cons_cons (sep a b : Bytes) (rest : List Bytes) :
    join sep (a :: b :: rest) = a ++ sep ++ join sep (b :: rest) := by
  have step (l : List Bytes) (x y : Bytes) :
      l.foldl (fun acc d => acc ++ sep ++ d) (x ++ y) = x ++ l.foldl (fun acc d => acc ++ sep ++ d) y := by
    induction l generalizing y with
    | nil => rfl
    | cons d l ih => rw [List.foldl_cons, List.foldl_cons, ← ih, ByteArray.append_assoc, ByteArray.append_assoc,
        ByteArray.append_assoc]
  cases rest with
  | nil => rfl
  | cons c rest =>
    have regrouped : a ++ sep ++ b ++ sep ++ c = a ++ sep ++ (b ++ sep ++ c) := by
      simp only [ByteArray.append_assoc]
    change (c :: rest).foldl _ (a ++ sep ++ b) = a ++ sep ++ rest.foldl _ (b ++ sep ++ c)
    rw [List.foldl_cons, regrouped, step]

/-- Two lists of parts have a separator between them. -/
theorem join_append (sep : Bytes) {l m : List Bytes} (hl : l ≠ []) (hm : m ≠ []) :
    join sep (l ++ m) = join sep l ++ sep ++ join sep m := by
  induction l with
  | nil => exact absurd rfl hl
  | cons a rest ih =>
    cases rest with
    | nil =>
      obtain ⟨b, m, rfl⟩ := List.exists_cons_of_ne_nil hm
      exact join_cons_cons sep a b m
    | cons b rest =>
      rw [List.cons_append, List.cons_append, join_cons_cons, ← List.cons_append, ih (by simp), join_cons_cons]
      simp only [ByteArray.append_assoc]

theorem toList_join (sep : UInt8) (parts : List Bytes) :
    (join (ofOctet sep) parts).toList = [sep].intercalate (parts.map (·.toList)) := by
  induction parts with
  | nil => exact toList_empty
  | cons a rest ih =>
    cases rest with
    | nil => simp [join]
    | cons b rest =>
      rw [join_cons_cons, toList_append, toList_append, ih, toList_ofOctet]
      exact List.intercalate_cons_cons.symm

/-- What comes from `start` on, cut at `pos`. -/
private theorem drop_eq_take_append_cons {b : Bytes} {start pos : Nat} (h : start ≤ pos) (inside : pos < b.size) :
    b.toList.drop start = (b.toList.drop start).take (pos - start) ++ b[pos] :: b.toList.drop (pos + 1) := by
  have within : pos < b.toList.length := by
    rwa [length_toList]
  have here : b.toList[pos] = b[pos] := by
    simp only [toList_eq]
    rfl
  calc b.toList.drop start
    _ = (b.toList.drop start).take (pos - start) ++ (b.toList.drop start).drop (pos - start) :=
      (List.take_append_drop ..).symm
    _ = _ := by rw [List.drop_drop, Nat.add_sub_cancel' h, List.drop_eq_getElem_cons within, here]

/-- The part that is being read starts at `start` and reaches to `pos` at least. -/
private theorem map_toList_splitOn_go (b : Bytes) (sep : UInt8) (start pos : Nat) (acc : List Bytes) (h : start ≤ pos)
    (free : sep ∉ (b.toList.drop start).take (pos - start)) :
    (splitOn.go b sep start pos acc).map (·.toList) =
      acc.reverse.map (·.toList) ++ List.splitOn sep (b.toList.drop start) := by
  fun_induction splitOn.go b sep start pos acc with
  | case1 start pos acc inside here ih =>
    rw [ih (Nat.le_refl _) (by simp), drop_eq_take_append_cons h inside, here, List.splitOn_append_cons_self,
      List.splitOn_eq_singleton free, ← toList_slice]
    simp
  | case2 start pos acc inside other ih =>
    have length : ((b.toList.drop start).take (pos - start)).length = pos - start := by
      rw [List.length_take_of_le]
      rw [List.length_drop, length_toList]
      omega
    apply ih (by omega)
    intro mem
    rw [drop_eq_take_append_cons h inside, List.take_append, length, Nat.succ_sub h, Nat.succ_sub (Nat.le_refl _),
      Nat.sub_self, List.mem_append] at mem
    rcases mem with before | last
    · exact free (List.mem_of_mem_take before)
    · exact other (List.mem_singleton.mp last).symm
  | case3 start pos acc outside =>
    have whole : (b.toList.drop start).take (pos - start) = b.toList.drop start := by
      apply List.take_of_length_le
      rw [List.length_drop, length_toList]
      omega
    rw [whole] at free
    rw [List.splitOn_eq_singleton free, ← toList_drop]
    simp

/-- Texts are cut as lists are. -/
theorem map_toList_splitOn (b : Bytes) (sep : UInt8) :
    (b.splitOn sep).map (·.toList) = List.splitOn sep b.toList :=
  map_toList_splitOn_go b sep 0 0 [] (Nat.le_refl 0) (by simp)

private theorem not_mem_of_mem_splitOn {α : Type} [BEq α] [LawfulBEq α] {x : α} {l p : List α}
    (h : p ∈ List.splitOn x l) : x ∉ p := by
  induction l generalizing p with
  | nil => simp_all
  | cons y l ih =>
    obtain ⟨first, rest, parts⟩ := List.exists_cons_of_ne_nil (List.splitOn_ne_nil x l)
    rw [List.splitOn_cons_eq_if_modifyHead, parts] at h
    rw [parts] at ih
    split_ifs at h with here
    · rcases List.mem_cons.mp h with rfl | later
      · exact List.not_mem_nil
      · exact ih later
    · rcases List.mem_cons.mp h with rfl | later
      · have other : y ≠ x := by simpa using here
        exact List.not_mem_cons_of_ne_of_not_mem other.symm (ih List.mem_cons_self)
      · exact ih (List.mem_cons_of_mem _ later)

/-- The parts give the text when they are joined again, and none of them contains the separator. -/
theorem separated_splitOn (sep : UInt8) (b : Bytes) : Separated sep b (b.splitOn sep) where
  nonempty := by
    intro none
    have parts := map_toList_splitOn b sep
    rw [none] at parts
    exact List.splitOn_ne_nil sep b.toList parts.symm
  free := by
    intro p hp
    have part : p.toList ∈ List.splitOn sep b.toList := by
      rw [← map_toList_splitOn]
      exact List.mem_map_of_mem hp
    exact not_mem_of_mem_splitOn part
  joined := by
    rw [← toList_inj, toList_join, map_toList_splitOn, List.intercalate_splitOn]

/-- No other parts do. -/
theorem Separated.splitOn_eq {sep : UInt8} {b : Bytes} {parts : List Bytes} (h : Separated sep b parts) :
    b.splitOn sep = parts := by
  have injective : Function.Injective (fun p : Bytes => p.toList) := fun _ _ => toList_inj.mp
  apply List.map_injective_iff.mpr injective
  rw [map_toList_splitOn, ← h.joined, toList_join]
  apply List.splitOn_intercalate
  · intro l hl
    obtain ⟨p, hp, rfl⟩ := List.mem_map.mp hl
    exact h.free p hp
  · simpa using h.nonempty

end CoffWorks.Bytes
