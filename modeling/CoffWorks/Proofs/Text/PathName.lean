import CoffWorks.Proofs.Bytes.Split
import CoffWorks.Proofs.Text.Plain
import CoffWorks.Text.PathName

namespace CoffWorks.Text.PathName

open Bytes

/-- What can stand between the slashes of a path. -/
structure Part (n : Bytes) : Prop where
  nonempty : n ≠ .empty
  free : slash ∉ n.toList

/-- A part that is the name of a file or directory. -/
structure Proper (n : Bytes) : Prop extends Part n where
  not_here : n ≠ "."
  not_up : n ≠ ".."

/-- The path through the parts, from the root or from where one is. -/
def path (rooted : Bool) (parts : List Bytes) : Bytes :=
  Bytes.join "/" (if rooted then .empty :: parts else parts)

variable {rooted : Bool} {names parts : List Bytes}

/-- Proper names are gone through one after the other. -/
private theorem resolve_append_of_proper (h : ∀ n ∈ names, Proper n) (acc rest : List Bytes) :
    resolve rooted acc (names ++ rest) = resolve rooted (names.reverse ++ acc) rest := by
  induction names generalizing acc with
  | nil => rfl
  | cons n names ih =>
    obtain ⟨proper, others⟩ := List.forall_mem_cons.mp h
    have stays : ¬ (n.isEmpty ∨ n = ".") := not_or.mpr ⟨mt Bytes.isEmpty_iff.mp proper.nonempty, proper.not_here⟩
    rw [List.cons_append, resolve.eq_def]
    dsimp only
    rw [if_neg stays, if_neg proper.not_up, ih others, List.reverse_cons, List.append_assoc, List.singleton_append]

theorem resolve_of_proper (h : ∀ n ∈ names, Proper n) (acc : List Bytes) :
    resolve rooted acc names = names.reverse ++ acc := by
  have all : resolve rooted acc (names ++ []) = _ := resolve_append_of_proper h acc []
  rw [List.append_nil] at all
  rw [all, resolve.eq_def]

/-- Going up leads back from a directory that was entered by name. -/
theorem resolve_up {n : Bytes} (h : Proper n) (acc rest : List Bytes) :
    resolve rooted (n :: acc) (".." :: rest) = resolve rooted acc rest := by
  have stays : ¬ ("..".toUTF8.isEmpty ∨ "..".toUTF8 = ".") := by decide
  rw [resolve.eq_def]
  dsimp only
  rw [if_neg stays, if_pos rfl, if_neg h.not_up]

theorem separated_path (rooted : Bool) (some : parts ≠ []) (h : ∀ n ∈ parts, Part n) :
    Separated slash (path rooted parts) (if rooted then .empty :: parts else parts) := by
  refine ⟨?_, ?_, rfl⟩
  · cases rooted <;> simp [some]
  · have free : ∀ n ∈ parts, slash ∉ n.toList := fun n hn => (h n hn).free
    cases rooted with
    | false => exact free
    | true => exact List.forall_mem_cons.mpr ⟨by simp, free⟩

private theorem isAbsolute_of_toList {p : Bytes} {x : UInt8} {l : List UInt8} (h : p.toList = x :: l) :
    isAbsolute p = decide (x = slash) := by
  have bytes : p = ofOctet x ++ l.toByteArray := by
    rw [← toList_inj, h, toList_append, toList_ofOctet, toList_toByteArray, List.singleton_append]
  have first : p.byteAt 0 = x := by
    rw [bytes, byteAt_append_left _ _ _ (by simp)]
    rfl
  have nonempty : p.isEmpty = false := by
    rw [Bool.eq_false_iff]
    intro empty
    rw [Bytes.isEmpty_iff.mp empty, toList_empty] at h
    cases h
  rw [isAbsolute, nonempty, first]
  rfl

/-- A path is absolute if it starts at the root. -/
theorem isAbsolute_path (some : parts ≠ []) (h : ∀ n ∈ parts, Part n) : isAbsolute (path rooted parts) = rooted := by
  obtain ⟨n, rest, rfl⟩ := List.exists_cons_of_ne_nil some
  cases rooted with
  | true =>
    have here : (path true (n :: rest)).toList = slash :: (Bytes.join "/" (n :: rest)).toList := by
      rw [path, if_pos rfl, join_cons_cons, ByteArray.empty_append, toList_append]
      exact congrArg (· ++ _) (toList_ofOctet slash)
    rw [isAbsolute_of_toList here, decide_eq_true rfl]
  | false =>
    have part := h n List.mem_cons_self
    have octets_some : n.toList ≠ [] := by
      rw [← toList_empty, Ne, toList_inj]
      exact part.nonempty
    obtain ⟨x, l, octets⟩ := List.exists_cons_of_ne_nil octets_some
    have other : x ≠ slash := by
      rintro rfl
      exact part.free (octets ▸ List.mem_cons_self)
    obtain ⟨m, start⟩ : ∃ m, Bytes.join "/" (n :: rest) = n ++ m := by
      cases rest with
      | nil => exact ⟨.empty, ByteArray.append_empty.symm⟩
      | cons b rest => exact ⟨_, (join_cons_cons _ n b rest).trans ByteArray.append_assoc⟩
    have here : (path false (n :: rest)).toList = x :: (l ++ m.toList) := by
      rw [path, if_neg Bool.false_ne_true, start, toList_append, octets, List.cons_append]
    rw [isAbsolute_of_toList here, decide_eq_false other]

/-- A path is cleaned by going through its parts. -/
theorem clean_path (some : parts ≠ []) (h : ∀ n ∈ parts, Part n) {acc : List Bytes}
    (resolved : resolve rooted [] parts = acc) (reached : acc ≠ []) :
    clean (path rooted parts) = path rooted acc.reverse := by
  obtain ⟨n, rest, names⟩ := List.exists_cons_of_ne_nil (mt List.reverse_eq_nil_iff.mp reached)
  rw [clean, isAbsolute_path some h, (separated_path rooted some h).splitOn_eq]
  cases rooted with
  | true =>
    have skipped : resolve true [] (.empty :: parts) = acc := by
      rw [resolve.eq_def]
      exact resolved
    rw [if_pos rfl, if_pos rfl, skipped, names, path, if_pos rfl, join_cons_cons, ByteArray.empty_append]
  | false =>
    rw [if_neg Bool.false_ne_true, if_neg Bool.false_ne_true, resolved, names]
    rfl

theorem path_ne_empty (rooted : Bool) (some : parts ≠ []) (h : ∀ n ∈ parts, Part n) : path rooted parts ≠ .empty := by
  intro empty
  have split := (separated_path rooted some h).splitOn_eq
  have nothing : Bytes.splitOn .empty slash = [.empty] := by decide +kernel
  rw [empty, nothing] at split
  cases rooted with
  | true => exact some (List.cons.inj split).2.symm
  | false =>
    have whole : [.empty] = parts := split
    exact (h .empty (whole ▸ List.mem_singleton_self _)).nonempty rfl

/-- A path is seen from a directory by going on from there. -/
theorem join_path {dirs : List Bytes} (hd : dirs ≠ []) (hp : parts ≠ []) (dirs_part : ∀ n ∈ dirs, Part n)
    (parts_part : ∀ n ∈ parts, Part n) :
    join (path rooted dirs) (path false parts) = clean (path rooted (dirs ++ parts)) := by
  have both : [path rooted dirs, path false parts].filter (!·.isEmpty) = [path rooted dirs, path false parts] := by
    have first := mt Bytes.isEmpty_iff.mp (path_ne_empty rooted hd dirs_part)
    have second := mt Bytes.isEmpty_iff.mp (path_ne_empty false hp parts_part)
    simp [first, second]
  rw [join, both]
  congr 1
  cases rooted with
  | true => exact (join_append _ (List.cons_ne_nil _ dirs) hp).symm
  | false => exact (join_append _ hd hp).symm

/-- Names are put behind those of the directory. -/
theorem join_of_proper {dirs : List Bytes} (hd : dirs ≠ []) (hn : names ≠ []) (dirs_proper : ∀ n ∈ dirs, Proper n)
    (names_proper : ∀ n ∈ names, Proper n) :
    join (path rooted dirs) (path false names) = path rooted (dirs ++ names) := by
  have all : ∀ n ∈ dirs ++ names, Proper n := List.forall_mem_append.mpr ⟨dirs_proper, names_proper⟩
  have resolved : resolve rooted [] (dirs ++ names) = (dirs ++ names).reverse := by
    rw [resolve_of_proper all, List.append_nil]
  rw [join_path hd hn (fun n hn => (dirs_proper n hn).toPart) (fun n hn => (names_proper n hn).toPart),
    clean_path (by simp [hd]) (fun n hn => (all n hn).toPart) resolved (by simp [hd]), List.reverse_reverse]

theorem part_up_cons (h : ∀ n ∈ names, Proper n) : ∀ n ∈ "..".toUTF8 :: names, Part n := by
  have up : Part ".." := by
    refine ⟨by decide, ?_⟩
    rw [toList_eq]
    decide
  exact List.forall_mem_cons.mpr ⟨up, fun n hn => (h n hn).toPart⟩

/-- Names behind a step up are put in place of the last one of the directory. -/
theorem join_up {dirs : List Bytes} {dir : Bytes} (hn : names ≠ []) (dirs_proper : ∀ n ∈ dirs ++ [dir], Proper n)
    (names_proper : ∀ n ∈ names, Proper n) :
    join (path rooted (dirs ++ [dir])) (path false (".." :: names)) = path rooted (dirs ++ names) := by
  have dirs_part : ∀ n ∈ dirs ++ [dir], Part n := fun n hn => (dirs_proper n hn).toPart
  have parts_part := part_up_cons names_proper
  have resolved : resolve rooted [] (dirs ++ [dir] ++ "..".toUTF8 :: names) = (dirs ++ names).reverse := by
    rw [resolve_append_of_proper dirs_proper, List.append_nil, List.reverse_append, List.reverse_singleton,
      List.singleton_append, resolve_up (dirs_proper dir (by simp)), resolve_of_proper names_proper,
      List.reverse_append]
  rw [join_path (by simp) (by simp) dirs_part parts_part,
    clean_path (by simp) (List.forall_mem_append.mpr ⟨dirs_part, parts_part⟩) resolved (by simp [hn]),
    List.reverse_reverse]

end CoffWorks.Text.PathName
