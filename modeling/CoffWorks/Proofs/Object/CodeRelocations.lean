import CoffWorks.Proofs.Object.Code

namespace CoffWorks

namespace Code

variable {m : Machine} {labels : List CodeLabel} {fixups : List CodeFixup}

/-- A relocation of the file is what a fixup asks for. -/
structure Fulfils (f : ObjectFile) (q : Pool) (m : Machine) (e : CodeFixup) (r : Relocation) : Prop where
  symbol_mem : r.symbol ∈ f.symbols
  name_eq : (q.getSymbol r.symbol).name = e.symbol
  address_eq : r.address = e.offset
  type_eq : r.type = e.type m

/-- There is one relocation for each of the fixups and no other, in any order. -/
def Rearranges (f : ObjectFile) (q : Pool) (m : Machine) (fixups : List CodeFixup) (rs : List Relocation) : Prop :=
  ∃ order, order.Perm fixups ∧ List.Forall₂ (Fulfils f q m) order rs

theorem Rearranges.length_eq {f : ObjectFile} {q : Pool} {rs : List Relocation} (h : Rearranges f q m fixups rs) :
    fixups.length = rs.length := by
  obtain ⟨order, perm, fulfilled⟩ := h
  rw [← perm.length_eq]
  exact fulfilled.length_eq

/-- How many labels have the name that a fixup asks for. -/
def bearers (labels : List CodeLabel) (e : CodeFixup) : Nat := labels.countP (e.symbol == ·.name)

/-- Each fixup as often as there are labels for it. -/
def repeated (labels : List CodeLabel) (fixups : List CodeFixup) : List CodeFixup :=
  fixups.flatMap fun e => List.replicate (bearers labels e) e

/-- The fixups in the order of the labels that they name. -/
def byLabel (fixups : List CodeFixup) (labels : List CodeLabel) : List CodeFixup :=
  labels.flatMap fun label => fixups.filter (·.symbol == label.name)

/-- Going through the labels or through the fixups finds the same pairs. -/
private theorem byLabel_perm (labels : List CodeLabel) : (byLabel fixups labels).Perm (repeated labels fixups) := by
  induction labels with
  | nil => simp [byLabel, repeated, bearers]
  | cons label rest ih =>
    have here : fixups.filter (·.symbol == label.name) =
        fixups.flatMap fun e => (Option.guard (·.symbol == label.name) e).toList := by
      rw [← List.filterMap_eq_filter, List.filterMap_eq_flatMap_toList]
    have once_more (e : CodeFixup) : (Option.guard (·.symbol == label.name) e).toList ++
        List.replicate (bearers rest e) e = List.replicate (bearers (label :: rest) e) e := by
      rw [bearers, bearers, List.countP_cons, Option.guard]
      split_ifs
      · rw [List.replicate_succ, Option.toList_some, List.singleton_append]
      · rfl
    have all : (repeated (label :: rest) fixups) =
        fixups.flatMap fun e => (Option.guard (·.symbol == label.name) e).toList ++
          List.replicate (bearers rest e) e := by
      rw [repeated, funext once_more]
    rw [byLabel, List.flatMap_cons, all, here]
    exact (ih.append_left _).trans (List.flatMap_append_perm _ _ _)

/-- The relocations that are made fulfil the fixups, label by label. -/
theorem forall₂_relocationsFrom {k : Bench} {text : SectionId} {i : Nat}
    (made : ∀ j label, labels[j]? = some label → k.symbols[i + j]? = some (labelSymbol text label)) :
    List.Forall₂ (Fulfils k.file k.delivered m) (byLabel fixups labels)
      (relocationsFrom k.base m fixups i labels) := by
  induction labels generalizing i with
  | nil => exact .nil
  | cons label rest ih =>
    have symbol : k.symbols[i]? = some (labelSymbol text label) := made 0 label rfl
    have others := ih (i := i + 1) fun j other hj => by
      have next := made (j + 1) other hj
      rwa [Nat.add_right_comm, Nat.add_assoc]
    have first : List.Forall₂ (Fulfils k.file k.delivered m) (fixups.filter (·.symbol == label.name))
        (labelRelocations m fixups label (k.base.nextSymbol i)) := by
      rw [labelRelocations, List.forall₂_map_right_iff, List.forall₂_same]
      intro e he
      have named : e.symbol = label.name := Bytes.beq_iff.mp (List.mem_filter.mp he).2
      have inside : i < k.symbols.length := (List.getElem?_eq_some_iff.mp symbol).1
      refine ⟨Bench.nextSymbol_mem inside, ?_, rfl, rfl⟩
      rw [CodeFixup.relocation, Bench.getSymbol_delivered symbol, named]
      rfl
    exact List.rel_append first others

private theorem bearers_pos {e : CodeFixup} (h : ∃ label ∈ labels, label.name = e.symbol) : 0 < bearers labels e := by
  obtain ⟨label, mem, named⟩ := h
  exact List.countP_pos_iff.mpr ⟨label, mem, Bytes.beq_iff.mpr named.symm⟩

private theorem repeated_of_once (once : ∀ e ∈ fixups, bearers labels e = 1) : repeated labels fixups = fixups := by
  have same : repeated labels fixups = fixups.flatMap fun e => [e] :=
    List.flatMap_congr fun e he => by rw [once e he, List.replicate_one]
  rw [same, List.flatMap_singleton']

/-- If every fixup occurs and none is lost by counting, none is repeated. -/
private theorem once_of_length_repeated (named : ∀ e ∈ fixups, 0 < bearers labels e)
    (same : (repeated labels fixups).length = fixups.length) : ∀ e ∈ fixups, bearers labels e = 1 := by
  have split (e : CodeFixup) (rest : List CodeFixup) :
      (repeated labels (e :: rest)).length = bearers labels e + (repeated labels rest).length := by
    simp [repeated]
  have longer (rest : List CodeFixup) (named : ∀ e ∈ rest, 0 < bearers labels e) :
      rest.length ≤ (repeated labels rest).length := by
    induction rest with
    | nil => exact Nat.zero_le _
    | cons e rest ih =>
      have first := named e List.mem_cons_self
      have others := ih fun x hx => named x (List.mem_cons_of_mem e hx)
      rw [split, List.length_cons]
      omega
  induction fixups with
  | nil => nofun
  | cons e rest ih =>
    rw [List.forall_mem_cons] at named ⊢
    have others := longer rest named.2
    rw [split, List.length_cons] at same
    have first := named.1
    exact ⟨by omega, ih named.2 (by omega)⟩

/-- In the object for a piece of code, the relocations are the fixups, each as often as there are labels
with the name that it asks for. They are the given fixups, one relocation for each, exactly if no such
name is repeated. -/
theorem object_relocations {code source : Bytes} {p q : Pool} {f : ObjectFile}
    (made : object m code labels fixups source p = .ok (f, q)) :
    ∃ text, f.sections[0]? = some text ∧ (q.getSection text).name = ".text" ∧
      Rearranges f q m (repeated labels fixups) (q.getSection text).relocations.toList ∧
      (Rearranges f q m fixups (q.getSection text).relocations.toList ↔ ∀ e ∈ fixups, bearers labels e = 1) := by
  obtain ⟨align, pieces, -, -, accepted, same⟩ := object_eq_ok.mp made
  obtain ⟨rfl, rfl⟩ := Prod.mk.inj same
  let k := bench p m align code labels fixups pieces
  have all : Rearranges k.file k.delivered m (repeated labels fixups) (relocationsFrom p m fixups 4 labels) :=
    ⟨byLabel fixups labels, byLabel_perm labels, forall₂_relocationsFrom fun _ _ hj => bench_label hj⟩
  refine ⟨p.nextSection 0, rfl, ?_, ?_, ?_⟩
  · rw [bench_text]
  · rw [bench_text]
    exact all
  · rw [bench_text]
    constructor
    · intro given
      refine once_of_length_repeated (fun e he => bearers_pos (accepted e he).1) ?_
      rw [all.length_eq, given.length_eq]
    · intro once
      rw [repeated_of_once once] at all
      exact all

/-- Two labels and three fixups for them, in another order. -/
def jumpLabels : List CodeLabel := [{ name := "start" }, { name := "exit", isExternal := true }]

def jumpFixups : List CodeFixup :=
  [{ symbol := "exit", offset := 1, isRelative := true }, { symbol := "start", offset := 8, bits := 32 },
   { symbol := "exit", offset := 5 }]

/-- The fixups name different labels, and each becomes one relocation. -/
theorem object_relocations_jump : ∃ f q text,
    object .i386 ⟨.replicate 12 144⟩ jumpLabels jumpFixups "jump.asm" {} = .ok (f, q) ∧
      f.sections[0]? = some text ∧
      Rearranges f q .i386 jumpFixups (q.getSection text).relocations.toList := by
  have cut : FileName.records "jump.asm" = .ok [.ofBytes "jump.asm"] := by decide +kernel
  have accepted : ∀ e ∈ jumpFixups, (∃ label ∈ jumpLabels, label.name = e.symbol) ∧ e.Supported := by
    simp [jumpFixups, jumpLabels, CodeFixup.Supported]
  have made : object .i386 ⟨.replicate 12 144⟩ jumpLabels jumpFixups "jump.asm" {} = .ok (_, _) :=
    object_eq_ok.mpr ⟨_, _, rfl, cut, accepted, rfl⟩
  obtain ⟨text, first, -, -, given⟩ := object_relocations made
  exact ⟨_, _, text, made, first, given.mpr (by decide +kernel)⟩

/-- A label that is given twice. -/
def twinLabels : List CodeLabel := [{ name := "exit", isExternal := true }, { name := "exit", isExternal := true }]

def twinFixups : List CodeFixup := [{ symbol := "exit", offset := 1, isRelative := true }]

/-- The only fixup becomes two relocations. -/
theorem object_twinLabels_doubled : ∃ f q text,
    object .amd64 ⟨#[232, 0, 0, 0, 0]⟩ twinLabels twinFixups "jump.asm" {} = .ok (f, q) ∧
      f.sections[0]? = some text ∧ (q.getSection text).relocations.size = 2 ∧
      ¬ Rearranges f q .amd64 twinFixups (q.getSection text).relocations.toList := by
  have cut : FileName.records "jump.asm" = .ok [.ofBytes "jump.asm"] := by decide +kernel
  have accepted : ∀ e ∈ twinFixups, (∃ label ∈ twinLabels, label.name = e.symbol) ∧ e.Supported := by
    simp [twinFixups, twinLabels, CodeFixup.Supported]
  have made : object .amd64 ⟨#[232, 0, 0, 0, 0]⟩ twinLabels twinFixups "jump.asm" {} = .ok (_, _) :=
    object_eq_ok.mpr ⟨_, _, rfl, cut, accepted, rfl⟩
  have two : (relocationsFrom {} .amd64 twinFixups 4 twinLabels).length = 2 := by decide +kernel
  refine ⟨_, _, Pool.nextSection {} 0, made, rfl, ?_, fun given => ?_⟩
  · rw [bench_text, List.size_toArray, two]
  · have same := given.length_eq
    rw [bench_text, two] at same
    exact absurd same (by decide)

end Code

end CoffWorks
