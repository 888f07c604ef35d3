import CoffWorks.Object.Code
import CoffWorks.Proofs.Object.Bench
import CoffWorks.Proofs.Object.FileName
import CoffWorks.Proofs.Text.Plain

namespace CoffWorks

namespace CodeFixup

def Supported (e : CodeFixup) : Prop := e.bits = 0 ∨ e.bits = 32

def type (m : Machine) (e : CodeFixup) : RelocationType :=
  if m = .amd64 then if e.isRelative then .amd64Rel32 else .amd64Addr32
  else if e.isRelative then .i386Rel32 else .i386Dir32

/-- The relocation that is made of a fixup. -/
def relocation (m : Machine) (symbol : SymbolId) (e : CodeFixup) : Relocation := ⟨symbol, e.offset, e.type m⟩

end CodeFixup

namespace Code

variable {m : Machine} {labels : List CodeLabel} {fixups : List CodeFixup}

/-- Fixups of 32 bits can be made, and those without a width are taken for such. -/
private theorem relocationType_eq_ok {e : CodeFixup} {type : RelocationType} :
    relocationType m e = .ok type ↔ e.Supported ∧ e.type m = type := by
  have bits : (e.bits ≠ 0 ∧ e.bits ≠ 32) ↔ ¬ e.Supported := not_or.symm
  unfold relocationType CodeFixup.type
  by_cases supported : e.Supported
  · rw [if_neg (mt bits.mp (not_not_intro supported))]
    by_cases amd64 : m = .amd64 <;> simp [supported, amd64]
  · rw [if_pos (bits.mpr supported)]
    simp [supported, reject]

private theorem checkFixups_eq_ok : checkFixups labels fixups = .ok () ↔
    ∀ e ∈ fixups, ∃ label ∈ labels, label.name = e.symbol := by
  induction fixups with
  | nil => simp [checkFixups]
  | cons e rest ih =>
    have named : labels.any (·.name == e.symbol) ↔ ∃ label ∈ labels, label.name = e.symbol := by
      simp [Bytes.beq_iff]
    rw [checkFixups, List.forall_mem_cons, ← named]
    by_cases found : labels.any (·.name == e.symbol)
    · rw [if_pos found, ih, and_iff_right found]
    · simp [found, reject]

/-- The relocations for a label. -/
def labelRelocations (m : Machine) (fixups : List CodeFixup) (label : CodeLabel) (symbol : SymbolId) :
    List Relocation :=
  (fixups.filter (·.symbol == label.name)).map (·.relocation m symbol)

/-- The relocations for all labels; the first has symbol number `i`. -/
def relocationsFrom (p : Pool) (m : Machine) (fixups : List CodeFixup) : Nat → List CodeLabel → List Relocation
  | _, [] => []
  | i, label :: rest => labelRelocations m fixups label (p.nextSymbol i) ++ relocationsFrom p m fixups (i + 1) rest

/-- Every relocation refers to one of the labels. -/
theorem exists_of_mem_relocationsFrom {p : Pool} {i : Nat} {r : Relocation}
    (h : r ∈ relocationsFrom p m fixups i labels) : ∃ j < labels.length, r.symbol = p.nextSymbol (i + j) := by
  induction labels generalizing i with
  | nil => cases h
  | cons label rest ih =>
    rcases List.mem_append.mp h with here | later
    · obtain ⟨e, -, rfl⟩ := List.mem_map.mp here
      exact ⟨0, Nat.zero_lt_succ _, rfl⟩
    · obtain ⟨j, inside, symbol⟩ := ih later
      exact ⟨j + 1, Nat.succ_lt_succ inside, by rw [symbol, Nat.succ_add_eq_add_succ]⟩

def labelSymbol (text : SectionId) (label : CodeLabel) : Symbol where
  name := label.name
  value := label.offset
  owner := if label.isExternal then none else some text
  storageClass := if label.isExternal ∨ label.isPublic then .external else .static

def fileSymbol (text : SectionId) (pieces : List FileName) : Symbol where
  name := ".file"
  owner := some text
  storageClass := .file
  aux := pieces.map .fileName

def sectionSymbol (name : Bytes) (s : SectionId) (number : UInt16) : Symbol where
  name := name
  owner := some s
  storageClass := .static
  aux := [.definition (some s) number]

section Steps

variable {k : Bench} {x : Section}

private theorem addFixups_eq_ok (here : k.sections[0]? = some x) (owned : x.owner = some k.builder) {label : CodeLabel}
    {symbol : SymbolId} {r : Unit × Pool} :
    addFixups m k.builder (k.base.nextSection 0) label symbol fixups k.pool = .ok r ↔
      (∀ e ∈ fixups, e.symbol = label.name → e.Supported) ∧
        ((), Bench.pool { k with
          sections := k.sections.modify 0 (·.relocatedBy (labelRelocations m fixups label symbol)) }) = r := by
  induction fixups generalizing k x with
  | nil =>
    simp only [labelRelocations, List.filter_nil, List.map_nil, modify_relocatedBy_nil, List.not_mem_nil,
      false_implies, implies_true, true_and]
    exact ⟨Except.ok.inj, congrArg Except.ok⟩
  | cons e rest ih =>
    rw [addFixups, List.forall_mem_cons]
    by_cases mine : e.symbol = label.name
    · have named : (e.symbol == label.name) = true := Bytes.beq_iff.mpr mine
      -- the section with this relocation is again one of the builder
      have next : (k.sections.modify 0 (·.relocated (e.relocation m symbol)))[0]? =
          some (x.relocated (e.relocation m symbol)) := by
        rw [List.getElem?_modify_eq, here]
        rfl
      have more := @ih { k with sections := k.sections.modify 0 (·.relocated (e.relocation m symbol)) } _ next owned
      simp only [List.modify_modify_eq, Function.comp_def, ← Section.relocatedBy_cons] at more
      have all : labelRelocations m (e :: rest) label symbol =
          e.relocation m symbol :: labelRelocations m rest label symbol := by
        simp [labelRelocations, named]
      have added := Bench.addRelocation_eq here owned (e.relocation m symbol)
      rw [all, if_pos named, Making.attempt_bind_eq_ok]
      simp only [relocationType_eq_ok]
      constructor
      · rintro ⟨_, ⟨supported, rfl⟩, h⟩
        obtain ⟨others, result⟩ := more.mp ((Making.bind_iff_of_ok added).mp h)
        exact ⟨⟨fun _ => supported, others⟩, result⟩
      · rintro ⟨⟨first, others⟩, result⟩
        exact ⟨_, ⟨first mine, rfl⟩, (Making.bind_iff_of_ok added).mpr (more.mpr ⟨others, result⟩)⟩
    · have other : ¬ (e.symbol == label.name) = true := mt Bytes.beq_iff.mp mine
      have all : labelRelocations m (e :: rest) label symbol = labelRelocations m rest label symbol := by
        simp [labelRelocations, other]
      simp only [other, mine, all, false_implies, true_and]
      exact ih here owned

theorem settleSymbol_labelSpec (text : SectionId) (label : CodeLabel) :
    Making.settleSymbol (labelSpec text label) = .ok (labelSymbol text label) :=
  Making.settleSymbol_eq_ok.mpr ⟨[], rfl, Nat.zero_le _, rfl⟩

/-- Labels become symbols, and the fixups that name them become relocations of the code. -/
private theorem addLabels_eq_ok (here : k.sections[0]? = some x) (owned : x.owner = some k.builder) {r : Unit × Pool} :
    addLabels m k.builder (k.base.nextSection 0) fixups labels k.pool = .ok r ↔
      (∀ label ∈ labels, ∀ e ∈ fixups, e.symbol = label.name → e.Supported) ∧
        ((), Bench.pool { k with
          sections := k.sections.modify 0 (·.relocatedBy (relocationsFrom k.base m fixups k.symbols.length labels))
          symbols := k.symbols ++ labels.map (labelSymbol (k.base.nextSection 0)) }) = r := by
  induction labels generalizing k x with
  | nil =>
    simp only [relocationsFrom, List.map_nil, List.append_nil, modify_relocatedBy_nil, List.not_mem_nil,
      false_implies, implies_true, true_and]
    exact ⟨Except.ok.inj, congrArg Except.ok⟩
  | cons label rest ih =>
    let rs := labelRelocations m fixups label (k.base.nextSymbol k.symbols.length)
    let k₁ : Bench := { k with symbols := k.symbols ++ [labelSymbol (k.base.nextSection 0) label] }
    let k₂ : Bench := { k₁ with sections := k.sections.modify 0 (·.relocatedBy rs) }
    have added := Bench.addSymbol_of_settled (k := k) (settleSymbol_labelSpec (k.base.nextSection 0) label)
    have next : k₂.sections[0]? = some (x.relocatedBy rs) := by
      rw [List.getElem?_modify_eq, here]
      rfl
    have relocated {s : Unit × Pool} : addFixups m k.builder (k.base.nextSection 0) label
        (k.base.nextSymbol k.symbols.length) fixups k₁.pool = .ok s ↔
          (∀ e ∈ fixups, e.symbol = label.name → e.Supported) ∧ ((), k₂.pool) = s :=
      addFixups_eq_ok (k := k₁) here owned
    have more := @ih k₂ _ next owned
    simp only [k₁, k₂, List.modify_modify_eq, Function.comp_def, List.length_append, List.length_singleton,
      List.append_assoc, List.singleton_append, ← Section.relocatedBy_append] at more
    rw [addLabels, Making.bind_iff_of_ok added, Making.bind_eq_ok, List.forall_mem_cons]
    constructor
    · rintro ⟨_, _, step, h⟩
      obtain ⟨first, same⟩ := relocated.mp step
      obtain ⟨-, rfl⟩ := Prod.mk.inj same
      obtain ⟨others, result⟩ := more.mp h
      exact ⟨⟨first, others⟩, result⟩
    · rintro ⟨⟨first, others⟩, result⟩
      exact ⟨(), _, relocated.mpr ⟨first, rfl⟩, more.mpr ⟨others, result⟩⟩

theorem settleSymbol_file (text : SectionId) {source : Bytes} {pieces : List FileName}
    (cut : FileName.records source = .ok pieces) :
    Making.settleSymbol
      { name := ".file", owner := some text, storageClass := .file,
        aux := pieces.map fun piece => some (.fileName piece) } = .ok (fileSymbol text pieces) := by
  obtain ⟨-, few, rfl⟩ := FileName.records_eq_ok.mp cut
  refine Making.settleSymbol_eq_ok.mpr ⟨_, (List.map_map ..).symm, ?_, rfl⟩
  simpa using few

private theorem addSectionSymbol_eq (k : Bench) (name : Bytes) (s : SectionId) (number : UInt16) :
    addSectionSymbol k.builder name s number k.pool =
      .ok ((), Bench.pool { k with symbols := k.symbols ++ [sectionSymbol name s number] }) := by
  have settled : Making.settleSymbol
      { name, owner := some s, storageClass := .static, aux := [some (.definition (some s) number)] } =
        .ok (sectionSymbol name s number) :=
    Making.settleSymbol_eq_ok.mpr ⟨[.definition (some s) number], rfl, Nat.one_le_ofNat, rfl⟩
  rw [addSectionSymbol, Making.attempt_bind_eq_ok]
  exact ⟨_, rfl, (Making.bind_iff_of_ok (Bench.addSymbol_of_settled settled)).mpr rfl⟩

end Steps

/-- The builder when the sections are made. -/
def opened (p : Pool) (m : Machine) (align : SectionFlags) (code : Bytes) : Bench where
  base := p
  machine := m
  flags := ⟨0⟩
  sections :=
    [{ name := ".text", data := code, flags := .execute ||| .read ||| .code ||| align,
       owner := some ⟨p.builders.size⟩ },
     { name := ".data", flags := .read ||| .write ||| .initializedData ||| align,
       owner := some ⟨p.builders.size⟩ },
     { name := ".bss", flags := .read ||| .write ||| .uninitializedData ||| align,
       owner := some ⟨p.builders.size⟩ }]

/-- The symbols before the labels. -/
def headSymbols (p : Pool) (pieces : List FileName) : List Symbol :=
  [fileSymbol (p.nextSection 0) pieces,
   sectionSymbol ".text" (p.nextSection 0) 1,
   sectionSymbol ".data" (p.nextSection 1) 2,
   sectionSymbol ".bss" (p.nextSection 2) 3]

/-- The builder when all parts are made. -/
def bench (p : Pool) (m : Machine) (align : SectionFlags) (code : Bytes) (labels : List CodeLabel)
    (fixups : List CodeFixup) (pieces : List FileName) : Bench :=
  { opened p m align code with
    sections := (opened p m align code).sections.modify 0 (·.relocatedBy (relocationsFrom p m fixups 4 labels))
    symbols := headSymbols p pieces ++ labels.map (labelSymbol (p.nextSection 0)) }

/-- The symbols are one for the source, one for each section and one for each label. -/
theorem symbol_cases {p : Pool} {align : SectionFlags} {code : Bytes} {pieces : List FileName} {x : Symbol}
    (hx : x ∈ (bench p m align code labels fixups pieces).symbols) :
    x = fileSymbol (p.nextSection 0) pieces ∨
      (∃ i < 3, ∃ name number, x = sectionSymbol name (p.nextSection i) number) ∨
      ∃ label ∈ labels, x = labelSymbol (p.nextSection 0) label := by
  rcases List.mem_append.mp hx with head | labelled
  · rcases List.mem_cons.mp head with rfl | described
    · exact .inl rfl
    · simp only [List.mem_cons, List.not_mem_nil, or_false] at described
      rcases described with rfl | rfl | rfl
      · exact .inr (.inl ⟨0, by decide, _, _, rfl⟩)
      · exact .inr (.inl ⟨1, by decide, _, _, rfl⟩)
      · exact .inr (.inl ⟨2, by decide, _, _, rfl⟩)
  · obtain ⟨label, mem, rfl⟩ := List.mem_map.mp labelled
    exact .inr (.inr ⟨label, mem, rfl⟩)

section Bench

variable {p : Pool} {align : SectionFlags} {code : Bytes} {pieces : List FileName}

/-- The labels follow the four symbols at the head. -/
theorem bench_label {j : Nat} {label : CodeLabel} (hj : labels[j]? = some label) :
    (bench p m align code labels fixups pieces).symbols[4 + j]? = some (labelSymbol (p.nextSection 0) label) := by
  have behind : (headSymbols p pieces).length ≤ 4 + j := Nat.le_add_right 4 j
  rw [bench, List.getElem?_append_right behind, List.getElem?_map]
  simp [headSymbols, hj]

theorem bench_text : (bench p m align code labels fixups pieces).delivered.getSection (p.nextSection 0) =
    { name := ".text", data := code, flags := .execute ||| .read ||| .code ||| align,
      relocations := (relocationsFrom p m fixups 4 labels).toArray } := by
  refine (Bench.getSection_delivered (k := bench p m align code labels fixups pieces) (i := 0) rfl).trans ?_
  simp [Section.relocatedBy, Section.released]

end Bench

/-- An object is made if the machine is known, the name of the source can be cut and every fixup is supported. -/
theorem object_eq_ok {code source : Bytes} {p : Pool} {r : ObjectFile × Pool} :
    object m code labels fixups source p = .ok r ↔ ∃ align pieces,
      alignment? m = some align ∧ FileName.records source = .ok pieces ∧
      (∀ e ∈ fixups, (∃ label ∈ labels, label.name = e.symbol) ∧ e.Supported) ∧
      ((bench p m align code labels fixups pieces).file,
        (bench p m align code labels fixups pieces).delivered) = r := by
  unfold object
  cases alignment? m with
  | none => simp [Making.refuse_eq, reject]
  | some align =>
    let k (i : Nat) : Bench := { opened p m align code with sections := (opened p m align code).sections.take i }
    refine (Making.bind_iff_of_ok (Bench.newBuilder_eq p m ⟨0⟩)).trans ?_
    refine (Making.bind_iff_of_ok (Bench.addSection_eq (k := k 0) _)).trans ?_
    refine (Making.bind_iff_of_ok (Bench.addSection_eq (k := k 1) _)).trans ?_
    refine (Making.bind_iff_of_ok (Bench.addSection_eq (k := k 2) _)).trans ?_
    rw [Making.attempt_bind_eq_ok]
    simp only [Option.some.injEq, exists_eq_left', exists_and_left]
    refine exists_congr fun pieces => and_congr_right fun cut => ?_
    let l (i : Nat) : Bench := { opened p m align code with symbols := (headSymbols p pieces).take i }
    refine (Making.bind_iff_of_ok (Bench.addSymbol_of_settled (k := l 0) (settleSymbol_file _ cut))).trans ?_
    refine (Making.bind_iff_of_ok (addSectionSymbol_eq (l 1) _ _ _)).trans ?_
    refine (Making.bind_iff_of_ok (addSectionSymbol_eq (l 2) _ _ _)).trans ?_
    refine (Making.bind_iff_of_ok (addSectionSymbol_eq (l 3) _ _ _)).trans ?_
    rw [Making.attempt_bind_eq_ok]
    have labelled {s : Unit × Pool} : addLabels m (l 4).builder (p.nextSection 0) fixups labels (l 4).pool = .ok s ↔
        (∀ label ∈ labels, ∀ e ∈ fixups, e.symbol = label.name → e.Supported) ∧
          ((), (bench p m align code labels fixups pieces).pool) = s := addLabels_eq_ok rfl rfl
    constructor
    · rintro ⟨_, checked, h⟩
      obtain ⟨_, _, added, h⟩ := Making.bind_eq_ok.mp h
      obtain ⟨supported, same⟩ := labelled.mp added
      obtain ⟨-, rfl⟩ := Prod.mk.inj same
      refine ⟨fun e he => ?_, Except.ok.inj (Bench.build_eq.symm.trans h)⟩
      obtain ⟨label, mem, name⟩ := checkFixups_eq_ok.mp checked e he
      exact ⟨⟨label, mem, name⟩, supported label mem e he name.symm⟩
    · rintro ⟨all, rfl⟩
      have checked : checkFixups labels fixups = .ok () := checkFixups_eq_ok.mpr fun e he => (all e he).1
      have added := labelled.mpr ⟨fun _ _ e he _ => (all e he).2, rfl⟩
      exact ⟨(), checked, Making.bind_eq_ok.mpr ⟨(), _, added, Bench.build_eq⟩⟩

end Code

end CoffWorks
