import CoffWorks.Proofs.Manifest.Parts

namespace CoffWorks.Manifest

/-- Sections as asked for, each with its relocations. -/
def makeSections (b : BuilderId) (specs : List SectionSpec) (rss : List (List CoffWorks.Relocation)) :
    List CoffWorks.Section :=
  specs.zipWith (fun spec rs => spec.make rs.toArray (some b)) rss

/-- Adding sections cannot fail, and each gets the next handle and number. -/
private theorem addSections_eq (k : Bench) (specs : List SectionSpec) (acc : SectionNames) :
    addSections k.builder (k.sections.length + 1) specs acc k.pool =
      .ok (acc.reverse ++ specs.mapIdx (fun i spec =>
          (spec.name, k.base.nextSection (k.sections.length + i), k.sections.length + i + 1)),
        Bench.pool { k with sections := k.sections ++ specs.map (·.make #[] (some k.builder)) }) := by
  induction specs generalizing k acc with
  | nil =>
    rw [addSections, List.mapIdx_nil, List.map_nil, List.append_nil, List.append_nil]
    rfl
  | cons spec rest ih =>
    rw [addSections, Making.bind_eq_ok]
    refine ⟨_, _, Bench.addSection_eq spec, ?_⟩
    have more := ih { k with sections := k.sections ++ [spec.make #[] (some k.builder)] }
      ((spec.name, k.base.nextSection k.sections.length, k.sections.length + 1) :: acc)
    simpa [Bench.builder, List.mapIdx_cons, Nat.add_right_comm, ← Nat.add_assoc] using more

private theorem addSymbols_eq_ok {k : Bench} {sections : SectionNames} {l : List Symbol} {acc : Named SymbolId}
    {r : Named SymbolId × Pool} : addSymbols k.builder sections l acc k.pool = .ok r ↔
      ∃ made, List.Forall₂ (Symbol.Becomes sections) l made ∧
        (acc.reverse ++ l.mapIdx (fun i s => (s.name, k.base.nextSymbol (k.symbols.length + i))),
          Bench.pool { k with symbols := k.symbols ++ made }) = r := by
  induction l generalizing k acc with
  | nil =>
    simp only [List.forall₂_nil_left_iff, exists_eq_left, List.mapIdx_nil, List.append_nil]
    exact ⟨Except.ok.inj, congrArg Except.ok⟩
  | cons s rest ih =>
    have step (x : CoffWorks.Symbol) : addSymbols k.builder sections rest
        ((s.name, k.base.nextSymbol k.symbols.length) :: acc) (Bench.pool { k with symbols := k.symbols ++ [x] }) =
          .ok r ↔ ∃ made, List.Forall₂ (Symbol.Becomes sections) rest made ∧
        (acc.reverse ++ (s :: rest).mapIdx (fun i s => (s.name, k.base.nextSymbol (k.symbols.length + i))),
          Bench.pool { k with symbols := k.symbols ++ x :: made }) = r := by
      have more := @ih { k with symbols := k.symbols ++ [x] }
        ((s.name, k.base.nextSymbol k.symbols.length) :: acc)
      simpa [Bench.builder, List.mapIdx_cons, Nat.add_right_comm, ← Nat.add_assoc] using more
    rw [addSymbols, Making.attempt_bind_eq_ok]
    simp only [Making.bind_eq_ok, Bench.addSymbol_eq_ok]
    constructor
    · rintro ⟨spec, hs, _, _, ⟨x, settled, same⟩, more⟩
      obtain ⟨rfl, rfl⟩ := Prod.mk.inj same
      obtain ⟨made, others, result⟩ := (step x).mp more
      exact ⟨x :: made, .cons (Symbol.becomes_iff.mp ⟨spec, hs, settled⟩) others, result⟩
    · rintro ⟨_, all, result⟩
      cases all with
      | cons head others =>
        obtain ⟨spec, hs, settled⟩ := Symbol.becomes_iff.mpr head
        exact ⟨spec, hs, _, _, ⟨_, settled, rfl⟩, (step _).mpr ⟨_, others, result⟩⟩

/-- Relocations are added to a section that is on the bench, without touching the others. -/
private theorem addRelocations_eq_ok {k : Bench} {machine : Machine} {symbols : Named SymbolId} {i : Nat}
    {x : CoffWorks.Section} (here : k.sections[i]? = some x) (owned : x.owner = some k.builder) {path : List Bytes}
    {j : Nat} {l : List Relocation} {r : Unit × Pool} :
    addRelocations k.builder machine symbols (k.base.nextSection i) path j l k.pool = .ok r ↔
      ∃ rs, List.Forall₂ (Relocation.Becomes machine symbols) l rs ∧
        ((), Bench.pool { k with sections := k.sections.modify i (·.relocatedBy rs) }) = r := by
  induction l generalizing k x j with
  | nil =>
    simp only [List.forall₂_nil_left_iff, exists_eq_left, modify_relocatedBy_nil]
    exact ⟨Except.ok.inj, congrArg Except.ok⟩
  | cons e rest ih =>
    -- the section with the first relocation is again one of the builder
    have step (t : CoffWorks.Relocation) : addRelocations k.builder machine symbols (k.base.nextSection i) path (j + 1)
        rest (Bench.pool { k with sections := k.sections.modify i (·.relocated t) }) = .ok r ↔
          ∃ rs, List.Forall₂ (Relocation.Becomes machine symbols) rest rs ∧
            ((), Bench.pool { k with sections := k.sections.modify i (·.relocatedBy (t :: rs)) }) = r := by
      have next : (k.sections.modify i (·.relocated t))[i]? = some (x.relocated t) := by
        rw [List.getElem?_modify_eq, here]
        rfl
      have more := @ih { k with sections := k.sections.modify i (·.relocated t) } (x.relocated t) next owned (j + 1)
      simp only [List.modify_modify_eq, Function.comp_def, ← Section.relocatedBy_cons] at more
      exact more
    rw [addRelocations]
    cases first : symbols.first? e.symbol with
    | none =>
      refine iff_of_false (fun h => by cases h) ?_
      rintro ⟨_, all, -⟩
      cases all with
      | cons head _ => simp [head.symbol_eq] at first
    | some symbol =>
      simp only [Making.attempt_bind_eq_ok, readAt_eq_ok]
      constructor
      · rintro ⟨type, parsed, h⟩
        obtain ⟨_, _, added, more⟩ := Making.bind_eq_ok.mp h
        have added' := Bench.addRelocation_eq here owned ⟨symbol, e.offset, type⟩
        rw [added'] at added
        obtain ⟨-, rfl⟩ := Prod.mk.inj (Except.ok.inj added)
        obtain ⟨rs, others, result⟩ := (step _).mp more
        exact ⟨_ :: rs, .cons ⟨first, rfl, parsed⟩ others, result⟩
      · rintro ⟨_, all, result⟩
        cases all with
        | cons head others =>
          refine ⟨_, head.type_eq, Making.bind_eq_ok.mpr ⟨(), _, ?_, (step _).mpr ⟨_, others, result⟩⟩⟩
          have same := head.symbol_eq
          rw [first] at same
          rw [Option.some.inj same, head.address_eq]
          exact Bench.addRelocation_eq here owned _

theorem addAllRelocations_eq_ok {k : Bench} {machine : Machine} {symbols : Named SymbolId}
    {before : List CoffWorks.Section} {specs : List SectionSpec} {l : List Section}
    (hk : k.sections = before ++ specs.map (·.make #[] (some k.builder))) (hl : specs.length = l.length)
    {r : Unit × Pool} :
    addAllRelocations k.builder machine symbols l (specs.mapIdx fun i spec =>
        (spec.name, k.base.nextSection (before.length + i), before.length + i + 1)) k.pool = .ok r ↔
      ∃ rss, List.Forall₂ (Section.Becomes machine symbols) l rss ∧
        ((), Bench.pool { k with sections := before ++ makeSections k.builder specs rss }) = r := by
  induction specs generalizing k before l with
  | nil =>
    obtain rfl := List.length_eq_zero_iff.mp hl.symm
    simp only [List.forall₂_nil_left_iff, exists_eq_left, makeSections, List.zipWith_nil_left]
    rw [← List.map_nil (f := fun x : SectionSpec => x.make #[] (some k.builder)), ← hk]
    exact ⟨Except.ok.inj, congrArg Except.ok⟩
  | cons spec specs ih =>
    cases l with
    | nil => cases hl
    | cons s rest =>
      have here : k.sections[before.length]? = some (spec.make #[] (some k.builder)) := by
        simp [hk]
      -- what comes before the next section has this one as well
      have step (rs : List CoffWorks.Relocation) : addAllRelocations k.builder machine symbols rest
          (specs.mapIdx fun i spec =>
            (spec.name, k.base.nextSection (before.length + (i + 1)), before.length + (i + 1) + 1))
          (Bench.pool { k with sections := k.sections.modify before.length (·.relocatedBy rs) }) = .ok r ↔
            ∃ rss, List.Forall₂ (Section.Becomes machine symbols) rest rss ∧
              ((), Bench.pool { k with
                sections := before ++ makeSections k.builder (spec :: specs) (rs :: rss) }) = r := by
        have made : (spec.make #[] (some k.builder)).relocatedBy rs = spec.make rs.toArray (some k.builder) := by
          simp [Section.relocatedBy, SectionSpec.make]
        have next : k.sections.modify before.length (·.relocatedBy rs) =
            (before ++ [spec.make rs.toArray (some k.builder)]) ++ specs.map (·.make #[] (some k.builder)) := by
          rw [hk, List.map_cons, List.modify_eq_take_drop, List.take_left, List.drop_left, List.modifyHead_cons,
            made, List.append_assoc, List.singleton_append]
        have more := ih (k := { k with sections := k.sections.modify before.length (·.relocatedBy rs) }) next
          (Nat.succ.inj hl)
        simpa [makeSections, Bench.builder, Nat.add_assoc, Nat.add_comm 1] using more
      rw [List.mapIdx_cons, addAllRelocations, Making.bind_eq_ok]
      constructor
      · rintro ⟨_, _, added, more⟩
        obtain ⟨rs, first, same⟩ := (addRelocations_eq_ok here rfl).mp added
        obtain ⟨-, rfl⟩ := Prod.mk.inj same
        obtain ⟨rss, others, result⟩ := (step rs).mp more
        exact ⟨rs :: rss, .cons first others, result⟩
      · rintro ⟨_, all, result⟩
        cases all with
        | cons first others =>
          exact ⟨(), _, (addRelocations_eq_ok here rfl).mpr ⟨_, first, rfl⟩, (step _).mpr ⟨_, others, result⟩⟩

/-- The builder when all parts are made. -/
def bench (p : Pool) (machine : Machine) (flags : FileFlags) (specs : List SectionSpec)
    (rss : List (List CoffWorks.Relocation)) (symbols : List CoffWorks.Symbol) : Bench where
  base := p
  machine := machine
  flags := flags
  sections := makeSections ⟨p.builders.size⟩ specs rss
  symbols := symbols

/-- Assembling succeeds exactly if something can be made of each symbol and each relocation. -/
theorem assemble_eq_ok {x : Manifest} {machine : Machine} {flags : FileFlags} {specs : List SectionSpec}
    (hl : specs.length = x.sections.length) {p : Pool} {r : ObjectFile × Pool} :
    x.assemble machine flags specs p = .ok r ↔ ∃ rss made,
      List.Forall₂ (Section.Becomes machine (symbolNames p x.symbols)) x.sections rss ∧
      List.Forall₂ (Symbol.Becomes (sectionNames p specs)) x.symbols made ∧
      ((bench p machine flags specs rss made).file, (bench p machine flags specs rss made).delivered) = r := by
  let k₀ : Bench := { base := p, machine, flags }
  let k₁ : Bench := { k₀ with sections := specs.map (·.make #[] (some k₀.builder)) }
  have sections : addSections k₀.builder 1 specs [] k₀.pool = .ok (sectionNames p specs, k₁.pool) := by
    have added := addSections_eq k₀ specs []
    simpa [k₀, k₁, sectionNames] using added
  have symbols {s : Named SymbolId × Pool} :
      addSymbols k₁.builder (sectionNames p specs) x.symbols [] k₁.pool = .ok s ↔
        ∃ made, List.Forall₂ (Symbol.Becomes (sectionNames p specs)) x.symbols made ∧
          (symbolNames p x.symbols, Bench.pool { k₁ with symbols := made }) = s := by
    rw [addSymbols_eq_ok]
    simp [k₀, k₁, symbolNames]
  have relocations (made : List CoffWorks.Symbol) {s : Unit × Pool} :
      addAllRelocations k₁.builder machine (symbolNames p x.symbols) x.sections (sectionNames p specs)
          (Bench.pool { k₁ with symbols := made }) = .ok s ↔
        ∃ rss, List.Forall₂ (Section.Becomes machine (symbolNames p x.symbols)) x.sections rss ∧
          ((), (bench p machine flags specs rss made).pool) = s := by
    have all := @addAllRelocations_eq_ok { k₁ with symbols := made } machine (symbolNames p x.symbols) [] specs
      x.sections rfl hl s
    simpa [sectionNames, bench, k₀, k₁, Bench.builder] using all
  rw [assemble, Making.bind_eq_ok]
  constructor
  · rintro ⟨_, _, opened, h⟩
    obtain ⟨rfl, rfl⟩ := Prod.mk.inj (Except.ok.inj ((Bench.newBuilder_eq p machine flags).symm.trans opened))
    obtain ⟨_, _, added, h⟩ := Making.bind_eq_ok.mp h
    obtain ⟨rfl, rfl⟩ := Prod.mk.inj (Except.ok.inj (sections.symm.trans added))
    obtain ⟨_, _, added, h⟩ := Making.bind_eq_ok.mp h
    obtain ⟨made, becomes, same⟩ := symbols.mp added
    obtain ⟨rfl, rfl⟩ := Prod.mk.inj same
    obtain ⟨_, _, added, h⟩ := Making.bind_eq_ok.mp h
    obtain ⟨rss, becomes', same⟩ := (relocations made).mp added
    obtain ⟨-, rfl⟩ := Prod.mk.inj same
    exact ⟨rss, made, becomes', becomes, Except.ok.inj (Bench.build_eq.symm.trans h)⟩
  · rintro ⟨rss, made, becomes', becomes, rfl⟩
    refine ⟨_, _, Bench.newBuilder_eq p machine flags, Making.bind_eq_ok.mpr ⟨_, _, sections, ?_⟩⟩
    refine Making.bind_eq_ok.mpr ⟨_, _, symbols.mpr ⟨made, becomes, rfl⟩, ?_⟩
    exact Making.bind_eq_ok.mpr ⟨(), _, (relocations made).mpr ⟨rss, becomes', rfl⟩, Bench.build_eq⟩

end CoffWorks.Manifest
