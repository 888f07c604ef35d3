import CoffWorks.Proofs.InPlace
import CoffWorks.Proofs.Object.Alike
import CoffWorks.Proofs.Object.Workshop

namespace CoffWorks

namespace Making

/-- The builder that an action works on. -/
def Action.builder? : Action → Option BuilderId
  | addSection b _ => some b
  | addSymbol b _ => some b
  | addRelocation b _ _ => some b
  | build b => some b
  | _ => none

/-- A sealed builder may do nothing more. -/
def checking (b : BuilderId) (operation : Bytes) : InPlace Pool Unit := do
  if ((← get).getBuilder b).isSealed then
    throw (.fault (.invalidInput .construct (operation ++ " after Build")))

/-- An action step by step on a pool that is changed in place. -/
def Action.steps : Action → InPlace Pool (Option ObjectFile)
  | newSection spec relocations => do
    let rs ← settleRelocations spec.name 0 #[] relocations
    modify (·.pushSection (spec.make rs none))
    return none
  | newSymbol spec => do
    let x ← settleSymbol spec
    modify (·.pushSymbol x)
    return none
  | newBuilder machine flags => do
    modify (·.pushBuilder { machine, flags })
    return none
  | addSection b spec => do
    checking b "AddSection"
    let s : SectionId := ⟨(← get).sections.size⟩
    modify (·.pushSection (spec.make #[] (some b)))
    modify (·.changeBuilder b fun x => { x with sections := x.sections.push s })
    return none
  | addSymbol b spec => do
    checking b "AddSymbol"
    let x ← settleSymbol spec
    let y : SymbolId := ⟨(← get).symbols.size⟩
    modify (·.pushSymbol x)
    modify (·.changeBuilder b fun z => { z with symbols := z.symbols.push y })
    return none
  | addRelocation b s r => do
    checking b "AddRelocation"
    match s with
    | none => throw (.fault (.nilPointer .construct ["relocation"] "section"))
    | some s =>
      let x := (← get).getSection s
      if x.owner ≠ some b then
        throw (.fault (.invalidInput .construct ("section " ++ x.name ++ " was not created by this builder")))
      match r.symbol with
      | none => throw (.fault (.nilPointer .construct ["section " ++ x.name, "relocation"] "symbol"))
      | some symbol =>
        modify (·.changeSection s (·.relocated ⟨symbol, r.address, r.type⟩))
        return none
  | build b => do
    checking b "Build"
    let x := (← get).getBuilder b
    modify (·.changeBuilder b fun x => { x with isSealed := true })
    modify (x.sections.foldl release ·)
    return some { machine := x.machine, flags := x.flags, sections := x.sections, symbols := x.symbols }
  | create machine flags sections symbols => do
    return some (← ObjectFile.create machine flags sections symbols)
  | ofCode code => do
    let s : SectionId := ⟨(← get).sections.size⟩
    modify (·.pushSection { name := "code", data := code, flags := .execute ||| .read ||| .code })
    return some { machine := .i386, sections := #[s] }

private theorem perform_checking_bind {α : Type} {p : Pool} {b : BuilderId} (operation : Bytes)
    {steps : InPlace Pool α} {next : Making α}
    (h : ¬ (p.getBuilder b).isSealed → steps.perform p = InPlace.keep p (next p)) :
    (do checking b operation; steps).perform p = InPlace.keep p ((do checkOpen b operation; next) p) := by
  by_cases closed : (p.getBuilder b).isSealed
  · simp [checking, checkOpen_bind_of_sealed closed, closed, reject]
  · simp [checking, checkOpen_bind_of_open closed, closed, h closed]

/-- An action that fails changes nothing: all that it checks comes before all that it changes. -/
theorem Action.perform_steps (p : Pool) (a : Action) : a.steps.perform p = InPlace.keep p (a.perform p) := by
  cases a with
  | newSection spec relocations =>
    rw [steps, perform, Making.newSection, InPlace.perform_bind, InPlace.perform_attempt]
    cases settleRelocations spec.name 0 #[] relocations <;> rfl
  | newSymbol spec =>
    rw [steps, perform, Making.newSymbol, InPlace.perform_bind, InPlace.perform_attempt]
    cases settleSymbol spec <;> rfl
  | newBuilder machine flags => rfl
  | addSection b spec =>
    rw [steps, perform, Making.addSection]
    simp only [bind_assoc]
    exact perform_checking_bind _ fun _ => rfl
  | addSymbol b spec =>
    rw [steps, perform, Making.addSymbol, Making.newSymbol]
    simp only [bind_assoc]
    refine perform_checking_bind _ fun _ => ?_
    rw [InPlace.perform_bind, InPlace.perform_attempt]
    cases settleSymbol spec <;> rfl
  | addRelocation b s r =>
    rw [steps.eq_def, perform, Making.addRelocation.eq_def]
    simp only [bind_assoc]
    refine perform_checking_bind _ fun _ => ?_
    cases s with
    | none => rfl
    | some s =>
      dsimp only
      rw [InPlace.perform_bind, InPlace.perform_get, InPlace.andThen_ok]
      change _ = InPlace.keep p ((if (p.getSection s).owner ≠ some b then _ else _ : Making Unit) p >>= _)
      by_cases owned : (p.getSection s).owner = some b
      · rw [if_neg (not_not_intro owned), if_neg (not_not_intro owned)]
        cases r.symbol <;> rfl
      · rw [if_pos owned, if_pos owned]
        rfl
  | build b =>
    rw [steps, perform, Making.build]
    simp only [bind_assoc]
    exact perform_checking_bind _ fun _ => rfl
  | create machine flags sections symbols =>
    rw [steps, perform, InPlace.perform_bind, InPlace.perform_attempt]
    cases ObjectFile.create machine flags sections symbols <;> rfl
  | ofCode code => rfl

/-- Whatever is done with a builder starts with the question whether it is sealed. -/
theorem Action.perform_eq_check {a : Action} {b : BuilderId} (on : a.builder? = some b) :
    ∃ operation next, a.perform = (do checkOpen b operation; next) := by
  cases a with
  | addSection b spec =>
    cases on
    exact ⟨"AddSection", _, by rw [perform, Making.addSection]; simp only [bind_assoc]; rfl⟩
  | addSymbol b spec =>
    cases on
    exact ⟨"AddSymbol", _, by rw [perform, Making.addSymbol]; simp only [bind_assoc]; rfl⟩
  | addRelocation b s r =>
    cases on
    exact ⟨"AddRelocation", _, by rw [perform, Making.addRelocation.eq_def]; simp only [bind_assoc]; rfl⟩
  | build b =>
    cases on
    exact ⟨"Build", _, by rw [perform, Making.build]; simp only [bind_assoc]; rfl⟩
  | _ => cases on

/-- A sealed builder refuses everything. -/
theorem Action.perform_of_sealed {p : Pool} {b : BuilderId} (closed : (p.getBuilder b).isSealed) {a : Action}
    (on : a.builder? = some b) : ∃ fault : Fault, a.perform p = .error (.fault fault) ∧
      fault.phase = .construct ∧ fault.kind = .invalidInput := by
  obtain ⟨operation, next, eq⟩ := perform_eq_check on
  exact ⟨_, by rw [eq, checkOpen_bind_of_sealed closed]; rfl, rfl, rfl⟩

end Making

/-- The builder `b` has handed out the file `f` when the pool was `q`, and now it is `p`. -/
structure ObjectFile.Frozen (f : ObjectFile) (b : BuilderId) (q p : Pool) : Prop where
  refused : ∀ a : Making.Action, a.builder? = some b → ∃ fault : Fault,
    a.perform p = .error (.fault fault) ∧ fault.phase = .construct ∧ fault.kind = .invalidInput
  /-- The builder keeps the lists that it shares with the file. -/
  sections_eq : (p.getBuilder b).sections = f.sections
  symbols_eq : (p.getBuilder b).symbols = f.symbols
  sectionList_eq : f.sectionList p = f.sectionList q
  symbolList_eq : f.symbolList p = f.symbolList q
  bytes_eq : (∀ x ∈ f.symbolList q, ∀ a ∈ x.aux, ∀ s ∈ a.target?, s ∈ f.sections) → f.bytes p = f.bytes q

namespace ObjectFile

variable {f : ObjectFile} {b : BuilderId} {p q r : Pool}

private theorem sectionList_congr (h : ∀ s ∈ f.sections, p.getSection s = q.getSection s) :
    f.sectionList p = f.sectionList q :=
  List.map_congr_left fun s hs => h s (Array.mem_toList_iff.mp hs)

private theorem symbolList_congr (h : ∀ y ∈ f.symbols, p.getSymbol y = q.getSymbol y) :
    f.symbolList p = f.symbolList q :=
  List.map_congr_left fun y hy => h y (Array.mem_toList_iff.mp hy)

/-- A file whose content stays is written in the same way, if the sections that it describes are its own. -/
theorem alike_of_grows (grows : q.Grows p) (linked : q.Linked)
    (sections : ∀ s ∈ f.sections, p.getSection s = q.getSection s) (symbols : ∀ y ∈ f.symbols, q.HasSymbol y)
    (own : ∀ x ∈ f.symbolList q, ∀ a ∈ x.aux, ∀ s ∈ a.target?, s ∈ f.sections) : f.Alike p f q where
  machine_eq := rfl
  flags_eq := rfl
  sections_alike := by
    rw [sectionList_congr sections]
    exact List.forall₂_same.mpr fun x _ => ⟨rfl, rfl, rfl, rfl, List.forall₂_same.mpr fun r _ => ⟨rfl, rfl, rfl⟩⟩
  symbols_alike := by
    rw [symbolList_congr fun y hy => grows.getSymbol_eq (symbols y hy)]
    refine List.forall₂_same.mpr fun x hx => ⟨rfl, rfl, rfl, rfl, ?_, List.forall₂_same.mpr fun a ha => ?_⟩
    · -- the name of the owner is all that is read of it
      obtain ⟨y, hy, rfl⟩ := List.mem_map.mp hx
      have known := symbols y (Array.mem_toList_iff.mp hy)
      cases owner : (q.getSymbol y).owner with
      | none => exact .none
      | some s =>
        have mem := Pool.getSymbol_mem known
        have refers : s ∈ (q.getSymbol y).references := by simp [Symbol.references, owner]
        exact .some ⟨grows.name_eq (linked.references _ mem s refers), rfl⟩
    · cases a with
      | definition target number =>
        cases target with
        | none => exact .undefined number
        | some s =>
          have same := sections s (own x hx _ ha s rfl)
          exact .definition number (by rw [same]) (by rw [same])
      | fileName piece => exact .fileName piece
      | unknown => exact .unknown

/-- Pools only grow, and what they have of the file stays. -/
theorem frozen_of_build (linked : p.Linked) (known : p.HasBuilder b) (built : Making.build b p = .ok (f, q))
    (grows : q.Grows r) : f.Frozen b q r := by
  obtain ⟨opened, made⟩ := Making.build_eq_ok.mp built
  change (_, p.deliver b (p.getBuilder b).sections) = _ at made
  obtain ⟨rfl, rfl⟩ := Prod.mk.inj made
  have before : p.Grows (p.deliver b (p.getBuilder b).sections) := .deliver opened _
  have builder : r.getBuilder b = { p.getBuilder b with isSealed := true } := by
    have closed := p.getBuilder_deliver b b (p.getBuilder b).sections
    rw [if_pos ⟨rfl, known⟩] at closed
    rw [grows.getBuilder_eq (before.hasBuilder known) (by rw [closed]), closed]
  have sections : ∀ s ∈ (p.getBuilder b).sections,
      r.getSection s = (p.deliver b (p.getBuilder b).sections).getSection s := by
    intro s hs
    refine grows.getSection_eq (before.hasSection (linked.hasSection b s hs)) ?_
    rw [Pool.getSection_deliver, if_pos hs]
    rfl
  have symbols : ∀ y ∈ (p.getBuilder b).symbols, (p.deliver b (p.getBuilder b).sections).HasSymbol y :=
    fun y hy => before.hasSymbol (linked.hasSymbol b y hy)
  exact {
    refused := fun a on => Making.Action.perform_of_sealed (by rw [builder]) on
    sections_eq := by rw [builder]
    symbols_eq := by rw [builder]
    sectionList_eq := sectionList_congr sections
    symbolList_eq := symbolList_congr fun y hy => grows.getSymbol_eq (symbols y hy)
    bytes_eq := fun own => (alike_of_grows grows (linked.deliver opened known) sections symbols own).bytes_eq }

end ObjectFile

namespace Workshop

/-- What holds after actions on any number of builders. -/
structure Orderly (actions : List Making.Action) : Prop where
  frozen : ∀ {before b later f q}, actions = before ++ .build b :: later →
    Making.build b (run before).pool = .ok (f, q) → f.Frozen b q (run actions).pool
  steps_eq : ∀ a : Making.Action, a.steps.perform (run actions).pool =
    InPlace.keep (run actions).pool (a.perform (run actions).pool)
  failure_keeps : ∀ (a : Making.Action) (e : Failure), (a.steps.perform (run actions).pool).1 = .error e →
    (a.steps.perform (run actions).pool).2 = (run actions).pool
  addRelocation_iff : ∀ {b s r q}, Making.addRelocation b s r (run actions).pool = .ok ((), q) ↔
    ¬ ((run actions).pool.getBuilder b).isSealed ∧ ∃ id symbol, s = some id ∧ Made b id {} actions ∧
      r.symbol = some symbol ∧
      q = (run actions).pool.changeSection id (·.relocated ⟨symbol, r.address, r.type⟩)

/-- A section has its builder as owner just if that builder made it and is not sealed. -/
theorem owner_eq_iff_made {actions : List Making.Action} (proper : Proper {} actions) {b : BuilderId}
    (opened : ¬ ((run actions).pool.getBuilder b).isSealed) (s : SectionId) :
    ((run actions).pool.getSection s).owner = some b ↔ Made b s {} actions := by
  have linked : (run actions).pool.Linked := linked_after .empty proper
  have none : s ∉ (Pool.getBuilder {} b).sections := by simp [Pool.getBuilder]
  rw [linked.owner_iff, and_iff_right opened, run, ← after, mem_sections_after proper, or_iff_left none]

/-- Files stay as they were built, in every run. -/
theorem orderly_of_proper (actions : List Making.Action) (proper : Proper {} actions) : Orderly actions where
  frozen := by
    rintro before b later f q rfl built
    obtain ⟨proper, known, -⟩ := proper_append.mp proper
    have linked : (run before).pool.Linked := linked_after .empty proper
    have step : ((run before).step (.build b)).pool = q := by
      have done : (Making.Action.build b).perform (run before).pool = .ok (some f, q) :=
        Making.bind_eq_ok.mpr ⟨f, q, built, rfl⟩
      rw [step, done]
    have rest := ((run before).step (.build b)).grows_after later
    rw [step] at rest
    refine ObjectFile.frozen_of_build linked known built ?_
    rwa [run, List.foldl_append, List.foldl_cons, ← run, ← after]
  steps_eq a := a.perform_steps _
  failure_keeps a e failed := by
    rw [a.perform_steps] at failed ⊢
    cases done : a.perform (run actions).pool with
    | error e => rfl
    | ok r =>
      rw [done] at failed
      cases failed
  addRelocation_iff := by
    intro b s r q
    rw [Making.addRelocation_eq_ok]
    refine and_congr_right fun opened => ?_
    simp only [owner_eq_iff_made proper opened, Prod.mk.injEq, true_and]
    constructor
    · rintro ⟨id, symbol, rfl, made, named, rfl⟩
      exact ⟨id, symbol, rfl, made, named, rfl⟩
    · rintro ⟨id, symbol, rfl, made, named, rfl⟩
      exact ⟨id, symbol, rfl, made, named, rfl⟩

/-- A builder makes a file of one section. -/
def firstActions : List Making.Action := [
  .newBuilder .i386 ⟨0⟩,
  .addSection ⟨0⟩ { name := ".text", data := ⟨#[232, 0, 0, 0, 0]⟩ },
  .addSymbol ⟨0⟩ { name := ".text", owner := some ⟨0⟩, aux := [some (.definition (some ⟨0⟩) 1)] },
  .addRelocation ⟨0⟩ (some ⟨0⟩) { symbol := some ⟨0⟩, address := 1 }]

/-- The first builder tries to go on, and another one to change the section that is not its own. -/
def laterActions : List Making.Action := [
  .newBuilder .i386 ⟨0⟩,
  .addSection ⟨1⟩ { name := ".data" },
  .addRelocation ⟨1⟩ (some ⟨0⟩) { symbol := some ⟨0⟩ },
  .addSection ⟨0⟩ { name := ".bss" }]

/-- The file is the same after all attempts, and the other builder is refused. -/
theorem orderly_of_proper_two : ∃ f q, Making.build ⟨0⟩ (run firstActions).pool = .ok (f, q) ∧
    f.bytes (run (firstActions ++ .build ⟨0⟩ :: laterActions)).pool = f.bytes q ∧
    ∃ r, Making.addRelocation ⟨1⟩ (some ⟨1⟩) { symbol := some ⟨0⟩ }
      (run (firstActions ++ .build ⟨0⟩ :: laterActions)).pool = .ok ((), r) := by
  have proper : Proper {} (firstActions ++ .build ⟨0⟩ :: laterActions) := by decide +kernel
  have opened : ¬ ((run (firstActions ++ .build ⟨0⟩ :: laterActions)).pool.getBuilder ⟨1⟩).isSealed := by
    decide +kernel
  have made : Made ⟨1⟩ ⟨1⟩ {} (firstActions ++ .build ⟨0⟩ :: laterActions) :=
    .inr (.inr (.inr (.inr (.inr (.inr (.inl ⟨_, _, rfl, rfl⟩))))))
  have built : Making.build ⟨0⟩ (run firstActions).pool =
      .ok ({ machine := .i386, sections := #[⟨0⟩], symbols := #[⟨0⟩] },
        (run (firstActions ++ [.build ⟨0⟩])).pool) := rfl
  have safe := orderly_of_proper _ proper
  exact ⟨_, _, built, (safe.frozen rfl built).bytes_eq (by decide +kernel),
    _, safe.addRelocation_iff.mpr ⟨opened, _, _, rfl, made, rfl, rfl⟩⟩

end Workshop

end CoffWorks
