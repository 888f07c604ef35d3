import CoffWorks.Proofs.Object.Encode

namespace CoffWorks

/-- The section that is asked for, with its relocations and the builder it belongs to. -/
def SectionSpec.make (spec : SectionSpec) (relocations : Array Relocation) (owner : Option BuilderId) :
    Section :=
  { name := spec.name, data := spec.data, address := spec.address, flags := spec.flags, relocations, owner }

/-- The section with one more relocation. -/
def Section.relocated (x : Section) (r : Relocation) : Section :=
  { x with relocations := x.relocations.push r }

namespace Making

theorem refuse_eq {α : Type} (f : Fault) (p : Pool) : (refuse f : Making α) p = reject f := rfl

private theorem checkOpen_eq (b : BuilderId) (operation : Bytes) (p : Pool) : checkOpen b operation p =
    if (p.getBuilder b).isSealed then reject (.invalidInput .construct (operation ++ " after Build"))
    else .ok ((), p) := by
  change (if _ then _ else _ : Making Unit) p = _
  split <;> rfl

theorem checkOpen_bind_of_sealed {α : Type} {b : BuilderId} {p : Pool} (h : (p.getBuilder b).isSealed)
    (operation : Bytes) (next : Making α) : (do checkOpen b operation; next) p =
      reject (.invalidInput .construct (operation ++ " after Build")) := by
  change (checkOpen b operation p >>= fun x => next x.2) = _
  rw [checkOpen_eq, if_pos h]
  rfl

theorem checkOpen_bind_of_open {α : Type} {b : BuilderId} {p : Pool} (h : ¬ (p.getBuilder b).isSealed)
    (operation : Bytes) (next : Making α) : (do checkOpen b operation; next) p = next p := by
  change (checkOpen b operation p >>= fun x => next x.2) = _
  rw [checkOpen_eq, if_neg h]
  rfl

/-- Nothing is done with a sealed builder. -/
theorem checkOpen_bind_eq_ok {α : Type} {b : BuilderId} {operation : Bytes} {next : Making α} {p : Pool}
    {r : α × Pool} : (do checkOpen b operation; next) p = .ok r ↔
      ¬ (p.getBuilder b).isSealed ∧ next p = .ok r := by
  by_cases closed : (p.getBuilder b).isSealed
  · simp [checkOpen_bind_of_sealed closed, closed, reject]
  · simp [checkOpen_bind_of_open closed, closed]

/-- No record may be absent. -/
theorem settleAux_eq_ok {name : Bytes} {i : Nat} {l : List (Option Aux)} {r : List Aux} :
    settleAux name i l = .ok r ↔ l = r.map some := by
  induction l generalizing i r with
  | nil => cases r <;> simp [settleAux]
  | cons a rest ih =>
    cases a with
    | none => cases r <;> simp [settleAux, reject]
    | some a => cases r <;> simp [settleAux, Attempt.map_eq_ok, ih, and_comm]

/-- A symbol is settled if none of its records is absent and they are not too many. -/
theorem settleSymbol_eq_ok {spec : SymbolSpec} {x : Symbol} :
    settleSymbol spec = .ok x ↔ ∃ aux, spec.aux = aux.map some ∧ aux.length ≤ maxAux ∧
      { name := spec.name, owner := spec.owner, value := spec.value, type := spec.type,
        storageClass := spec.storageClass, aux } = x := by
  unfold settleSymbol
  by_cases many : spec.aux.length > maxAux
  · rw [if_pos many]
    refine iff_of_false (by simp [reject, bind, Except.bind]) ?_
    rintro ⟨aux, records, few, -⟩
    rw [records, List.length_map] at many
    omega
  · rw [if_neg many]
    change (settleAux spec.name 0 spec.aux >>= _) = _ ↔ _
    simp only [Attempt.bind_eq_ok, settleAux_eq_ok]
    constructor
    · rintro ⟨aux, records, h⟩
      refine ⟨aux, records, ?_, Except.ok.inj h⟩
      rwa [records, List.length_map, Nat.not_lt] at many
    · rintro ⟨aux, records, -, h⟩
      exact ⟨aux, records, congrArg Except.ok h⟩

private theorem newSection_eq_ok {spec : SectionSpec} {relocations : List RelocationSpec} {p : Pool}
    {r : SectionId × Pool} : newSection spec relocations p = .ok r ↔
      ∃ rs, settleRelocations spec.name 0 #[] relocations = .ok rs ∧
        (⟨p.sections.size⟩, { p with sections := p.sections.push (spec.make rs none) }) = r := by
  change (settleRelocations spec.name 0 #[] relocations >>= fun rs => .ok (rs, p)) >>= _ = _ ↔ _
  cases settleRelocations spec.name 0 #[] relocations with
  | error e => simp [bind, Except.bind]
  | ok rs => simp [bind, Except.bind, placeSection, SectionSpec.make]

private theorem newSymbol_eq_ok {spec : SymbolSpec} {p : Pool} {r : SymbolId × Pool} :
    newSymbol spec p = .ok r ↔ ∃ x, settleSymbol spec = .ok x ∧
      (⟨p.symbols.size⟩, { p with symbols := p.symbols.push x }) = r := by
  change (settleSymbol spec >>= fun x => .ok (x, p)) >>= _ = _ ↔ _
  cases settleSymbol spec with
  | error e => simp [bind, Except.bind]
  | ok x => simp [bind, Except.bind, placeSymbol]

/-- A symbol can be made with any records, if they are not too many. -/
theorem exists_newSymbol {spec : SymbolSpec} {aux : List Aux} (records : spec.aux = aux.map some)
    (few : aux.length ≤ maxAux) (p : Pool) :
    ∃ id q, newSymbol spec p = .ok (id, q) ∧ (q.getSymbol id).aux = aux := by
  have settled := settleSymbol_eq_ok.mpr ⟨aux, records, few, rfl⟩
  refine ⟨_, _, newSymbol_eq_ok.mpr ⟨_, settled, rfl⟩, ?_⟩
  simp [Pool.getSymbol]

theorem addSection_eq_ok {b : BuilderId} {spec : SectionSpec} {p : Pool} {r : SectionId × Pool} :
    addSection b spec p = .ok r ↔ ¬ (p.getBuilder b).isSealed ∧ (⟨p.sections.size⟩,
      { p with sections := p.sections.push (spec.make #[] (some b))
               builders := p.builders.modify b.index fun x =>
                 { x with sections := x.sections.push ⟨p.sections.size⟩ } }) = r := by
  rw [addSection, checkOpen_bind_eq_ok]
  exact and_congr_right fun _ => ⟨Except.ok.inj, congrArg Except.ok⟩

theorem addSymbol_eq_ok {b : BuilderId} {spec : SymbolSpec} {p : Pool} {r : SymbolId × Pool} :
    addSymbol b spec p = .ok r ↔ ¬ (p.getBuilder b).isSealed ∧ ∃ x, settleSymbol spec = .ok x ∧
      (⟨p.symbols.size⟩,
        { p with symbols := p.symbols.push x
                 builders := p.builders.modify b.index fun x =>
                   { x with symbols := x.symbols.push ⟨p.symbols.size⟩ } }) = r := by
  rw [addSymbol, checkOpen_bind_eq_ok]
  apply and_congr_right
  intro _
  change (newSymbol spec p >>= _) = .ok r ↔ _
  simp only [Attempt.bind_eq_ok, newSymbol_eq_ok]
  constructor
  · rintro ⟨_, ⟨x, hx, rfl⟩, h⟩
    exact ⟨x, hx, Except.ok.inj h⟩
  · rintro ⟨x, hx, h⟩
    exact ⟨_, ⟨x, hx, rfl⟩, congrArg Except.ok h⟩

private theorem addRelocation_some {p : Pool} {b : BuilderId} (opened : ¬ (p.getBuilder b).isSealed) (s : SectionId)
    (r : RelocationSpec) : addRelocation b (some s) r p =
      if (p.getSection s).owner ≠ some b then
        reject (.invalidInput .construct ("section " ++ (p.getSection s).name ++ " was not created by this builder"))
      else match r.symbol with
        | none => reject (.nilPointer .construct ["section " ++ (p.getSection s).name, "relocation"] "symbol")
        | some symbol => .ok ((),
            { p with sections := p.sections.modify s.index (·.relocated ⟨symbol, r.address, r.type⟩) }) := by
  rw [addRelocation, checkOpen_bind_of_open opened]
  change (if (p.getSection s).owner ≠ some b then _ else _ : Making Unit) p = _
  split
  · rfl
  · cases r.symbol <;> rfl

/-- A relocation needs a symbol and a section that belongs to the builder. -/
theorem addRelocation_eq_ok {b : BuilderId} {s : Option SectionId} {r : RelocationSpec} {p : Pool}
    {q : Unit × Pool} : addRelocation b s r p = .ok q ↔ ¬ (p.getBuilder b).isSealed ∧
      ∃ id symbol, s = some id ∧ (p.getSection id).owner = some b ∧ r.symbol = some symbol ∧
        ((), { p with sections := p.sections.modify id.index (·.relocated ⟨symbol, r.address, r.type⟩) }) = q := by
  by_cases closed : (p.getBuilder b).isSealed
  · rw [addRelocation.eq_def, checkOpen_bind_eq_ok]
    simp [closed]
  · cases s with
    | none =>
      rw [addRelocation, checkOpen_bind_of_open closed]
      simp [refuse_eq, reject]
    | some s =>
      rw [addRelocation_some closed]
      by_cases owned : (p.getSection s).owner = some b
      · cases r.symbol <;> simp [closed, owned, reject]
      · simp [owned, reject]

/-- The file has what the builder made, which is sealed then. -/
theorem build_eq_ok {b : BuilderId} {p : Pool} {r : ObjectFile × Pool} :
    build b p = .ok r ↔ ¬ (p.getBuilder b).isSealed ∧
      ({ machine := (p.getBuilder b).machine, flags := (p.getBuilder b).flags,
         sections := (p.getBuilder b).sections, symbols := (p.getBuilder b).symbols },
        (p.getBuilder b).sections.foldl release
          { p with builders := p.builders.modify b.index fun x => { x with isSealed := true } }) = r := by
  rw [build, checkOpen_bind_eq_ok]
  exact and_congr_right fun _ => ⟨Except.ok.inj, congrArg Except.ok⟩

/-- Something that a user of the library can do. -/
inductive Action where
  | newSection (spec : SectionSpec) (relocations : List RelocationSpec)
  | newSymbol (spec : SymbolSpec)
  | newBuilder (machine : Machine) (flags : FileFlags)
  | addSection (b : BuilderId) (spec : SectionSpec)
  | addSymbol (b : BuilderId) (spec : SymbolSpec)
  | addRelocation (b : BuilderId) (s : Option SectionId) (r : RelocationSpec)
  | build (b : BuilderId)
  | create (machine : Machine) (flags : FileFlags) (sections : List (Option SectionId))
      (symbols : List (Option SymbolId))
  | ofCode (code : Bytes)

/-- Do it; some actions give a file. -/
def Action.perform : Action → Making (Option ObjectFile)
  | newSection spec relocations => do let _ ← Making.newSection spec relocations; return none
  | newSymbol spec => do let _ ← Making.newSymbol spec; return none
  | newBuilder machine flags => do let _ ← Making.newBuilder machine flags; return none
  | addSection b spec => do let _ ← Making.addSection b spec; return none
  | addSymbol b spec => do let _ ← Making.addSymbol b spec; return none
  | addRelocation b s r => do Making.addRelocation b s r; return none
  | build b => do return some (← Making.build b)
  | create machine flags sections symbols => do
    return some (← ObjectFile.create machine flags sections symbols)
  | ofCode code => do return some (← ObjectFile.ofCode code)

end Making

namespace Pool

variable (p : Pool)

def pushSection (x : Section) : Pool := { p with sections := p.sections.push x }

def pushSymbol (x : Symbol) : Pool := { p with symbols := p.symbols.push x }

def pushBuilder (x : Builder) : Pool := { p with builders := p.builders.push x }

def changeSection (s : SectionId) (f : Section → Section) : Pool :=
  { p with sections := p.sections.modify s.index f }

def changeBuilder (b : BuilderId) (f : Builder → Builder) : Pool :=
  { p with builders := p.builders.modify b.index f }

/-- The pool after a builder was sealed and let go of the sections. -/
def deliver (b : BuilderId) (sections : Array SectionId) : Pool :=
  sections.foldl Making.release (p.changeBuilder b fun x => { x with isSealed := true })

end Pool

namespace Making.Action

/-- What an action that succeeds does. -/
inductive Effect (p : Pool) : Action → Option ObjectFile → Pool → Prop where
  | newSection (spec : SectionSpec) (relocations : List RelocationSpec) (rs : Array Relocation) :
      Effect p (.newSection spec relocations) none (p.pushSection (spec.make rs none))
  | newSymbol {spec : SymbolSpec} {x : Symbol} (settled : settleSymbol spec = .ok x) :
      Effect p (.newSymbol spec) none (p.pushSymbol x)
  | newBuilder (machine : Machine) (flags : FileFlags) :
      Effect p (.newBuilder machine flags) none (p.pushBuilder { machine, flags })
  | addSection {b : BuilderId} (opened : ¬ (p.getBuilder b).isSealed) (spec : SectionSpec) :
      Effect p (.addSection b spec) none ((p.pushSection (spec.make #[] (some b))).changeBuilder b fun x =>
        { x with sections := x.sections.push ⟨p.sections.size⟩ })
  | addSymbol {b : BuilderId} {spec : SymbolSpec} {x : Symbol} (opened : ¬ (p.getBuilder b).isSealed)
      (settled : settleSymbol spec = .ok x) :
      Effect p (.addSymbol b spec) none ((p.pushSymbol x).changeBuilder b fun x =>
        { x with symbols := x.symbols.push ⟨p.symbols.size⟩ })
  | addRelocation {b : BuilderId} {s : SectionId} {r : RelocationSpec} {symbol : SymbolId}
      (opened : ¬ (p.getBuilder b).isSealed) (owned : (p.getSection s).owner = some b)
      (named : r.symbol = some symbol) :
      Effect p (.addRelocation b (some s) r) none
        (p.changeSection s (·.relocated ⟨symbol, r.address, r.type⟩))
  | build {b : BuilderId} (opened : ¬ (p.getBuilder b).isSealed) :
      Effect p (.build b)
        (some { machine := (p.getBuilder b).machine, flags := (p.getBuilder b).flags,
                sections := (p.getBuilder b).sections, symbols := (p.getBuilder b).symbols })
        (p.deliver b (p.getBuilder b).sections)
  | create {machine : Machine} {flags : FileFlags} {sections : List (Option SectionId)}
      {symbols : List (Option SymbolId)} (file : ObjectFile) :
      Effect p (.create machine flags sections symbols) (some file) p
  | ofCode {code : Bytes} (file : ObjectFile) (x : Section) (free : x.owner = none) :
      Effect p (.ofCode code) (some file) (p.pushSection x)

/-- An action that succeeds has one of the effects, case by case over the actions. -/
theorem effect_of_perform {p q : Pool} {a : Action} {file : Option ObjectFile}
    (done : a.perform p = .ok (file, q)) : a.Effect p file q := by
  cases a with
  | newSection spec relocations =>
    obtain ⟨_, made, ret⟩ := Attempt.bind_eq_ok.mp done
    obtain ⟨rs, -, rfl⟩ := Making.newSection_eq_ok.mp made
    cases ret
    exact .newSection spec relocations rs
  | newSymbol spec =>
    obtain ⟨_, made, ret⟩ := Attempt.bind_eq_ok.mp done
    obtain ⟨x, settled, rfl⟩ := Making.newSymbol_eq_ok.mp made
    cases ret
    exact .newSymbol settled
  | newBuilder machine flags =>
    cases done
    exact .newBuilder machine flags
  | addSection b spec =>
    obtain ⟨_, made, ret⟩ := Attempt.bind_eq_ok.mp done
    obtain ⟨opened, rfl⟩ := Making.addSection_eq_ok.mp made
    cases ret
    exact .addSection opened spec
  | addSymbol b spec =>
    obtain ⟨_, made, ret⟩ := Attempt.bind_eq_ok.mp done
    obtain ⟨opened, x, settled, rfl⟩ := Making.addSymbol_eq_ok.mp made
    cases ret
    exact .addSymbol opened settled
  | addRelocation b s r =>
    obtain ⟨_, made, ret⟩ := Attempt.bind_eq_ok.mp done
    obtain ⟨opened, s, symbol, rfl, owned, named, rfl⟩ := Making.addRelocation_eq_ok.mp made
    cases ret
    exact .addRelocation opened owned named
  | build b =>
    obtain ⟨_, made, ret⟩ := Attempt.bind_eq_ok.mp done
    obtain ⟨opened, rfl⟩ := Making.build_eq_ok.mp made
    cases ret
    exact .build opened
  | create machine flags sections symbols =>
    obtain ⟨_, made, ret⟩ := Attempt.bind_eq_ok.mp done
    obtain ⟨file, -, same⟩ := Attempt.bind_eq_ok.mp made
    cases same
    cases ret
    exact .create file
  | ofCode code =>
    cases done
    exact .ofCode _ _ rfl

end Making.Action

/-- All that exists at some time. -/
structure Workshop where
  pool : Pool := {}
  files : List ObjectFile := []

namespace Workshop

/-- An action that fails changes nothing. -/
def step (w : Workshop) (a : Making.Action) : Workshop :=
  match a.perform w.pool with
  | .ok (file, pool) => { pool, files := file.toList ++ w.files }
  | .error _ => w

def run (actions : List Making.Action) : Workshop := actions.foldl step {}

end Workshop

/-- The file was handed out before or when the pool was as it is. -/
def ObjectFile.Built (f : ObjectFile) (p : Pool) : Prop :=
  ∃ actions, (Workshop.run actions).pool = p ∧ f ∈ (Workshop.run actions).files

theorem ObjectFile.sampleFile_built : sampleFile.Built samplePool := by
  let actions : List Making.Action := [
    .newSection { name := ".text", data := ⟨#[232, 0, 0, 0, 0]⟩, address := 16 }
      [{ symbol := some ⟨1⟩, address := 1, type := ⟨4⟩ }],
    .newSection { name := ".debug_frame" } [],
    .newSymbol { name := ".text", owner := some ⟨0⟩, value := 0x3c0, storageClass := ⟨3⟩,
                 aux := [some (.definition (some ⟨0⟩) 1)] },
    .newSymbol { name := "external_function", storageClass := ⟨2⟩ },
    .create ⟨0⟩ ⟨0⟩ [some ⟨0⟩, some ⟨1⟩] [some ⟨0⟩, some ⟨1⟩, some ⟨1⟩]]
  have run : (Workshop.run actions).pool = samplePool ∧ sampleFile ∈ (Workshop.run actions).files := by
    decide +kernel
  exact ⟨actions, run⟩

/-- The symbols of the pool have no more auxiliary records than can be counted. -/
def Pool.AuxBounded (p : Pool) : Prop := ∀ x ∈ p.symbols, x.aux.length ≤ maxAux

namespace Pool

theorem AuxBounded.push {p : Pool} (h : p.AuxBounded) {spec : SymbolSpec} {x : Symbol}
    (hx : Making.settleSymbol spec = .ok x) :
    AuxBounded { p with symbols := p.symbols.push x } := by
  obtain ⟨aux, -, few, rfl⟩ := Making.settleSymbol_eq_ok.mp hx
  intro y hy
  rcases Array.mem_push.mp hy with old | rfl
  · exact h y old
  · exact few

theorem symbols_foldl_release (l : List SectionId) (p : Pool) :
    (l.foldl Making.release p).symbols = p.symbols := by
  induction l generalizing p with
  | nil => rfl
  | cons s rest ih => exact ih (Making.release p s)

/-- No action makes a symbol with too many records. -/
theorem AuxBounded.perform {p : Pool} (h : p.AuxBounded) {a : Making.Action} {file : Option ObjectFile}
    {q : Pool} (done : a.perform p = .ok (file, q)) : q.AuxBounded := by
  cases Making.Action.effect_of_perform done with
  | newSymbol settled => exact h.push settled
  | addSymbol opened settled => exact h.push settled
  | build opened =>
    -- sealing a builder touches its sections only
    rw [AuxBounded, deliver, ← Array.foldl_toList, symbols_foldl_release]
    exact h
  | _ => exact h

end Pool

namespace Workshop

private theorem auxBounded_step {w : Workshop} (h : w.pool.AuxBounded) (a : Making.Action) :
    (w.step a).pool.AuxBounded := by
  unfold step
  split
  · next done => exact h.perform done
  · exact h

theorem auxBounded_run (actions : List Making.Action) : (run actions).pool.AuxBounded := by
  induction actions using List.reverseRecOn with
  | nil => exact fun x hx => absurd hx (Array.not_mem_empty x)
  | append_singleton before a ih =>
    rw [run, List.foldl_append]
    exact auxBounded_step ih a

end Workshop

/-- A file that was built has no symbol with too many records. -/
theorem ObjectFile.Built.aux_le {f : ObjectFile} {p : Pool} (h : f.Built p) {x : Symbol}
    (hx : x ∈ f.symbolList p) : x.aux.length ≤ maxAux := by
  obtain ⟨actions, rfl, -⟩ := h
  obtain ⟨s, -, rfl⟩ := List.mem_map.mp hx
  unfold Pool.getSymbol Array.getD
  split
  · exact Workshop.auxBounded_run actions _ (Array.getElem_mem _)
  · exact Nat.zero_le _

end CoffWorks
