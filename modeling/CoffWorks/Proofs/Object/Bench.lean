import CoffWorks.Proofs.Object.Making

namespace CoffWorks

namespace Pool

/-- The handle of the section that is made after `i` others. -/
def nextSection (p : Pool) (i : Nat) : SectionId := ⟨p.sections.size + i⟩

/-- The handle of the symbol that is made after `i` others. -/
def nextSymbol (p : Pool) (i : Nat) : SymbolId := ⟨p.symbols.size + i⟩

end Pool

/-- The section once its builder is sealed. -/
def Section.released (x : Section) : Section := { x with owner := none }

/-- The section with more relocations. -/
def Section.relocatedBy (x : Section) (rs : List Relocation) : Section :=
  { x with relocations := x.relocations ++ rs.toArray }

theorem Section.relocatedBy_nil (x : Section) : x.relocatedBy [] = x := by
  simp [relocatedBy]

theorem modify_relocatedBy_nil (l : List Section) (i : Nat) : l.modify i (·.relocatedBy []) = l := by
  simp only [Section.relocatedBy_nil]
  exact List.modify_id i l

theorem Section.relocatedBy_cons (x : Section) (r : Relocation) (rs : List Relocation) :
    x.relocatedBy (r :: rs) = (x.relocated r).relocatedBy rs := by
  simp [relocatedBy, relocated]

theorem Section.relocatedBy_append (x : Section) (rs rest : List Relocation) :
    x.relocatedBy (rs ++ rest) = (x.relocatedBy rs).relocatedBy rest := by
  simp [relocatedBy]

private theorem array_modify_push {α : Type} (a : Array α) (x : α) (f : α → α) :
    (a.push x).modify a.size f = a.push (f x) := by
  apply Array.ext_getElem?
  intro i
  rw [Array.getElem?_modify, Array.getElem?_push, Array.getElem?_push]
  split_ifs <;> simp_all

private theorem array_modify_append {α : Type} (a : Array α) (l : List α) (i : Nat) (f : α → α) :
    (a ++ l.toArray).modify (a.size + i) f = a ++ (l.modify i f).toArray := by
  apply Array.ext_getElem?
  intro j
  rw [Array.getElem?_modify, Array.getElem?_append, Array.getElem?_append]
  by_cases old : j < a.size
  · simp only [old, if_true]
    rw [if_neg (by omega)]
  · simp only [old, if_false, List.getElem?_toArray, List.getElem?_modify]
    by_cases here : a.size + i = j
    · subst here
      simp
    · have other : i ≠ j - a.size := by omega
      simp [here, other]

namespace Making

variable {α β : Type} {p : Pool}

theorem bind_eq_ok {x : Making α} {f : α → Making β} {r : β × Pool} :
    (x >>= f) p = .ok r ↔ ∃ a q, x p = .ok (a, q) ∧ f a q = .ok r := by
  change (x p >>= fun s => f s.1 s.2) = .ok r ↔ _
  rw [Attempt.bind_eq_ok]
  exact ⟨fun ⟨s, h⟩ => ⟨s.1, s.2, h⟩, fun ⟨a, q, h⟩ => ⟨(a, q), h⟩⟩

theorem bind_iff_of_ok {x : Making α} {a : α} {q : Pool} (h : x p = .ok (a, q)) {f : α → Making β} {r : β × Pool} :
    (x >>= f) p = .ok r ↔ f a q = .ok r := by
  change (x p >>= fun s => f s.1 s.2) = .ok r ↔ _
  rw [h]
  rfl

theorem attempt_bind_eq_ok {x : Attempt α} {f : α → Making β} {r : β × Pool} :
    ((x : Making α) >>= f) p = .ok r ↔ ∃ a, x = .ok a ∧ f a p = .ok r := by
  rw [bind_eq_ok]
  change (∃ a q, (x >>= fun a => .ok (a, p)) = .ok (a, q) ∧ f a q = .ok r) ↔ _
  cases x with
  | error e => simp [bind, Except.bind]
  | ok a => simp [bind, Except.bind]

end Making

/-- An open builder with what it has made. -/
structure Bench where
  /-- The pool before the builder. -/
  base : Pool
  machine : Machine
  flags : FileFlags
  sections : List Section := []
  symbols : List Symbol := []

namespace Bench

variable (k : Bench)

def builder : BuilderId := ⟨k.base.builders.size⟩

def sectionIds : Array SectionId := ((List.range k.sections.length).map k.base.nextSection).toArray

def symbolIds : Array SymbolId := ((List.range k.symbols.length).map k.base.nextSymbol).toArray

def pool : Pool where
  sections := k.base.sections ++ k.sections.toArray
  symbols := k.base.symbols ++ k.symbols.toArray
  builders := k.base.builders.push
    { machine := k.machine, flags := k.flags, sections := k.sectionIds, symbols := k.symbolIds }

/-- The file that the builder hands out. -/
def file : ObjectFile :=
  { machine := k.machine, flags := k.flags, sections := k.sectionIds, symbols := k.symbolIds }

theorem newBuilder_eq (p : Pool) (machine : Machine) (flags : FileFlags) :
    Making.newBuilder machine flags p =
      .ok (Bench.builder { base := p, machine, flags }, Bench.pool { base := p, machine, flags }) := by
  simp [Making.newBuilder, pool, sectionIds, symbolIds, builder]

variable {k}

private theorem getBuilder_pool : k.pool.getBuilder k.builder =
    { machine := k.machine, flags := k.flags, sections := k.sectionIds, symbols := k.symbolIds } := by
  simp [Pool.getBuilder, pool, builder]

theorem addSection_eq (spec : SectionSpec) : Making.addSection k.builder spec k.pool =
    .ok (k.base.nextSection k.sections.length,
      pool { k with sections := k.sections ++ [spec.make #[] (some k.builder)] }) := by
  rw [Making.addSection_eq_ok, getBuilder_pool]
  refine ⟨by simp, ?_⟩
  simp [pool, builder, array_modify_push, sectionIds, symbolIds, Pool.nextSection, List.range_succ]

theorem addSymbol_eq_ok {spec : SymbolSpec} {r : SymbolId × Pool} :
    Making.addSymbol k.builder spec k.pool = .ok r ↔ ∃ x, Making.settleSymbol spec = .ok x ∧
      (k.base.nextSymbol k.symbols.length, pool { k with symbols := k.symbols ++ [x] }) = r := by
  rw [Making.addSymbol_eq_ok, getBuilder_pool]
  simp [pool, builder, array_modify_push, sectionIds, symbolIds, Pool.nextSymbol, List.range_succ]

theorem addSymbol_of_settled {spec : SymbolSpec} {x : Symbol} (settled : Making.settleSymbol spec = .ok x) :
    Making.addSymbol k.builder spec k.pool =
      .ok (k.base.nextSymbol k.symbols.length, pool { k with symbols := k.symbols ++ [x] }) :=
  addSymbol_eq_ok.mpr ⟨x, settled, rfl⟩

private theorem getSection_pool {i : Nat} {x : Section} (h : k.sections[i]? = some x) :
    k.pool.getSection (k.base.nextSection i) = x := by
  simp [Pool.getSection, pool, Pool.nextSection, Array.getElem?_append_right, h]

private theorem getSymbol_pool {i : Nat} {x : Symbol} (h : k.symbols[i]? = some x) :
    k.pool.getSymbol (k.base.nextSymbol i) = x := by
  simp [Pool.getSymbol, pool, Pool.nextSymbol, Array.getElem?_append_right, h]

/-- A relocation goes to the section that it is for. -/
theorem addRelocation_eq {i : Nat} {x : Section} (h : k.sections[i]? = some x) (owned : x.owner = some k.builder)
    (r : Relocation) :
    Making.addRelocation k.builder (some (k.base.nextSection i))
        { symbol := some r.symbol, address := r.address, type := r.type } k.pool =
      .ok ((), pool { k with sections := k.sections.modify i (·.relocated r) }) := by
  rw [Making.addRelocation_eq_ok, getBuilder_pool]
  refine ⟨by simp, _, _, rfl, ?_, rfl, ?_⟩
  · rw [getSection_pool h, owned]
  · simp [pool, Pool.nextSection, array_modify_append, sectionIds, symbolIds]

/-- The pool after the builder is sealed. -/
def delivered (k : Bench) : Pool :=
  k.sectionIds.foldl Making.release
    { k.pool with builders := k.pool.builders.modify k.builder.index fun x => { x with isSealed := true } }

theorem build_eq : Making.build k.builder k.pool = .ok (k.file, k.delivered) := by
  rw [Making.build_eq_ok, getBuilder_pool]
  exact ⟨by simp, rfl⟩

/-- All sections of the list are released, and no others. -/
theorem getSection_foldl_release (l : List SectionId) (p : Pool) (s : SectionId) :
    (l.foldl Making.release p).getSection s =
      if s ∈ l then (p.getSection s).released else p.getSection s := by
  have once (p : Pool) (t : SectionId) : (Making.release p t).getSection s =
      if s = t then (p.getSection s).released else p.getSection s := by
    obtain ⟨i⟩ := s
    obtain ⟨j⟩ := t
    simp only [Pool.getSection, Making.release, Array.getD_eq_getD_getElem?, Array.getElem?_modify,
      SectionId.mk.injEq, eq_comm (a := i)]
    split_ifs
    · cases p.sections[i]? <;> rfl
    · rfl
  induction l generalizing p with
  | nil => simp
  | cons t rest ih =>
    rw [List.foldl_cons, ih, once]
    by_cases first : s = t
    · simp [first, Section.released]
    · simp [first]

theorem getSection_delivered {i : Nat} {x : Section} (h : k.sections[i]? = some x) :
    k.delivered.getSection (k.base.nextSection i) = x.released := by
  have inside : i < k.sections.length := (List.getElem?_eq_some_iff.mp h).1
  have mem : k.base.nextSection i ∈ k.sectionIds.toList :=
    List.mem_map_of_mem (List.mem_range.mpr inside)
  rw [delivered, ← Array.foldl_toList, getSection_foldl_release, if_pos mem]
  exact congrArg Section.released (getSection_pool h)

theorem getSymbol_delivered {i : Nat} {x : Symbol} (h : k.symbols[i]? = some x) :
    k.delivered.getSymbol (k.base.nextSymbol i) = x := by
  rw [Pool.getSymbol, delivered, ← Array.foldl_toList, Pool.symbols_foldl_release]
  exact getSymbol_pool h

/-- The file has the sections that were made, in order. -/
theorem sectionList_delivered : k.file.sectionList k.delivered = k.sections.map Section.released := by
  apply List.ext_getElem
  · simp [ObjectFile.sectionList, file, sectionIds]
  · intro i _ inside
    rw [List.length_map] at inside
    simp [ObjectFile.sectionList, file, sectionIds,
      getSection_delivered (List.getElem?_eq_getElem inside)]

theorem symbolList_delivered : k.file.symbolList k.delivered = k.symbols := by
  apply List.ext_getElem
  · simp [ObjectFile.symbolList, file, symbolIds]
  · intro i _ inside
    simp [ObjectFile.symbolList, file, symbolIds, getSymbol_delivered (List.getElem?_eq_getElem inside)]

theorem nextSection_mem {i : Nat} (h : i < k.sections.length) : k.base.nextSection i ∈ k.file.sections := by
  simpa [file, sectionIds] using ⟨i, h, rfl⟩

theorem nextSymbol_mem {i : Nat} (h : i < k.symbols.length) : k.base.nextSymbol i ∈ k.file.symbols := by
  simpa [file, symbolIds] using ⟨i, h, rfl⟩

theorem nodup_sectionIds : k.sectionIds.toList.Nodup :=
  List.nodup_range.map fun _ _ same => Nat.add_left_cancel (SectionId.mk.inj same)

theorem nodup_symbolIds : k.symbolIds.toList.Nodup :=
  List.nodup_range.map fun _ _ same => Nat.add_left_cancel (SymbolId.mk.inj same)

theorem idxOf_nextSymbol {i : Nat} (h : i < k.symbols.length) :
    k.file.symbols.toList.idxOf (k.base.nextSymbol i) = i := by
  have inside : i < k.symbolIds.toList.length := by simpa [symbolIds] using h
  have here : k.symbolIds.toList[i] = k.base.nextSymbol i := by simp [symbolIds]
  rw [← here]
  exact nodup_symbolIds.idxOf_getElem i inside

theorem idxOf_nextSection {i : Nat} (h : i < k.sections.length) :
    k.file.sections.toList.idxOf (k.base.nextSection i) = i := by
  have inside : i < k.sectionIds.toList.length := by simpa [sectionIds] using h
  have here : k.sectionIds.toList[i] = k.base.nextSection i := by simp [sectionIds]
  rw [← here]
  exact nodup_sectionIds.idxOf_getElem i inside

end Bench

end CoffWorks
