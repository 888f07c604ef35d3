import CoffWorks.Proofs.Manifest.Loading

namespace CoffWorks

private theorem exists_forall₂ {α β : Type} {R : α → β → Prop} {l : List α} :
    (∃ m, List.Forall₂ R l m) ↔ ∀ a ∈ l, ∃ b, R a b := by
  induction l with
  | nil => exact iff_of_true ⟨[], .nil⟩ (by simp)
  | cons a rest ih =>
    rw [List.forall_mem_cons, ← ih]
    constructor
    · rintro ⟨_, h⟩
      cases h with
      | cons first others => exact ⟨⟨_, first⟩, _, others⟩
    · rintro ⟨⟨b, first⟩, m, others⟩
      exact ⟨b :: m, .cons first others⟩

private theorem forall₂_zipWith {α β γ δ : Type} {R : α → β → Prop} {S : α → γ → Prop} {T : α → δ → Prop}
    {g : β → γ → δ} (h : ∀ a b c, R a b → S a c → T a (g b c)) {l : List α} {m : List β} {n : List γ}
    (hm : List.Forall₂ R l m) (hn : List.Forall₂ S l n) : List.Forall₂ T l (m.zipWith g n) := by
  induction hm generalizing n with
  | nil =>
    cases hn
    exact .nil
  | cons first _ ih =>
    cases hn with
    | cons second others => exact .cons (h _ _ _ first second) (ih others)

namespace Manifest

/-- Number `i` is the first with the name. -/
def FirstNamed (names : List Bytes) (n : Bytes) (i : Nat) : Prop :=
  names[i]? = some n ∧ ∀ j < i, names[j]? ≠ some n

private theorem findIdx?_eq_some {names : List Bytes} {n : Bytes} {i : Nat} :
    names.findIdx? (· = n) = some i ↔ FirstNamed names n i := by
  simp only [List.findIdx?_eq_some_iff_getElem, FirstNamed, decide_eq_true_eq]
  constructor
  · rintro ⟨inside, here, earlier⟩
    refine ⟨List.getElem?_eq_some_iff.mpr ⟨inside, here⟩, fun j before same => ?_⟩
    exact earlier j before (List.getElem?_eq_some_iff.mp same).2
  · rintro ⟨here, earlier⟩
    obtain ⟨inside, same⟩ := List.getElem?_eq_some_iff.mp here
    refine ⟨inside, same, fun j before same => earlier j before ?_⟩
    exact List.getElem?_eq_some_iff.mpr ⟨_, same⟩

theorem exists_firstNamed {names : List Bytes} {n : Bytes} : (∃ i, FirstNamed names n i) ↔ n ∈ names := by
  simp only [← findIdx?_eq_some, ← Option.isSome_iff_exists, List.findIdx?_isSome]
  simp

/-- A section is found by the first position of its name, and counted from one. -/
theorem first?_sections {p : Pool} {specs : List SectionSpec} {n : Bytes} {s : SectionId} {number : Nat} :
    (sectionNames p specs).first? n = some (s, number) ↔
      ∃ i, FirstNamed (specs.map (·.name)) n i ∧ p.nextSection i = s ∧ i + 1 = number := by
  rw [sectionNames, first?_mapIdx (fun spec : SectionSpec => spec.name), Option.map_eq_some_iff]
  simp only [findIdx?_eq_some, Prod.mk.injEq]

theorem first?_symbols {p : Pool} {l : List Symbol} {n : Bytes} {s : SymbolId} :
    (symbolNames p l).first? n = some s ↔ ∃ i, FirstNamed (l.map (·.name)) n i ∧ p.nextSymbol i = s := by
  rw [symbolNames, first?_mapIdx (fun s : Symbol => s.name), Option.map_eq_some_iff]
  simp only [findIdx?_eq_some]

def Parses {α : Type} (parse : Bytes → Attempt α) (text : Bytes) : Prop := ∃ a, parse text = .ok a

/-- Everything in a section can be read, and its relocations refer to given names. -/
structure Section.Resolvable (machine : Machine) (names : List Bytes) (s : Section) : Prop where
  flags_parse : ∀ text ∈ s.flags, Parses SectionFlags.parse text
  data_alone : s.data = .empty ∨ s.dataFile = .empty
  data_denotes : s.DataDenotes
  relocation_named : ∀ r ∈ s.relocations, r.symbol ∈ names
  relocation_parses : ∀ r ∈ s.relocations, Parses (RelocationType.parse machine) r.type

/-- How many records are made of an entry. -/
def Aux.recordCount (a : Aux) : Nat := a.fileName.elim 1 fun name => max 1 (name.size ⌈/⌉ 18)

/-- Everything in a symbol can be read, and it refers to given names. -/
structure Symbol.Resolvable (names : List Bytes) (s : Symbol) : Prop where
  owner_named : s.sectionName ≠ .empty → s.sectionName ∈ names
  storageClass_parses : s.storageClass ≠ .empty → Parses StorageClass.parse s.storageClass
  base_parses : ∀ t ∈ s.type, t.base ≠ .empty → Parses BaseType.parse t.base
  complex_parses : ∀ t ∈ s.type, t.complex ≠ .empty → Parses ComplexType.parse t.complex
  aux_single : ∀ a ∈ s.aux, a.definition.isSome ≠ a.fileName.isSome
  definition_named : ∀ a ∈ s.aux, ∀ d ∈ a.definition, d.sectionName ∈ names
  fileName_fits : ∀ a ∈ s.aux, ∀ name ∈ a.fileName, Text.isValid name ∧ name.size ≤ 4590
  aux_le : (s.aux.map Aux.recordCount).sum ≤ 255

/-- Everything in the manifest can be read, and it refers to what it has only. -/
structure Resolvable {σ : Type} (readFile : Bytes → StateM σ (Attempt Bytes)) (baseDir : Bytes)
    (x : Manifest) (w : σ) : Prop where
  flags_parse : ∀ text ∈ x.flags, Parses FileFlags.parse text
  sections_resolvable : ∃ machine, Machine.parse x.machine = .ok machine ∧
    ∀ s ∈ x.sections, s.Resolvable machine (x.symbols.map (·.name))
  symbols_resolvable : ∀ s ∈ x.symbols, s.Resolvable (x.sections.map (·.name))
  files_readable : Readable readFile (dataPaths baseDir x.sections) w

section Existence

variable {p : Pool}

theorem exists_flagsRead {α : Type} [OrOp α] {z : α} {parse : Bytes → Attempt α} {texts : List Bytes} :
    (∃ flags, FlagsRead z parse texts flags) ↔ ∀ text ∈ texts, Parses parse text := by
  unfold Parses
  rw [← exists_forall₂]
  exact ⟨fun ⟨_, parts, parsed, _⟩ => ⟨parts, parsed⟩, fun ⟨parts, parsed⟩ => ⟨_, parts, parsed, rfl⟩⟩

theorem exists_reads {α : Type} {default : α} {parse : Bytes → Attempt α} {text : Bytes} :
    (∃ a, Reads default parse text a) ↔ (text ≠ .empty → Parses parse text) := by
  unfold Reads
  by_cases none : text = .empty
  · exact iff_of_true ⟨default, by rw [if_pos (Bytes.isEmpty_iff.mpr none)]⟩ (absurd none)
  · simp only [if_neg (mt Bytes.isEmpty_iff.mp none)]
    exact ⟨fun parsed _ => parsed, fun parses => parses none⟩

/-- A relocation can be made if its symbol is there and its type is known. -/
theorem Relocation.exists_becomes {machine : Machine} {l : List Symbol} {r : Relocation} :
    (∃ t, r.Becomes machine (symbolNames p l) t) ↔
      r.symbol ∈ l.map (·.name) ∧ Parses (RelocationType.parse machine) r.type := by
  rw [← exists_firstNamed]
  constructor
  · rintro ⟨t, symbol, -, type⟩
    obtain ⟨i, first, -⟩ := first?_symbols.mp symbol
    exact ⟨⟨i, first⟩, _, type⟩
  · rintro ⟨⟨i, first⟩, type, parsed⟩
    exact ⟨⟨_, _, type⟩, first?_symbols.mpr ⟨i, first, rfl⟩, rfl, parsed⟩

theorem Section.exists_becomes {machine : Machine} {l : List Symbol} {s : Section} :
    (∃ rs, s.Becomes machine (symbolNames p l) rs) ↔
      ∀ r ∈ s.relocations, r.symbol ∈ l.map (·.name) ∧ Parses (RelocationType.parse machine) r.type := by
  simp only [Section.Becomes, exists_forall₂, Relocation.exists_becomes]

/-- Loaded sections can be made if their flags can be read. -/
theorem exists_heads {σ : Type} {readFile : Bytes → StateM σ (Attempt Bytes)} {baseDir : Bytes} {w w' : σ}
    {l : List Section} {bs : List Bytes} (loading : Loading readFile baseDir w l bs w')
    (parse : ∀ s ∈ l, ∀ text ∈ s.flags, Parses SectionFlags.parse text) :
    ∃ specs, List.Forall₂ Section.Heads l specs ∧ specs.map (·.data) = bs := by
  induction loading with
  | nil => exact ⟨[], .nil, rfl⟩
  | @cons _ _ _ s b _ _ _ _ ih =>
    rw [List.forall_mem_cons] at parse
    obtain ⟨flags, read⟩ := (exists_flagsRead (z := ⟨0⟩)).mpr parse.1
    obtain ⟨specs, heads, rfl⟩ := ih parse.2
    exact ⟨{ name := s.name, address := s.address, data := b, flags } :: specs, .cons ⟨rfl, rfl, read⟩ heads, rfl⟩

/-- An entry is either for a section that is there or for a file name that is not too long. -/
theorem Aux.exists_becomes {specs : List SectionSpec} {a : Aux} :
    (∃ parts, a.Becomes (sectionNames p specs) parts) ↔ a.definition.isSome ≠ a.fileName.isSome ∧
      (∀ d ∈ a.definition, d.sectionName ∈ specs.map (·.name)) ∧
      ∀ name ∈ a.fileName, Text.isValid name ∧ name.size ≤ 4590 := by
  constructor
  · rintro ⟨_, h⟩
    cases h with
    | definition found =>
      obtain ⟨i, first, -⟩ := first?_sections.mp found
      simpa using exists_firstNamed.mp ⟨i, first⟩
    | fileName cut => simpa using FileName.exists_records.mp ⟨_, cut⟩
  · obtain ⟨definition, fileName⟩ := a
    rintro ⟨single, named, fits⟩
    cases definition with
    | some d =>
      obtain rfl : fileName = none := by simpa using single
      obtain ⟨i, first⟩ := exists_firstNamed.mpr (named d rfl)
      exact ⟨_, .definition (first?_sections.mpr ⟨i, first, rfl, rfl⟩)⟩
    | none =>
      cases fileName with
      | none => exact absurd rfl single
      | some name =>
        obtain ⟨pieces, cut⟩ := FileName.exists_records.mpr (fits name rfl)
        exact ⟨_, .fileName cut⟩

/-- A file name takes a record for each eighteen bytes, and one at least. -/
theorem Aux.Becomes.length_eq {sections : SectionNames} {a : Aux} {parts : List CoffWorks.Aux}
    (h : a.Becomes sections parts) : parts.length = a.recordCount := by
  cases h with
  | definition => rfl
  | fileName cut =>
    rw [List.length_map, FileName.length_records cut]
    rfl

private theorem length_flatten_of_becomes {sections : SectionNames} {l : List Aux} {parts : List (List CoffWorks.Aux)}
    (h : List.Forall₂ (Aux.Becomes sections) l parts) : parts.flatten.length = (l.map Aux.recordCount).sum := by
  induction h with
  | nil => rfl
  | cons first _ ih => rw [List.flatten_cons, List.length_append, first.length_eq, ih, List.map_cons, List.sum_cons]

theorem exists_ownerReads {specs : List SectionSpec} {name : Bytes} :
    (∃ owner, OwnerReads (sectionNames p specs) name owner) ↔ (name ≠ .empty → name ∈ specs.map (·.name)) := by
  unfold OwnerReads
  by_cases none : name = .empty
  · exact iff_of_true ⟨Option.none, by rw [if_pos (Bytes.isEmpty_iff.mpr none)]⟩ (absurd none)
  · simp only [if_neg (mt Bytes.isEmpty_iff.mp none), ← exists_firstNamed]
    constructor
    · rintro ⟨_, s, number, found, -⟩ _
      obtain ⟨i, first, -⟩ := first?_sections.mp found
      exact ⟨i, first⟩
    · intro named
      obtain ⟨i, first⟩ := named none
      exact ⟨_, _, _, first?_sections.mpr ⟨i, first, rfl, rfl⟩, rfl⟩

theorem exists_typeReads {t : Option TypeNames} : (∃ type, TypeReads t type) ↔
    (∀ names ∈ t, names.base ≠ .empty → Parses BaseType.parse names.base) ∧
      ∀ names ∈ t, names.complex ≠ .empty → Parses ComplexType.parse names.complex := by
  cases t with
  | none => simp [TypeReads]
  | some names =>
    have base := @exists_reads _ ⟨0⟩ BaseType.parse names.base
    have complex := @exists_reads _ ⟨0⟩ ComplexType.parse names.complex
    simp only [Option.mem_def, Option.some.injEq, forall_eq', ← base, ← complex]
    constructor
    · rintro ⟨type, hb, hc⟩
      exact ⟨⟨_, hb⟩, _, hc⟩
    · rintro ⟨⟨b, hb⟩, c, hc⟩
      exact ⟨⟨b, c⟩, hb, hc⟩

/-- A symbol can be made just if it is resolvable. -/
theorem Symbol.exists_becomes {specs : List SectionSpec} {s : Symbol} :
    (∃ y, s.Becomes (sectionNames p specs) y) ↔ s.Resolvable (specs.map (·.name)) := by
  have aux : (∃ parts, List.Forall₂ (Aux.Becomes (sectionNames p specs)) s.aux parts) ↔ _ := exists_forall₂
  simp only [Aux.exists_becomes] at aux
  constructor
  · rintro ⟨y, h⟩
    obtain ⟨parts, becomes, flat⟩ := h.aux_becomes
    obtain ⟨base, complex⟩ := exists_typeReads.mp ⟨_, h.type_reads⟩
    have entries := aux.mp ⟨parts, becomes⟩
    refine ⟨exists_ownerReads.mp ⟨_, h.owner_reads⟩, exists_reads.mp ⟨_, h.storageClass_reads⟩, base, complex,
      fun a ha => (entries a ha).1, fun a ha => (entries a ha).2.1, fun a ha => (entries a ha).2.2, ?_⟩
    rw [← length_flatten_of_becomes becomes, flat]
    exact h.aux_le
  · intro h
    obtain ⟨owner, owner_reads⟩ := exists_ownerReads.mpr h.owner_named
    obtain ⟨storageClass, storageClass_reads⟩ := exists_reads.mpr h.storageClass_parses
    obtain ⟨type, type_reads⟩ := exists_typeReads.mpr ⟨h.base_parses, h.complex_parses⟩
    obtain ⟨parts, becomes⟩ := aux.mpr fun a ha => ⟨h.aux_single a ha, h.definition_named a ha, h.fileName_fits a ha⟩
    have few : parts.flatten.length ≤ maxAux := by
      rw [length_flatten_of_becomes becomes]
      exact h.aux_le
    exact ⟨{ name := s.name, value := s.value, owner, storageClass, type, aux := parts.flatten },
      rfl, rfl, owner_reads, storageClass_reads, type_reads, ⟨parts, becomes, rfl⟩, few⟩

end Existence

/-- The relocation that is described, for the first symbol with the name. -/
structure Relocation.Realized (machine : Machine) (names : List Bytes) (symbols : Array SymbolId) (r : Relocation)
    (t : CoffWorks.Relocation) : Prop where
  symbol_first : ∃ i, FirstNamed names r.symbol i ∧ symbols[i]? = some t.symbol
  address_eq : t.address = r.offset
  type_eq : RelocationType.parse machine r.type = .ok t.type

/-- The section that is described, except for its data. -/
structure Section.Realized (machine : Machine) (names : List Bytes) (symbols : Array SymbolId) (s : Section)
    (y : CoffWorks.Section) : Prop where
  name_eq : y.name = s.name
  address_eq : y.address = s.address
  flags_read : FlagsRead ⟨0⟩ SectionFlags.parse s.flags y.flags
  relocations_realized : List.Forall₂ (Relocation.Realized machine names symbols) s.relocations y.relocations.toList

/-- The records for an entry. A section is the first with the name, and described with its number unless
another one is given. -/
inductive Aux.Realized (names : List Bytes) (sections : Array SectionId) : Aux → List CoffWorks.Aux → Prop
  | definition {d : Definition} {i : Nat} {target : SectionId} {number : UInt16}
      (first : FirstNamed names d.sectionName i) (here : sections[i]? = some target)
      (given : ∀ n ∈ d.number, number = n) (counted : d.number = none → number.toNat = i + 1) :
      Realized names sections { definition := some d } [.definition (some target) number]
  | fileName {name : Bytes} {pieces : List FileName} (cut : FileName.records name = .ok pieces) :
      Realized names sections { fileName := some name } (pieces.map .fileName)

/-- The symbol that is described. -/
structure Symbol.Realized (names : List Bytes) (sections : Array SectionId) (s : Symbol) (y : CoffWorks.Symbol) :
    Prop where
  name_eq : y.name = s.name
  value_eq : y.value = s.value
  owner_none : s.sectionName = .empty → y.owner = none
  owner_first : s.sectionName ≠ .empty → ∃ i o, FirstNamed names s.sectionName i ∧ sections[i]? = some o ∧
    y.owner = some o
  storageClass_reads : Reads ⟨0⟩ StorageClass.parse s.storageClass y.storageClass
  type_reads : TypeReads s.type y.type
  aux_realized : ∃ parts, List.Forall₂ (Aux.Realized names sections) s.aux parts ∧ parts.flatten = y.aux

/-- The file that is described. Its sections and symbols are all different, in the order of the manifest. -/
structure Realizes {σ : Type} (readFile : Bytes → StateM σ (Attempt Bytes)) (baseDir : Bytes) (x : Manifest)
    (w : σ) (f : ObjectFile) (q : Pool) (w' : σ) : Prop where
  machine_eq : Machine.parse x.machine = .ok f.machine
  flags_read : FlagsRead ⟨0⟩ FileFlags.parse x.flags f.flags
  sections_nodup : f.sections.toList.Nodup
  symbols_nodup : f.symbols.toList.Nodup
  data_loaded : Loading readFile baseDir w x.sections ((f.sectionList q).map (·.data)) w'
  sections_realized : List.Forall₂ (Section.Realized f.machine (x.symbols.map (·.name)) f.symbols) x.sections
    (f.sectionList q)
  symbols_realized : List.Forall₂ (Symbol.Realized (x.sections.map (·.name)) f.sections) x.symbols (f.symbolList q)

section Realization

variable {k : Bench}

private theorem getElem?_sections {i : Nat} (h : i < k.sections.length) :
    k.file.sections[i]? = some (k.base.nextSection i) := by
  simp [Bench.file, Bench.sectionIds, h]

private theorem getElem?_symbols {i : Nat} (h : i < k.symbols.length) :
    k.file.symbols[i]? = some (k.base.nextSymbol i) := by
  simp [Bench.file, Bench.symbolIds, h]

theorem FirstNamed.lt {names : List Bytes} {n : Bytes} {i : Nat} (h : FirstNamed names n i) : i < names.length :=
  (List.getElem?_eq_some_iff.mp h.1).1

theorem Relocation.Becomes.realized {machine : Machine} {l : List Symbol} {r : Relocation} {t : CoffWorks.Relocation}
    (h : r.Becomes machine (symbolNames k.base l) t) (hl : k.symbols.length = l.length) :
    r.Realized machine (l.map (·.name)) k.file.symbols t := by
  obtain ⟨i, first, same⟩ := first?_symbols.mp h.symbol_eq
  have inside : i < k.symbols.length := by simpa [hl] using first.lt
  refine ⟨⟨i, first, ?_⟩, h.address_eq.symm, h.type_eq⟩
  rw [getElem?_symbols inside, same]

variable {specs : List SectionSpec} (hl : k.sections.length = specs.length)
include hl

theorem first?_realized {n : Bytes} {s : SectionId} {number : Nat}
    (h : (sectionNames k.base specs).first? n = some (s, number)) :
    ∃ i, FirstNamed (specs.map (·.name)) n i ∧ k.file.sections[i]? = some s ∧ number = i + 1 := by
  obtain ⟨i, first, same, rfl⟩ := first?_sections.mp h
  have inside : i < k.sections.length := by simpa [hl] using first.lt
  exact ⟨i, first, by rw [getElem?_sections inside, same], rfl⟩

/-- Numbers of sections fit in their field if there are not too many sections. -/
theorem Aux.Becomes.realized {a : Aux} {parts : List CoffWorks.Aux} (few : specs.length ≤ 65535)
    (h : a.Becomes (sectionNames k.base specs) parts) : a.Realized (specs.map (·.name)) k.file.sections parts := by
  cases h with
  | fileName cut => exact .fileName cut
  | definition found =>
    obtain ⟨i, first, here, rfl⟩ := first?_realized hl found
    refine .definition first here ?_ ?_
    · intro n given
      rw [Option.mem_def.mp given, Option.getD_some]
    · intro none
      have inside : i < specs.length := by simpa using first.lt
      have small : i + 1 < UInt16.size := Nat.lt_of_le_of_lt inside (Nat.lt_succ_of_le few)
      rw [none, Option.getD_none, UInt16.toNat_ofNat_of_lt' small]

theorem Symbol.Becomes.realized {s : Symbol} {y : CoffWorks.Symbol} (few : specs.length ≤ 65535)
    (h : s.Becomes (sectionNames k.base specs) y) : s.Realized (specs.map (·.name)) k.file.sections y := by
  have owner := h.owner_reads
  rw [OwnerReads] at owner
  obtain ⟨parts, becomes, flat⟩ := h.aux_becomes
  refine ⟨h.name_eq.symm, h.value_eq.symm, ?_, ?_, h.storageClass_reads, h.type_reads, parts, ?_, flat⟩
  · intro none
    rwa [if_pos (Bytes.isEmpty_iff.mpr none)] at owner
  · intro named
    rw [if_neg (mt Bytes.isEmpty_iff.mp named)] at owner
    obtain ⟨o, number, found, owned⟩ := owner
    obtain ⟨i, first, here, -⟩ := first?_realized hl found
    exact ⟨i, o, first, here, owned⟩
  · exact becomes.imp fun _ _ entry => entry.realized hl few

end Realization

private theorem map_name_of_heads {l : List Section} {specs : List SectionSpec}
    (h : List.Forall₂ Section.Heads l specs) :
    specs.map (·.name) = l.map (·.name) := by
  rw [← List.forall₂_eq_eq_eq, List.forall₂_map_left_iff, List.forall₂_map_right_iff]
  exact h.flip.imp fun _ _ head => head.name_eq

section Build

variable {σ : Type} {readFile : Bytes → StateM σ (Attempt Bytes)} {baseDir : Bytes} {x : Manifest} {p : Pool} {w : σ}

/-- What was built could be resolved. -/
theorem resolvable_of_build {made : ObjectFile × Pool} {w' : σ}
    (h : (x.build readFile baseDir p).run w = (.ok made, w')) : x.Resolvable readFile baseDir w := by
  obtain ⟨machine, flags, specs, header, heads, loading, assembled⟩ := build_eq_ok.mp h
  obtain ⟨parsed, flags_read⟩ := header_eq_ok.mp header
  obtain ⟨rss, symbols, relocated, settled, -⟩ := (assemble_eq_ok heads.length_eq.symm).mp assembled
  obtain ⟨kinds, readable⟩ := exists_loading.mp ⟨_, _, loading⟩
  refine ⟨exists_flagsRead.mp ⟨_, flags_read⟩, ⟨machine, parsed, ?_⟩, ?_, readable⟩
  · intro s hs
    obtain ⟨spec, -, head⟩ := forall₂_exists_of_mem heads hs
    obtain ⟨rs, -, becomes⟩ := forall₂_exists_of_mem relocated hs
    obtain ⟨alone, denotes⟩ := kinds s hs
    have relocations := Section.exists_becomes.mp ⟨rs, becomes⟩
    exact ⟨exists_flagsRead.mp ⟨_, head.flags_read⟩, alone, denotes, fun r hr => (relocations r hr).1,
      fun r hr => (relocations r hr).2⟩
  · intro s hs
    obtain ⟨y, -, becomes⟩ := forall₂_exists_of_mem settled hs
    rw [← map_name_of_heads heads]
    exact Symbol.exists_becomes.mp ⟨y, becomes⟩

/-- What can be resolved can be built. -/
theorem exists_build (h : x.Resolvable readFile baseDir w) :
    ∃ made w', (x.build readFile baseDir p).run w = (.ok made, w') := by
  obtain ⟨machine, parsed, sections⟩ := h.sections_resolvable
  obtain ⟨flags, flags_read⟩ := (exists_flagsRead (z := ⟨0⟩)).mpr h.flags_parse
  obtain ⟨bs, w', loading⟩ := exists_loading.mpr
    ⟨fun s hs => ⟨(sections s hs).data_alone, (sections s hs).data_denotes⟩, h.files_readable⟩
  obtain ⟨specs, heads, rfl⟩ := exists_heads loading fun s hs => (sections s hs).flags_parse
  obtain ⟨rss, relocated⟩ : ∃ rss, List.Forall₂ (Section.Becomes machine (symbolNames p x.symbols)) x.sections rss := by
    refine exists_forall₂.mpr fun s hs => Section.exists_becomes.mpr fun r hr => ?_
    exact ⟨(sections s hs).relocation_named r hr, (sections s hs).relocation_parses r hr⟩
  obtain ⟨symbols, settled⟩ : ∃ symbols, List.Forall₂ (Symbol.Becomes (sectionNames p specs)) x.symbols symbols := by
    refine exists_forall₂.mpr fun s hs => Symbol.exists_becomes.mpr ?_
    rw [map_name_of_heads heads]
    exact h.symbols_resolvable s hs
  have header := header_eq_ok.mpr ⟨parsed, flags_read⟩
  have assembled : x.assemble machine flags specs p = .ok _ :=
    (assemble_eq_ok heads.length_eq.symm).mpr ⟨rss, symbols, relocated, settled, rfl⟩
  exact ⟨_, _, build_eq_ok.mpr ⟨machine, flags, specs, header, heads, loading, assembled⟩⟩

theorem realizes_of_build (few : x.sections.length ≤ 65535) {f : ObjectFile} {q : Pool} {w' : σ}
    (h : (x.build readFile baseDir p).run w = (.ok (f, q), w')) : x.Realizes readFile baseDir w f q w' := by
  obtain ⟨machine, flags, specs, header, heads, loading, assembled⟩ := build_eq_ok.mp h
  obtain ⟨parsed, flags_read⟩ := header_eq_ok.mp header
  obtain ⟨rss, symbols, relocated, settled, same⟩ := (assemble_eq_ok heads.length_eq.symm).mp assembled
  obtain ⟨rfl, rfl⟩ := Prod.mk.inj same
  let k := bench p machine flags specs rss symbols
  have length : specs.length = rss.length := heads.length_eq.symm.trans relocated.length_eq
  have sections : k.sections.length = specs.length := by simp [k, bench, makeSections, length]
  constructor
  case machine_eq => exact parsed
  case flags_read => exact flags_read
  case sections_nodup => exact Bench.nodup_sectionIds
  case symbols_nodup => exact Bench.nodup_symbolIds
  case data_loaded =>
    have data : k.sections.map (·.data) = specs.map (·.data) := map_makeSections (fun _ _ => rfl) length
    rw [← data] at loading
    rw [Bench.sectionList_delivered, List.map_map]
    exact loading
  case sections_realized =>
    rw [Bench.sectionList_delivered, List.forall₂_map_right_iff]
    refine forall₂_zipWith ?_ heads relocated
    intro s spec rs head becomes
    refine ⟨head.name_eq, head.address_eq, head.flags_read, ?_⟩
    exact becomes.imp fun _ _ entry => entry.realized (k := k) settled.length_eq.symm
  case symbols_realized =>
    rw [Bench.symbolList_delivered, ← map_name_of_heads heads]
    refine settled.imp fun _ _ becomes => becomes.realized (k := k) sections ?_
    rwa [← heads.length_eq]

end Build

/-- A manifest can be built exactly if everything in it can be resolved, and what is built realizes it. -/
theorem build_resolves {σ : Type} (readFile : Bytes → StateM σ (Attempt Bytes)) (baseDir : Bytes) (x : Manifest)
    (few : x.sections.length ≤ 65535) (p : Pool) (w : σ) :
    ((∃ made w', (x.build readFile baseDir p).run w = (.ok made, w')) ↔ x.Resolvable readFile baseDir w) ∧
      ∀ f q w', (x.build readFile baseDir p).run w = (.ok (f, q), w') → x.Realizes readFile baseDir w f q w' :=
  ⟨⟨fun ⟨_, _, built⟩ => resolvable_of_build built, exists_build⟩, fun _ _ _ built => realizes_of_build few built⟩

/-- A file with one byte more each time it is read, and no others. -/
def growingReader (path : Bytes) : StateM Nat (Attempt Bytes) := fun n =>
  (if path == "dir/code.bin" then .ok ⟨.replicate n 7⟩ else .error .endOfInput, n + 1)

/-- Two sections have each name that is used, and data comes from a file in the directory and from a text. -/
theorem build_resolves_namesakes : ∃ f q w', (namesakeManifest.build growingReader "dir" {}).run 3 = (.ok (f, q), w') ∧
    namesakeManifest.Resolvable growingReader "dir" 3 ∧ namesakeManifest.Realizes growingReader "dir" 3 f q w' ∧
    (f.sectionList q).map (·.data.data) = [#[7, 7, 7], #[1, 0], #[], #[]] := by
  let built := (namesakeManifest.build growingReader "dir" {}).run 3
  have data : built.1.toOption.map (fun r => (r.1.sectionList r.2).map (·.data.data)) =
      some [#[7, 7, 7], #[1, 0], #[], #[]] := by decide +kernel
  obtain ⟨resolves, realizes⟩ := build_resolves growingReader "dir" namesakeManifest (by decide) {} 3
  cases made : built.1 with
  | error e => simp [made, Except.toOption] at data
  | ok r =>
    have result : (namesakeManifest.build growingReader "dir" {}).run 3 = (.ok (r.1, r.2), built.2) :=
      Prod.ext made rfl
    rw [made] at data
    exact ⟨_, _, _, result, resolves.mp ⟨_, _, result⟩, realizes _ _ _ result, Option.some.inj data⟩

end Manifest

end CoffWorks
