import CoffWorks.Proofs.Object.Bench
import CoffWorks.Proofs.Text.Plain
import CoffWorks.Manifest.Build

namespace CoffWorks

theorem forall₂_map_same {α β γ : Type} {R : β → γ → Prop} {f : α → β} {g : α → γ} {l : List α}
    (h : ∀ a ∈ l, R (f a) (g a)) : List.Forall₂ R (l.map f) (l.map g) := by
  rw [List.forall₂_map_left_iff, List.forall₂_map_right_iff]
  exact List.forall₂_same.mpr h

namespace Manifest

/-- Things in a row are found by the position of the first name that fits. -/
theorem first?_mapIdx {α β : Type} (name : α → Bytes) (g : Nat → β) (l : List α) (n : Bytes) :
    Named.first? (l.mapIdx fun i a => (name a, g i)) n = ((l.map name).findIdx? (· = n)).map g := by
  induction l generalizing g with
  | nil => rfl
  | cons a rest ih =>
    rw [List.mapIdx_cons, List.map_cons, List.findIdx?_cons, Named.first?, List.find?_cons]
    by_cases same : name a = n
    · simp [same, Bytes.beq_iff.mpr]
    · have other : (name a == n) = false := by
        rw [Bool.eq_false_iff, ne_eq, Bytes.beq_iff]
        exact same
      have more := ih fun i => g (i + 1)
      rw [Named.first?] at more
      simp only [other, same, decide_false, more, Option.map_map, Function.comp_def, Bool.false_eq_true, if_false]

/-- The handles of sections made in order, by name. -/
def sectionNames (p : Pool) (specs : List SectionSpec) : SectionNames :=
  specs.mapIdx fun i spec => (spec.name, p.nextSection i, i + 1)

/-- The handles of symbols made in order, by name. -/
def symbolNames (p : Pool) (l : List Symbol) : Named SymbolId :=
  l.mapIdx fun i s => (s.name, p.nextSymbol i)

/-- The text is read as `a`, where an empty one stands for a default. -/
def Reads {α : Type} (default : α) (parse : Bytes → Attempt α) (text : Bytes) (a : α) : Prop :=
  if text.isEmpty then default = a else parse text = .ok a

theorem readAt_eq_ok {α : Type} {path : List Bytes} {parse : Bytes → Attempt α} {text : Bytes} {a : α} :
    readAt path parse text = .ok a ↔ parse text = .ok a := by
  rw [readAt]
  cases parse text <;> simp

private theorem readOr_eq_ok {α : Type} {default : α} {path : List Bytes} {parse : Bytes → Attempt α} {text : Bytes}
    {a : α} : readOr default path parse text = .ok a ↔ Reads default parse text a := by
  rw [readOr, Reads]
  split_ifs
  · exact Except.ok.injEq default a ▸ Iff.rfl
  · exact readAt_eq_ok

/-- What is made of a relocation. -/
structure Relocation.Becomes (machine : Machine) (symbols : Named SymbolId) (r : Relocation)
    (t : CoffWorks.Relocation) : Prop where
  symbol_eq : symbols.first? r.symbol = some t.symbol
  address_eq : r.offset = t.address
  type_eq : RelocationType.parse machine r.type = .ok t.type

/-- What is made of the relocations of a section. -/
def Section.Becomes (machine : Machine) (symbols : Named SymbolId) (s : Section)
    (rs : List CoffWorks.Relocation) : Prop :=
  List.Forall₂ (Relocation.Becomes machine symbols) s.relocations rs

/-- What is made of an auxiliary entry. -/
inductive Aux.Becomes (sections : SectionNames) : Aux → List CoffWorks.Aux → Prop
  | definition {d : Definition} {s : SectionId} {i : Nat} (found : sections.first? d.sectionName = some (s, i)) :
      Becomes sections { definition := some d } [.definition (some s) (d.number.getD (.ofNat i))]
  | fileName {name : Bytes} {pieces : List FileName} (cut : FileName.records name = .ok pieces) :
      Becomes sections { fileName := some name } (pieces.map .fileName)

/-- An entry makes records if it is of one of the two sorts and its section or file name can be had. -/
theorem Aux.records_eq_ok {path : List Bytes} {sections : SectionNames} {a : Aux} {l : List CoffWorks.Aux} :
    a.records path sections = .ok l ↔ a.Becomes sections l := by
  obtain ⟨definition, fileName⟩ := a
  cases definition with
  | some d =>
    cases fileName with
    | some name => exact iff_of_false (fun h => by cases h) (fun h => by cases h)
    | none =>
      simp only [records]
      cases found : sections.first? d.sectionName with
      | none =>
        refine iff_of_false (fun h => by cases h) ?_
        rintro ⟨found'⟩
        simp [found] at found'
      | some e =>
        constructor
        · rintro ⟨⟩
          exact .definition found
        · rintro ⟨found'⟩
          obtain rfl := Option.some.inj (found.symm.trans found')
          rfl
  | none =>
    cases fileName with
    | some name =>
      rw [records, Attempt.map_eq_ok]
      constructor
      · rintro ⟨pieces, cut, rfl⟩
        exact .fileName cut
      · rintro ⟨⟩
        exact ⟨_, ‹_›, rfl⟩
    | none => exact iff_of_false (fun h => by cases h) (fun h => by cases h)

/-- The records of all entries follow each other. -/
theorem auxRecords_eq_ok {path : List Bytes} {sections : SectionNames} {i : Nat} {l : List Aux}
    {r : List CoffWorks.Aux} : auxRecords path sections i l = .ok r ↔
      ∃ parts, List.Forall₂ (Aux.Becomes sections) l parts ∧ parts.flatten = r := by
  induction l generalizing i r with
  | nil => simp [auxRecords, eq_comm]
  | cons a rest ih =>
    simp only [auxRecords, Attempt.bind_eq_ok, Aux.records_eq_ok, ih]
    constructor
    · rintro ⟨first, becomes, _, ⟨parts, others, rfl⟩, result⟩
      exact ⟨first :: parts, .cons becomes others, Except.ok.inj result⟩
    · rintro ⟨_, all, result⟩
      cases all with
      | cons becomes others => exact ⟨_, becomes, _, ⟨_, others, rfl⟩, congrArg Except.ok result⟩

/-- The type that is named, if one is. -/
def TypeReads (t : Option TypeNames) (type : SymbolType) : Prop :=
  match t with
  | none => type = {}
  | some t => Reads ⟨0⟩ BaseType.parse t.base type.base ∧ Reads ⟨0⟩ ComplexType.parse t.complex type.complex

/-- The section that is named, if one is. -/
def OwnerReads (sections : SectionNames) (name : Bytes) (owner : Option SectionId) : Prop :=
  if name.isEmpty then owner = none else ∃ s i, sections.first? name = some (s, i) ∧ owner = some s

/-- What is made of a symbol. -/
structure Symbol.Becomes (sections : SectionNames) (s : Symbol) (x : CoffWorks.Symbol) : Prop where
  name_eq : s.name = x.name
  value_eq : s.value = x.value
  owner_reads : OwnerReads sections s.sectionName x.owner
  storageClass_reads : Reads ⟨0⟩ StorageClass.parse s.storageClass x.storageClass
  type_reads : TypeReads s.type x.type
  aux_becomes : ∃ parts, List.Forall₂ (Aux.Becomes sections) s.aux parts ∧ parts.flatten = x.aux
  aux_le : x.aux.length ≤ maxAux

theorem Symbol.owner_eq_ok {path : List Bytes} {sections : SectionNames} {s : Symbol} {owner : Option SectionId} :
    s.owner path sections = .ok owner ↔ OwnerReads sections s.sectionName owner := by
  rw [Symbol.owner, OwnerReads]
  split_ifs
  · exact ⟨fun h => (Except.ok.inj h).symm, fun h => congrArg Except.ok h.symm⟩
  · cases sections.first? s.sectionName with
    | none => simp
    | some e =>
      obtain ⟨id, i⟩ := e
      simp [eq_comm]

theorem TypeNames.read_eq_ok {path : List Bytes} {t : TypeNames} {type : SymbolType} :
    t.read path = .ok type ↔ TypeReads (some t) type := by
  simp only [TypeNames.read, Attempt.bind_eq_ok, readOr_eq_ok, TypeReads]
  constructor
  · rintro ⟨base, hb, complex, hc, h⟩
    obtain rfl := Except.ok.inj h
    exact ⟨hb, hc⟩
  · rintro ⟨hb, hc⟩
    exact ⟨_, hb, _, hc, rfl⟩

theorem Symbol.spec_eq_ok {sections : SectionNames} {s : Symbol} {spec : SymbolSpec} :
    s.spec sections = .ok spec ↔ ∃ owner storageClass type aux, OwnerReads sections s.sectionName owner ∧
      Reads ⟨0⟩ StorageClass.parse s.storageClass storageClass ∧ TypeReads s.type type ∧
      (∃ parts, List.Forall₂ (Aux.Becomes sections) s.aux parts ∧ parts.flatten = aux) ∧
      { name := s.name, owner, value := s.value, type, storageClass, aux := aux.map some } = spec := by
  rw [Symbol.spec]
  simp only [Attempt.bind_eq_ok, Symbol.owner_eq_ok, readOr_eq_ok]
  cases s.type with
  | none =>
    simp only [Attempt.bind_eq_ok, auxRecords_eq_ok]
    constructor
    · rintro ⟨owner, ho, storageClass, hc, type, ht, aux, ha, result⟩
      exact ⟨owner, storageClass, type, aux, ho, hc, (Except.ok.inj ht).symm, ha, Except.ok.inj result⟩
    · rintro ⟨owner, storageClass, type, aux, ho, hc, ht, ha, result⟩
      exact ⟨owner, ho, storageClass, hc, type, congrArg Except.ok ht.symm, aux, ha, congrArg Except.ok result⟩
  | some t =>
    simp only [Attempt.bind_eq_ok, auxRecords_eq_ok, TypeNames.read_eq_ok]
    constructor
    · rintro ⟨owner, ho, storageClass, hc, type, ht, aux, ha, result⟩
      exact ⟨owner, storageClass, type, aux, ho, hc, ht, ha, Except.ok.inj result⟩
    · rintro ⟨owner, storageClass, type, aux, ho, hc, ht, ha, result⟩
      exact ⟨owner, ho, storageClass, hc, type, ht, aux, ha, congrArg Except.ok result⟩

/-- A symbol is made if all its texts can be read and its names found. -/
theorem Symbol.becomes_iff {sections : SectionNames} {s : Symbol} {x : CoffWorks.Symbol} :
    (∃ spec, s.spec sections = .ok spec ∧ Making.settleSymbol spec = .ok x) ↔ s.Becomes sections x := by
  simp only [Symbol.spec_eq_ok, Making.settleSymbol_eq_ok]
  constructor
  · rintro ⟨_, ⟨owner, storageClass, type, aux, ho, hc, ht, ha, rfl⟩, aux', records, few, rfl⟩
    obtain rfl : aux = aux' := List.map_injective_iff.mpr (Option.some_injective _) records
    exact ⟨rfl, rfl, ho, hc, ht, ha, few⟩
  · intro h
    refine ⟨_, ⟨x.owner, x.storageClass, x.type, x.aux, h.owner_reads, h.storageClass_reads, h.type_reads,
      h.aux_becomes, rfl⟩, x.aux, rfl, h.aux_le, ?_⟩
    rw [h.name_eq, h.value_eq]

end Manifest

end CoffWorks
