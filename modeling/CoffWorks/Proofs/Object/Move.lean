import CoffWorks.Proofs.Object.Alike
import CoffWorks.Proofs.Object.Bench
import CoffWorks.Proofs.Object.FileName

namespace CoffWorks

section Lists

variable {α β : Type} [DecidableEq β] {g : α → β} {l : List α} {a : α}

/-- Something that is the first with its name is found by the name. -/
private theorem findIdx?_map_of_find? [DecidableEq α] (h : l.find? (fun b => g b = g a) = some a) :
    (l.map g).findIdx? (· = g a) = some (l.idxOf a) := by
  induction l with
  | nil => cases h
  | cons b rest ih =>
    rw [List.find?_cons] at h
    rw [List.map_cons, List.findIdx?_cons]
    by_cases same : g b = g a
    · simp only [same, decide_true, Option.some.injEq] at h
      simp [h]
    · have other : b ≠ a := fun eq => same (congrArg g eq)
      simp only [same, decide_false] at h
      simp [same, List.idxOf_cons_ne rest other, ih h]

private theorem find?_of_findIdx?_map {i : Nat} {n : β} (h : (l.map g).findIdx? (· = n) = some i)
    (ha : l[i]? = some a) :
    g a = n ∧ l.find? (fun b => g b = g a) = some a := by
  induction l generalizing i with
  | nil => cases h
  | cons b rest ih =>
    rw [List.map_cons, List.findIdx?_cons] at h
    rw [List.find?_cons]
    by_cases same : g b = n
    · simp only [same, decide_true, if_true, Option.some.injEq] at h
      subst h
      obtain rfl : b = a := by simpa using ha
      simp [same]
    · simp only [same, decide_false, Bool.false_eq_true, if_false, Option.map_eq_some_iff] at h
      obtain ⟨j, found, rfl⟩ := h
      obtain ⟨name, first⟩ := ih found (by simpa using ha)
      refine ⟨name, ?_⟩
      simp only [name, same, decide_false]
      rwa [name] at first

end Lists

namespace ObjectFile

variable {f : ObjectFile} {p : Pool}

/-- The section is the first of the file with its name. -/
def FirstSection (f : ObjectFile) (p : Pool) (s : SectionId) : Prop :=
  f.sections.toList.find? (fun t => (p.getSection t).name = (p.getSection s).name) = some s

/-- The symbol is the first of the file with its name. -/
def FirstSymbol (f : ObjectFile) (p : Pool) (s : SymbolId) : Prop :=
  f.symbols.toList.find? (fun t => (p.getSymbol t).name = (p.getSymbol s).name) = some s

instance {s : SectionId} : Decidable (f.FirstSection p s) := inferInstanceAs (Decidable (_ = _))

instance {s : SymbolId} : Decidable (f.FirstSymbol p s) := inferInstanceAs (Decidable (_ = _))

theorem FirstSection.findIdx?_eq {s : SectionId} (h : f.FirstSection p s) :
    ((f.sectionList p).map (·.name)).findIdx? (· = (p.getSection s).name) = some (f.sections.toList.idxOf s) := by
  rw [sectionList, List.map_map]
  exact findIdx?_map_of_find? (g := fun t => (p.getSection t).name) h

theorem FirstSymbol.findIdx?_eq {s : SymbolId} (h : f.FirstSymbol p s) :
    ((f.symbolList p).map (·.name)).findIdx? (· = (p.getSymbol s).name) = some (f.symbols.toList.idxOf s) := by
  rw [symbolList, List.map_map]
  exact findIdx?_map_of_find? (g := fun t => (p.getSymbol t).name) h

theorem FirstSection.mem {s : SectionId} (h : f.FirstSection p s) : s ∈ f.sections :=
  Array.mem_toList_iff.mp (List.mem_of_find?_eq_some h)

theorem FirstSymbol.mem {s : SymbolId} (h : f.FirstSymbol p s) : s ∈ f.symbols :=
  Array.mem_toList_iff.mp (List.mem_of_find?_eq_some h)

/-- What a builder made at the first position with a name is the first section of its file with it. -/
theorem firstSection_delivered {k : Bench} {n : Bytes} {i : Nat}
    (h : (k.sections.map (·.name)).findIdx? (· = n) = some i) :
    (k.delivered.getSection (k.base.nextSection i)).name = n ∧
      k.file.FirstSection k.delivered (k.base.nextSection i) := by
  have inside : i < k.sections.length := by
    simpa using (List.findIdx?_eq_some_iff_getElem.mp h).1
  have names : k.file.sections.toList.map (fun t => (k.delivered.getSection t).name) = k.sections.map (·.name) := by
    have released := congrArg (List.map (·.name)) k.sectionList_delivered
    rwa [sectionList, List.map_map, List.map_map] at released
  rw [← names] at h
  exact find?_of_findIdx?_map h (by simp [Bench.file, Bench.sectionIds, inside])

theorem firstSymbol_delivered {k : Bench} {n : Bytes} {i : Nat}
    (h : (k.symbols.map (·.name)).findIdx? (· = n) = some i) :
    k.file.FirstSymbol k.delivered (k.base.nextSymbol i) := by
  have inside : i < k.symbols.length := by
    simpa using (List.findIdx?_eq_some_iff_getElem.mp h).1
  have names : k.file.symbols.toList.map (fun t => (k.delivered.getSymbol t).name) = k.symbols.map (·.name) := by
    have same := congrArg (List.map (·.name)) k.symbolList_delivered
    rwa [symbolList, List.map_map] at same
  rw [← names] at h
  exact (find?_of_findIdx?_map h (by simp [Bench.file, Bench.symbolIds, inside])).2

/-- The auxiliary record has a piece of a name or a section that is known by its name. -/
inductive AuxNamed (f : ObjectFile) (p : Pool) : Aux → Prop
  | definition {s : SectionId} (number : UInt16) (first : f.FirstSection p s) :
      AuxNamed f p (.definition (some s) number)
  | fileName {piece : FileName} (made : piece.Made) : AuxNamed f p (.fileName piece)

/-- All references in the file can be given by names. -/
structure Nameable (f : ObjectFile) (p : Pool) : Prop where
  owner_first : ∀ x ∈ f.symbolList p, ∀ o ∈ x.owner, (p.getSection o).name ≠ .empty ∧ f.FirstSection p o
  aux_named : ∀ x ∈ f.symbolList p, ∀ a ∈ x.aux, f.AuxNamed p a
  relocation_first : ∀ x ∈ f.sectionList p, ∀ t ∈ x.relocations, f.FirstSymbol p t.symbol

/-- The pieces of file names are texts by themselves. -/
def PiecesValid (f : ObjectFile) (p : Pool) : Prop :=
  ∀ x ∈ f.symbolList p, ∀ piece, .fileName piece ∈ x.aux → Text.isValid piece.text

end ObjectFile

section Moved

variable (f : ObjectFile) (r : Pool)

def Relocation.moved (t : Relocation) : Relocation :=
  { t with symbol := r.nextSymbol (f.symbols.toList.idxOf t.symbol) }

def SectionId.moved (s : SectionId) : SectionId := r.nextSection (f.sections.toList.idxOf s)

def Aux.moved : Aux → Aux
  | .definition (some s) number => .definition (some (s.moved f r)) number
  | a => a

def Symbol.moved (x : Symbol) : Symbol :=
  { x with owner := x.owner.map (SectionId.moved f r), aux := x.aux.map (Aux.moved f r) }

def Section.spec (x : Section) : SectionSpec :=
  { name := x.name, data := x.data, address := x.address, flags := x.flags }

def Section.moved (b : BuilderId) (x : Section) : Section :=
  x.spec.make (x.relocations.toList.map (Relocation.moved f r)).toArray (some b)

/-- A builder that has made everything in the file anew, after `r`. -/
def ObjectFile.moved (p : Pool) : Bench where
  base := r
  machine := f.machine
  flags := f.flags
  sections := (f.sectionList p).map (Section.moved f r ⟨r.builders.size⟩)
  symbols := (f.symbolList p).map (Symbol.moved f r)

end Moved

namespace ObjectFile

variable {f : ObjectFile} {p : Pool} (r : Pool)

private theorem getSection_moved {s : SectionId} (h : s ∈ f.sections) :
    (f.moved r p).delivered.getSection (s.moved f r) =
      ((p.getSection s).moved f r ⟨r.builders.size⟩).released := by
  have here : f.sections.toList[f.sections.toList.idxOf s]? = some s :=
    List.getElem?_idxOf (Array.mem_toList_iff.mpr h)
  apply Bench.getSection_delivered
  simp [moved, sectionList, here]

private theorem idxOf_moved {s : SymbolId} (h : s ∈ f.symbols) :
    (f.moved r p).file.symbols.toList.idxOf (r.nextSymbol (f.symbols.toList.idxOf s)) = f.symbols.toList.idxOf s := by
  apply Bench.idxOf_nextSymbol (k := f.moved r p)
  have inside := List.idxOf_lt_length_iff.mpr (Array.mem_toList_iff.mpr h)
  simpa [moved] using inside

private theorem sectionIndex_moved {s : SectionId} (h : s ∈ f.sections) :
    (f.moved r p).file.sectionIndex (s.moved f r) = f.sectionIndex s := by
  have inside : f.sections.toList.idxOf s < (f.moved r p).sections.length := by
    simpa [moved] using List.idxOf_lt_length_iff.mpr (Array.mem_toList_iff.mpr h)
  have mem : s.moved f r ∈ (f.moved r p).file.sections :=
    Array.mem_toList_iff.mp (List.mem_map_of_mem (List.mem_range.mpr inside))
  rw [Encode.sectionIndex_of_mem mem, Encode.sectionIndex_of_mem h]
  exact congrArg (· + 1) (Bench.idxOf_nextSection inside)

/-- The file made anew is like the one that it was made from. -/
theorem Nameable.alike (h : f.Nameable p) : f.Alike p (f.moved r p).file (f.moved r p).delivered where
  machine_eq := rfl
  flags_eq := rfl
  sections_alike := by
    rw [Bench.sectionList_delivered, moved, List.map_map, List.forall₂_map_right_iff]
    refine List.forall₂_same.mpr fun x hx => ⟨rfl, rfl, rfl, rfl, ?_⟩
    change List.Forall₂ _ _ (x.relocations.toList.map (Relocation.moved f r))
    rw [List.forall₂_map_right_iff]
    refine List.forall₂_same.mpr fun t ht => ⟨rfl, rfl, ?_⟩
    exact (idxOf_moved r (h.relocation_first x hx t (Array.mem_toList_iff.mp ht)).mem).symm
  symbols_alike := by
    rw [Bench.symbolList_delivered, moved, List.forall₂_map_right_iff]
    refine List.forall₂_same.mpr fun x hx => ⟨rfl, rfl, rfl, rfl, ?_, ?_⟩
    · have first := h.owner_first x hx
      rw [Symbol.moved]
      cases owner : x.owner with
      | none => exact .none
      | some o =>
        have mem := (first o owner).2.mem
        exact .some ⟨by rw [← moved, getSection_moved r mem]; rfl, (sectionIndex_moved r mem).symm⟩
    · change List.Forall₂ _ _ (x.aux.map (Aux.moved f r))
      rw [List.forall₂_map_right_iff]
      refine List.forall₂_same.mpr fun a ha => ?_
      cases h.aux_named x hx a ha with
      | definition number first =>
        have same := getSection_moved (p := p) r first.mem
        refine .definition number ?_ ?_
        · rw [← moved, same]
          rfl
        · rw [← moved, same]
          simp [Section.moved, Section.released, SectionSpec.make]
      | fileName made => exact .fileName _

end ObjectFile

end CoffWorks
