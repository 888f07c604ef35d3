import CoffWorks.Proofs.Manifest.Assemble
import CoffWorks.Proofs.Manifest.Spelling
import CoffWorks.Proofs.Object.Move

namespace CoffWorks

theorem Attempt.mapM_eq_ok {α β : Type} {f : α → Attempt β} {l : List α} {m : List β} :
    l.mapM f = .ok m ↔ List.Forall₂ (fun a b => f a = .ok b) l m := by
  induction l generalizing m with
  | nil => simp [pure, Except.pure, eq_comm]
  | cons a rest ih =>
    simp only [List.mapM_cons, Attempt.bind_eq_ok, ih]
    constructor
    · rintro ⟨b, first, bs, others, result⟩
      obtain rfl := Except.ok.inj result
      exact .cons first others
    · rintro (_ | ⟨first, others⟩)
      exact ⟨_, first, _, others, rfl⟩

namespace Manifest

variable {f : ObjectFile} {p : Pool}

def Aux.describing (p : Pool) : CoffWorks.Aux → Aux
  | .definition (some s) number =>
    { definition := some { sectionName := (p.getSection s).name, number := some number } }
  | .fileName piece => { fileName := some piece.text }
  | _ => {}

def Symbol.describing (p : Pool) (x : CoffWorks.Symbol) : Symbol :=
  { name := x.name, storageClass := x.storageClass.spelling, value := x.value,
    sectionName := match x.owner with
      | some s => (p.getSection s).name
      | none => .empty
    type := if x.type = {} then none else some { base := x.type.base.label, complex := x.type.complex.label }
    aux := x.aux.map (Aux.describing p) }

/-- The manifest of a file whose auxiliary records are all of a known sort. -/
def describing (p : Pool) (f : ObjectFile) : Manifest :=
  { machine := f.machine.spelling, flags := f.flags.spelling,
    sections := (f.sectionList p).map (Section.ofObject p f.machine),
    symbols := (f.symbolList p).map (Symbol.describing p) }

theorem Symbol.ofObject_eq {x : CoffWorks.Symbol}
    (h : ∀ a ∈ x.aux, Aux.ofObject p a = .ok (some (Aux.describing p a))) :
    Symbol.ofObject p x = .ok (Symbol.describing p x) := by
  have entries : x.aux.mapM (Aux.ofObject p) = .ok ((x.aux.map (Aux.describing p)).map some) := by
    rw [Attempt.mapM_eq_ok, List.map_map, List.forall₂_map_right_iff]
    exact List.forall₂_same.mpr h
  have kept : ((x.aux.map (Aux.describing p)).map some).filterMap id = x.aux.map (Aux.describing p) := by
    rw [List.filterMap_map, Function.id_comp, List.filterMap_some]
  rw [Symbol.ofObject, entries]
  exact congrArg (fun aux => Except.ok { Symbol.describing p x with aux }) kept

theorem ofObject_eq (h : ∀ x ∈ f.symbolList p, ∀ a ∈ x.aux, Aux.ofObject p a = .ok (some (Aux.describing p a))) :
    ofObject p f = .ok (describing p f) := by
  have symbols : f.symbols.toList.mapM (fun s => Symbol.ofObject p (p.getSymbol s)) =
      .ok ((f.symbolList p).map (Symbol.describing p)) := by
    rw [Attempt.mapM_eq_ok, ObjectFile.symbolList, List.map_map, List.forall₂_map_right_iff]
    exact List.forall₂_same.mpr fun s hs => Symbol.ofObject_eq (h _ (List.mem_map_of_mem hs))
  rw [ofObject, symbols]
  change Except.ok _ = _
  rw [describing, ObjectFile.sectionList, List.map_map]
  rfl

private theorem reads_of_parse {α : Type} {default : α} {parse : Bytes → Attempt α} {text : Bytes} {a : α}
    (h : parse text = .ok a) (empty : parse .empty ≠ .ok a) : Reads default parse text a := by
  rw [Reads, if_neg]
  · exact h
  · rw [Bytes.isEmpty_iff]
    rintro rfl
    exact empty h

theorem typeReads_describing (x : CoffWorks.Symbol) : TypeReads (Symbol.describing p x).type x.type := by
  rw [Symbol.describing]
  split_ifs with default
  · exact default
  · exact ⟨reads_of_parse (BaseType.parse_label _) (BaseType.parse_empty _),
      reads_of_parse (ComplexType.parse_label _) (ComplexType.parse_empty _)⟩

theorem header_describing : (describing p f).header = .ok (f.machine, f.flags) := by
  rw [header, describing, readAt_eq_ok.mpr f.machine.parse_spelling, f.flags.readFlags_spelling]
  rfl

section

variable {m : Type → Type} [Monad m] (readFile : Bytes → m (Attempt Bytes)) (baseDir : Bytes)

/-- The data is described as text, so that no file is read. -/
theorem Section.load_ofObject (machine : Machine) (x : CoffWorks.Section) :
    (Section.ofObject p machine x).load readFile baseDir = pure (.ok x.data) := by
  have noFile : (Section.ofObject p machine x).dataFile.isEmpty = true := rfl
  have data : (Section.ofObject p machine x).data = Text.Hex.encode x.data := rfl
  have size := Text.Hex.size_encode x.data
  simp only [Section.load, noFile, data, not_true_eq_false, and_false, if_false]
  split_ifs with none
  · rw [Bytes.isEmpty_iff] at none
    rw [none, ByteArray.size_empty] at size
    rw [ByteArray.size_eq_zero_iff.mp (by omega : x.data.size = 0)]
  · rw [(Text.Hex.plain_encode x.data).withoutBlanks_eq, readAt_eq_ok.mpr (Text.Hex.decode_encode x.data)]

variable [LawfulMonad m]

theorem Section.spec_ofObject (machine : Machine) (x : CoffWorks.Section) :
    (Section.ofObject p machine x).spec readFile baseDir = pure (.ok x.spec) := by
  have flags : (Section.ofObject p machine x).flags = x.flags.spelling := rfl
  rw [Section.spec, flags, x.flags.readFlags_spelling]
  simp only [Section.load_ofObject, pure_bind]
  rfl

private theorem sectionSpecs_eq {l : List Section} {specs : List SectionSpec} (acc : List SectionSpec)
    (h : List.Forall₂ (fun s spec => s.spec readFile baseDir = pure (.ok spec)) l specs) :
    sectionSpecs readFile baseDir l acc = pure (.ok (acc.reverse ++ specs)) := by
  induction h generalizing acc with
  | nil => rw [sectionSpecs, List.append_nil]
  | cons head _ ih =>
    rw [sectionSpecs, head, pure_bind]
    simp only [ih, List.reverse_cons, List.append_assoc, List.singleton_append]

end

section

variable (r : Pool)

/-- The name of a section leads to its copy if no section before it has the same name. -/
theorem first?_sectionNames {s : SectionId} (h : f.FirstSection p s) :
    (sectionNames r ((f.sectionList p).map (·.spec))).first? (p.getSection s).name =
      some (s.moved f r, f.sections.toList.idxOf s + 1) := by
  have found := h.findIdx?_eq
  rw [sectionNames, first?_mapIdx (fun spec : SectionSpec => spec.name), List.map_map]
  exact congrArg (Option.map fun i => (r.nextSection i, i + 1)) found

theorem first?_symbolNames {s : SymbolId} (h : f.FirstSymbol p s) :
    (symbolNames r (describing p f).symbols).first? (p.getSymbol s).name =
      some (r.nextSymbol (f.symbols.toList.idxOf s)) := by
  have found := h.findIdx?_eq
  rw [symbolNames, first?_mapIdx (fun s : Symbol => s.name), describing, List.map_map]
  exact congrArg (Option.map r.nextSymbol) found

theorem Section.becomes_ofObject (h : f.Nameable p) {x : CoffWorks.Section} (hx : x ∈ f.sectionList p) :
    (Section.ofObject p f.machine x).Becomes f.machine (symbolNames r (describing p f).symbols)
      (x.relocations.toList.map (CoffWorks.Relocation.moved f r)) := by
  refine forall₂_map_same fun t ht => ⟨?_, rfl, RelocationType.parse_label f.machine t.type⟩
  exact first?_symbolNames r (h.relocation_first x hx t (Array.mem_toList_iff.mp ht))

theorem Aux.becomes_describing (h : f.Nameable p) (valid : f.PiecesValid p) {x : CoffWorks.Symbol}
    (hx : x ∈ f.symbolList p) {a : CoffWorks.Aux} (ha : a ∈ x.aux) :
    (Aux.describing p a).Becomes (sectionNames r ((f.sectionList p).map (·.spec))) [a.moved f r] := by
  cases h.aux_named x hx a ha with
  | definition number first => exact .definition (first?_sectionNames r first)
  | fileName made => exact .fileName (made.records_text (valid x hx _ ha))

theorem Symbol.becomes_describing (h : f.Nameable p) (valid : f.PiecesValid p) {x : CoffWorks.Symbol}
    (hx : x ∈ f.symbolList p) (few : x.aux.length ≤ maxAux) :
    (Symbol.describing p x).Becomes (sectionNames r ((f.sectionList p).map (·.spec))) (x.moved f r) where
  name_eq := rfl
  value_eq := rfl
  owner_reads := by
    have first := h.owner_first x hx
    rw [Symbol.describing, CoffWorks.Symbol.moved, OwnerReads]
    cases owner : x.owner with
    | none => rfl
    | some o =>
      obtain ⟨named, first⟩ := first o owner
      rw [if_neg (mt Bytes.isEmpty_iff.mp named)]
      exact ⟨_, _, first?_sectionNames r first, rfl⟩
  storageClass_reads := reads_of_parse (StorageClass.parse_spelling _) (StorageClass.parse_empty _)
  type_reads := typeReads_describing x
  aux_becomes := by
    refine ⟨x.aux.map fun a => [a.moved f r], ?_, ?_⟩
    · exact forall₂_map_same fun a ha => Aux.becomes_describing r h valid hx ha
    · rw [← List.flatMap_def, ← List.map_eq_flatMap]
      rfl
  aux_le := by simpa [CoffWorks.Symbol.moved] using few

/-- The builder of the description has made the file anew. -/
theorem bench_describing : bench r f.machine f.flags ((f.sectionList p).map (·.spec))
    ((f.sectionList p).map fun x => x.relocations.toList.map (CoffWorks.Relocation.moved f r))
    ((f.symbolList p).map (CoffWorks.Symbol.moved f r)) = f.moved r p := by
  rw [bench, makeSections, List.zipWith_map, List.zipWith_self]
  rfl

/-- The description of a file is assembled to a file that is moved behind what is in the pool. -/
theorem assemble_describing (h : f.Nameable p) (valid : f.PiecesValid p)
    (few : ∀ x ∈ f.symbolList p, x.aux.length ≤ maxAux) :
    (describing p f).assemble f.machine f.flags ((f.sectionList p).map (·.spec)) r =
      .ok ((f.moved r p).file, (f.moved r p).delivered) := by
  have lengths : ((f.sectionList p).map (·.spec)).length = (describing p f).sections.length := by
    rw [describing, List.length_map, List.length_map]
  rw [assemble_eq_ok lengths]
  refine ⟨_, _, ?_, ?_, by rw [bench_describing]⟩
  · exact forall₂_map_same fun x hx => Section.becomes_ofObject r h hx
  · exact forall₂_map_same fun x hx => Symbol.becomes_describing r h valid hx (few x hx)

end

section

variable {m : Type → Type} [Monad m] [LawfulMonad m] (readFile : Bytes → m (Attempt Bytes)) (baseDir : Bytes)

/-- No files are read. -/
theorem build_describing_eq (r : Pool) : (describing p f).build readFile baseDir r =
    pure ((describing p f).assemble f.machine f.flags ((f.sectionList p).map (·.spec)) r) := by
  have specs : sectionSpecs readFile baseDir (describing p f).sections [] =
      pure (.ok ((f.sectionList p).map (·.spec))) := by
    apply sectionSpecs_eq readFile baseDir []
    exact forall₂_map_same fun x _ => Section.spec_ofObject readFile baseDir f.machine x
  rw [build, header_describing]
  simp only [specs, pure_bind]
  rfl

end

/-- A file has a manifest if its references can be given by names. -/
theorem ofObject_of_nameable (h : f.Nameable p) : ofObject p f = .ok (describing p f) := by
  apply ofObject_eq
  intro x hx a ha
  cases h.aux_named x hx a ha <;> rfl

/-- A file whose references can be given by names, and its file names in pieces, has a manifest. Building
that, whatever files can be read and whatever is in the pool, gives a file with the same bytes, or the
same reason for having none. -/
theorem build_ofObject_bytes {f : ObjectFile} {p : Pool} (hb : f.Built p) (h : f.Nameable p)
    (valid : f.PiecesValid p) :
    ∃ y, ofObject p f = .ok y ∧
      ∀ {m : Type → Type} [Monad m] [LawfulMonad m] (readFile : Bytes → m (Attempt Bytes)) (baseDir : Bytes)
        (r : Pool), ∃ g q, y.build readFile baseDir r = pure (.ok (g, q)) ∧ g.bytes q = f.bytes p := by
  refine ⟨_, ofObject_of_nameable h, fun readFile baseDir r => ⟨_, _, ?_, (h.alike r).bytes_eq.symm⟩⟩
  rw [build_describing_eq, assemble_describing r h valid fun x hx => hb.aux_le hx]

end Manifest

namespace ObjectFile

/-- Sections and symbols that share names with others, and a file name in two pieces. -/
def namesakePool : Pool where
  sections := #[
    { name := ".data", data := ⟨#[1, 0]⟩, relocations := #[{ symbol := ⟨1⟩, address := 1, type := ⟨77⟩ }] },
    { name := ".data", flags := ⟨0xf0300041⟩ }]
  symbols := #[
    { name := ".file", storageClass := ⟨103⟩,
      aux := [.fileName (.ofBytes "a rather long name"), .fileName (.ofBytes "é.c")] },
    { name := "x", owner := some ⟨0⟩, storageClass := ⟨200⟩, aux := [.definition (some ⟨0⟩) 7] },
    { name := "x" }]

def namesakeFile : ObjectFile :=
  { machine := ⟨9⟩, flags := ⟨0xffff⟩, sections := #[⟨0⟩, ⟨1⟩], symbols := #[⟨0⟩, ⟨1⟩, ⟨2⟩] }

theorem namesakeFile_built : namesakeFile.Built namesakePool := by
  let actions : List Making.Action := [
    .newSection { name := ".data", data := ⟨#[1, 0]⟩ } [{ symbol := some ⟨1⟩, address := 1, type := ⟨77⟩ }],
    .newSection { name := ".data", flags := ⟨0xf0300041⟩ } [],
    .newSymbol { name := ".file", storageClass := ⟨103⟩,
                 aux := [some (.fileName (.ofBytes "a rather long name")), some (.fileName (.ofBytes "é.c"))] },
    .newSymbol { name := "x", owner := some ⟨0⟩, storageClass := ⟨200⟩, aux := [some (.definition (some ⟨0⟩) 7)] },
    .newSymbol { name := "x" },
    .create ⟨9⟩ ⟨0xffff⟩ [some ⟨0⟩, some ⟨1⟩] [some ⟨0⟩, some ⟨1⟩, some ⟨2⟩]]
  have run : (Workshop.run actions).pool = namesakePool ∧ namesakeFile ∈ (Workshop.run actions).files := by
    decide +kernel
  exact ⟨actions, run⟩

private theorem namesakeFile_aux {x : Symbol} (hx : x ∈ namesakeFile.symbolList namesakePool)
    {a : Aux} (ha : a ∈ x.aux) :
    a = .fileName (.ofBytes "a rather long name") ∨ a = .fileName (.ofBytes "é.c") ∨
      a = .definition (some ⟨0⟩) 7 := by
  revert x a
  decide +kernel

theorem namesakeFile_nameable : namesakeFile.Nameable namesakePool where
  owner_first := by decide +kernel
  aux_named x hx a ha := by
    rcases namesakeFile_aux hx ha with rfl | rfl | rfl
    · exact .fileName (FileName.made_of_single "a rather long name" (by decide +kernel))
    · exact .fileName (FileName.made_of_single "é.c" (by decide +kernel))
    · exact .definition 7 (by decide +kernel)
  relocation_first := by decide +kernel

end ObjectFile

namespace Manifest

open ObjectFile

/-- The file is built again from its manifest, behind what is in the pool already and without files. -/
theorem build_ofObject_namesakeFile : namesakeFile.Built namesakePool ∧ namesakeFile.Nameable namesakePool ∧
    namesakeFile.PiecesValid namesakePool ∧ ∃ y g q, ofObject namesakePool namesakeFile = .ok y ∧
      y.build (m := Id) (fun _ => .error .endOfInput) .empty namesakePool = .ok (g, q) ∧
      g.bytes q = .ok (namesakeFile.layout namesakePool) := by
  have valid : namesakeFile.PiecesValid namesakePool := by
    intro x hx piece hp
    rcases namesakeFile_aux hx hp with same | same | same
    · obtain rfl := Aux.fileName.inj same
      decide +kernel
    · obtain rfl := Aux.fileName.inj same
      decide +kernel
    · cases same
  have bytes : namesakeFile.bytes namesakePool = .ok (namesakeFile.layout namesakePool) :=
    bytes_eq_ok.mpr ⟨by decide +kernel, rfl⟩
  obtain ⟨y, described, built⟩ := build_ofObject_bytes namesakeFile_built namesakeFile_nameable valid
  obtain ⟨g, q, built, same⟩ := built (m := Id) (fun _ => .error .endOfInput) .empty namesakePool
  exact ⟨namesakeFile_built, namesakeFile_nameable, valid, y, g, q, described, built, same.trans bytes⟩

end Manifest

end CoffWorks
