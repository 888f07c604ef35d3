import CoffWorks.Proofs.Manifest.RoundTrip

namespace CoffWorks

theorem forall₂_exists_of_mem {α β : Type} {R : α → β → Prop} {l : List α} {m : List β}
    (h : List.Forall₂ R l m) {a : α} (ha : a ∈ l) : ∃ b ∈ m, R a b := by
  induction h with
  | nil => cases ha
  | cons head _ ih =>
    rcases List.mem_cons.mp ha with rfl | ha
    · exact ⟨_, List.mem_cons_self, head⟩
    · obtain ⟨b, hb, related⟩ := ih ha
      exact ⟨b, List.mem_cons_of_mem _ hb, related⟩

namespace Manifest

section Readers

variable {σ : Type} {readFile : Bytes → StateM σ (Attempt Bytes)} {baseDir : Bytes}

theorem exists_of_run_bind {α β : Type} {x : StateM σ α} {g : α → StateM σ β} {w : σ} {r : β × σ}
    (h : (x >>= g).run w = r) : ∃ a w₁, x.run w = (a, w₁) ∧ (g a).run w₁ = r :=
  ⟨(x w).1, (x w).2, rfl, h⟩

private theorem exists_of_isOk {α : Type} {x : StateM σ (Attempt α)} {w : σ} (h : (x.run w).1.isOk) :
    ∃ a w', x.run w = (.ok a, w') := by
  rcases run : x.run w with ⟨result, w'⟩
  rw [run] at h
  cases result with
  | error e => cases h
  | ok a => exact ⟨a, w', rfl⟩

private theorem length_sectionSpecs {l : List Section} {acc specs : List SectionSpec} {w w' : σ}
    (h : (sectionSpecs readFile baseDir l acc).run w = (.ok specs, w')) : specs.length = acc.length + l.length := by
  induction l generalizing acc w with
  | nil =>
    obtain rfl : acc.reverse = specs := Except.ok.inj (congrArg Prod.fst h)
    simp
  | cons s rest ih =>
    obtain ⟨spec, w₁, -, h⟩ := exists_of_run_bind h
    cases spec with
    | error e => cases h
    | ok spec =>
      have length := ih h
      simp only [List.length_cons] at length ⊢
      omega

theorem assemble_of_build {x : Manifest} {p : Pool} {made : ObjectFile × Pool} {w w' : σ}
    (h : (x.build readFile baseDir p).run w = (.ok made, w')) :
    ∃ machine flags specs, specs.length = x.sections.length ∧ x.assemble machine flags specs p = .ok made := by
  unfold build at h
  split at h
  · cases h
  · next machine flags _ =>
    obtain ⟨specs, w₁, read, h⟩ := exists_of_run_bind h
    cases specs with
    | error e => cases h
    | ok specs =>
      have length := length_sectionSpecs read
      rw [List.length_nil, Nat.zero_add] at length
      exact ⟨machine, flags, specs, length, congrArg Prod.fst h⟩

end Readers

section References

variable {k : Bench} {specs : List SectionSpec} (names : k.sections.map (·.name) = specs.map (·.name))

include names

/-- A section that is found by its name is the first one with it. -/
theorem firstSection_of_first? {n : Bytes} {s : SectionId} {i : Nat}
    (h : (sectionNames k.base specs).first? n = some (s, i)) :
    (k.delivered.getSection s).name = n ∧ k.file.FirstSection k.delivered s := by
  rw [sectionNames, first?_mapIdx (fun spec : SectionSpec => spec.name), ← names] at h
  obtain ⟨j, found, same⟩ := Option.map_eq_some_iff.mp h
  obtain ⟨rfl, -⟩ := Prod.mk.inj same
  exact ObjectFile.firstSection_delivered found

/-- A symbol belongs to the first section with the name that it gives. -/
theorem Symbol.Becomes.owner_first {s : Symbol} {x : CoffWorks.Symbol}
    (h : s.Becomes (sectionNames k.base specs) x) {o : SectionId} (ho : x.owner = some o) :
    (k.delivered.getSection o).name ≠ .empty ∧ k.file.FirstSection k.delivered o := by
  have reads := h.owner_reads
  rw [OwnerReads, ho] at reads
  split_ifs at reads with unnamed
  obtain ⟨t, i, found, same⟩ := reads
  obtain rfl := Option.some.inj same
  obtain ⟨name, first⟩ := firstSection_of_first? names found
  rw [name]
  exact ⟨mt Bytes.isEmpty_iff.mpr unnamed, first⟩

theorem Aux.Becomes.auxNamed {e : Aux} {l : List CoffWorks.Aux} (h : e.Becomes (sectionNames k.base specs) l)
    {a : CoffWorks.Aux} (ha : a ∈ l) : k.file.AuxNamed k.delivered a := by
  cases h with
  | definition found =>
    obtain rfl := List.mem_singleton.mp ha
    exact .definition _ (firstSection_of_first? names found).2
  | fileName cut =>
    obtain ⟨piece, mem, rfl⟩ := List.mem_map.mp ha
    exact .fileName ⟨_, _, cut, mem⟩

theorem Symbol.Becomes.auxNamed {s : Symbol} {x : CoffWorks.Symbol} (h : s.Becomes (sectionNames k.base specs) x)
    {a : CoffWorks.Aux} (ha : a ∈ x.aux) : k.file.AuxNamed k.delivered a := by
  obtain ⟨parts, all, flat⟩ := h.aux_becomes
  rw [← flat, List.mem_flatten] at ha
  obtain ⟨part, hp, ha⟩ := ha
  obtain ⟨e, -, becomes⟩ := forall₂_exists_of_mem all.flip hp
  exact becomes.auxNamed names ha

end References

/-- A relocation refers to the first symbol with the name that it gives. -/
theorem Section.Becomes.firstSymbol {k : Bench} {l : List Symbol} (names : k.symbols.map (·.name) = l.map (·.name))
    {machine : Machine} {s : Section} {rs : List CoffWorks.Relocation}
    (h : s.Becomes machine (symbolNames k.base l) rs) {t : CoffWorks.Relocation} (ht : t ∈ rs) :
    k.file.FirstSymbol k.delivered t.symbol := by
  obtain ⟨r, -, becomes⟩ := forall₂_exists_of_mem h.flip ht
  have found := becomes.symbol_eq
  rw [symbolNames, first?_mapIdx (fun s : Symbol => s.name), ← names] at found
  obtain ⟨i, found, same⟩ := Option.map_eq_some_iff.mp found
  rw [← same]
  exact ObjectFile.firstSymbol_delivered found

/-- What does not depend on relocations is the same in the sections and in what was asked for. -/
theorem map_makeSections {α : Type} {b : BuilderId} {g : CoffWorks.Section → α} {g' : SectionSpec → α}
    (same : ∀ spec rs, g (spec.make rs (some b)) = g' spec) {specs : List SectionSpec}
    {rss : List (List CoffWorks.Relocation)} (hl : specs.length = rss.length) :
    (makeSections b specs rss).map g = specs.map g' := by
  rw [makeSections, List.map_zipWith]
  exact List.ext_getElem (by simp [hl]) (by simp [same])

private theorem exists_relocations_of_mem {b : BuilderId} {specs : List SectionSpec}
    {rss : List (List CoffWorks.Relocation)} {y : CoffWorks.Section} (hy : y ∈ makeSections b specs rss) :
    ∃ rs ∈ rss, y.relocations = rs.toArray := by
  obtain ⟨i, hi, rfl⟩ := List.mem_iff_getElem.mp hy
  simp only [makeSections, List.length_zipWith, lt_min_iff] at hi
  exact ⟨rss[i], List.getElem_mem hi.2, by simp [makeSections, SectionSpec.make]⟩

/-- Whatever is assembled refers to the first bearers of names only. -/
theorem nameable_of_becomes {x : Manifest} {p : Pool} {machine : Machine} (flags : FileFlags)
    {specs : List SectionSpec} {rss : List (List CoffWorks.Relocation)} {made : List CoffWorks.Symbol}
    (hl : specs.length = x.sections.length)
    (relocated : List.Forall₂ (Section.Becomes machine (symbolNames p x.symbols)) x.sections rss)
    (settled : List.Forall₂ (Symbol.Becomes (sectionNames p specs)) x.symbols made) :
    (bench p machine flags specs rss made).file.Nameable (bench p machine flags specs rss made).delivered := by
  have names : (bench p machine flags specs rss made).sections.map (·.name) = specs.map (·.name) :=
    map_makeSections (fun _ _ => rfl) (hl.trans relocated.length_eq)
  have names' : (bench p machine flags specs rss made).symbols.map (·.name) = x.symbols.map (·.name) := by
    rw [← List.forall₂_eq_eq_eq, List.forall₂_map_left_iff, List.forall₂_map_right_iff]
    exact settled.flip.imp fun _ _ becomes => becomes.name_eq.symm
  have origin (y : CoffWorks.Symbol) (hy : y ∈ made) : ∃ s : Symbol, s.Becomes (sectionNames p specs) y := by
    obtain ⟨s, -, becomes⟩ := forall₂_exists_of_mem settled.flip hy
    exact ⟨s, becomes⟩
  constructor
  · rw [Bench.symbolList_delivered]
    intro y hy o ho
    obtain ⟨s, becomes⟩ := origin y hy
    exact becomes.owner_first names ho
  · rw [Bench.symbolList_delivered]
    intro y hy a ha
    obtain ⟨s, becomes⟩ := origin y hy
    exact becomes.auxNamed names ha
  · rw [Bench.sectionList_delivered]
    intro _ released t ht
    obtain ⟨y, hy, rfl⟩ := List.mem_map.mp released
    obtain ⟨rs, hr, same⟩ := exists_relocations_of_mem hy
    obtain ⟨s, -, becomes⟩ := forall₂_exists_of_mem relocated.flip hr
    refine Section.Becomes.firstSymbol names' becomes ?_
    rw [Section.released, same] at ht
    exact List.mem_toArray.mp ht

/-- No file name is cut inside a character. -/
def FileNamesCutClean (x : Manifest) : Prop :=
  ∀ s ∈ x.symbols, ∀ a ∈ s.aux, ∀ name ∈ a.fileName, FileName.CutsClean name

theorem Symbol.Becomes.cutsClean_iff {sections : SectionNames} {s : Symbol} {x : CoffWorks.Symbol}
    (h : s.Becomes sections x) : (∀ a ∈ s.aux, ∀ name ∈ a.fileName, FileName.CutsClean name) ↔
      ∀ piece, .fileName piece ∈ x.aux → Text.isValid piece.text := by
  obtain ⟨parts, all, flat⟩ := h.aux_becomes
  rw [← flat]
  constructor
  · intro clean piece hp
    obtain ⟨part, mem, hp⟩ := List.mem_flatten.mp hp
    obtain ⟨a, ha, becomes⟩ := forall₂_exists_of_mem all.flip mem
    cases becomes with
    | definition => simp at hp
    | fileName cut =>
      have hp := (List.mem_map_of_injective fun _ _ => CoffWorks.Aux.fileName.inj).mp hp
      exact (FileName.cutsClean_iff cut).mp (clean _ ha _ rfl) piece hp
  · intro valid a ha name hn
    obtain ⟨part, mem, becomes⟩ := forall₂_exists_of_mem all ha
    cases becomes with
    | definition => cases hn
    | fileName cut =>
      obtain rfl := Option.some.inj hn
      exact (FileName.cutsClean_iff cut).mpr fun piece hp =>
        valid piece (List.mem_flatten.mpr ⟨_, mem, List.mem_map_of_mem hp⟩)

/-- The pieces in a file are the pieces of the names in its manifest. -/
theorem piecesValid_iff_of_becomes {x : Manifest} {k : Bench} {sections : SectionNames}
    (settled : List.Forall₂ (Symbol.Becomes sections) x.symbols k.symbols) :
    k.file.PiecesValid k.delivered ↔ x.FileNamesCutClean := by
  rw [ObjectFile.PiecesValid, Bench.symbolList_delivered]
  constructor
  · intro valid s hs
    obtain ⟨y, hy, becomes⟩ := forall₂_exists_of_mem settled hs
    exact becomes.cutsClean_iff.mpr (valid y hy)
  · intro clean y hy
    obtain ⟨s, hs, becomes⟩ := forall₂_exists_of_mem settled.flip hy
    exact (Symbol.Becomes.cutsClean_iff becomes).mp (clean s hs)

/-- What is known of every file that was built from a manifest. -/
theorem loaded_of_build {σ : Type} {readFile : Bytes → StateM σ (Attempt Bytes)} {baseDir : Bytes}
    {x : Manifest} {p q : Pool} {f : ObjectFile} {w w' : σ}
    (h : (x.build readFile baseDir p).run w = (.ok (f, q), w')) :
    f.Nameable q ∧ (∀ y ∈ f.symbolList q, y.aux.length ≤ maxAux) ∧ (f.PiecesValid q ↔ x.FileNamesCutClean) := by
  obtain ⟨machine, flags, specs, hl, assembled⟩ := assemble_of_build h
  obtain ⟨rss, made, relocated, settled, same⟩ := (assemble_eq_ok hl).mp assembled
  obtain ⟨rfl, rfl⟩ := Prod.mk.inj same
  refine ⟨nameable_of_becomes flags hl relocated settled, ?_, piecesValid_iff_of_becomes settled⟩
  rw [Bench.symbolList_delivered]
  intro y hy
  obtain ⟨s, -, becomes⟩ := forall₂_exists_of_mem settled.flip hy
  exact Symbol.Becomes.aux_le becomes

/-- Pieces that are no texts cannot be assembled again. -/
theorem piecesValid_of_assemble {f : ObjectFile} {p r : Pool} {made : ObjectFile × Pool}
    (h : (describing p f).assemble f.machine f.flags ((f.sectionList p).map (·.spec)) r = .ok made) :
    f.PiecesValid p := by
  obtain ⟨rss, symbols, -, settled, -⟩ := (assemble_eq_ok (by simp [describing])).mp h
  intro x hx piece hp
  obtain ⟨y, -, becomes⟩ := forall₂_exists_of_mem settled (List.mem_map_of_mem hx)
  obtain ⟨parts, all, -⟩ := becomes.aux_becomes
  obtain ⟨part, -, becomes⟩ := forall₂_exists_of_mem all (List.mem_map_of_mem hp)
  -- the piece is an entry of its own, and only texts can be cut
  cases becomes with
  | fileName cut => exact (FileName.records_eq_ok.mp cut).1

/-- A file that was built from any manifest has a manifest again. Building that gives a file with the same
bytes, or the same reason for having none, unless a file name was cut inside a character: then it fails. -/
theorem build_ofObject_of_build {σ : Type} {readFile : Bytes → StateM σ (Attempt Bytes)} {baseDir : Bytes}
    {x : Manifest} {p q : Pool} {f : ObjectFile} {w w' : σ}
    (h : (x.build readFile baseDir p).run w = (.ok (f, q), w')) :
    ∃ y, ofObject q f = .ok y ∧
      ∀ {m : Type → Type} [Monad m] [LawfulMonad m] (readFile' : Bytes → m (Attempt Bytes)) (baseDir' : Bytes)
        (r : Pool), ∃ result, y.build readFile' baseDir' r = pure result ∧
          ((∃ made, result = .ok made) ↔ x.FileNamesCutClean) ∧
          ∀ g r', result = .ok (g, r') → g.bytes r' = f.bytes q := by
  obtain ⟨nameable, few, clean⟩ := loaded_of_build h
  refine ⟨_, ofObject_of_nameable nameable, fun readFile' baseDir' r =>
    ⟨_, build_describing_eq readFile' baseDir' r, ?_, ?_⟩⟩
  · rw [← clean]
    exact ⟨fun ⟨_, again⟩ => piecesValid_of_assemble again,
      fun valid => ⟨_, assemble_describing r nameable valid few⟩⟩
  · intro g r' again
    rw [assemble_describing r nameable (piecesValid_of_assemble again) few] at again
    obtain ⟨rfl, rfl⟩ := Prod.mk.inj (Except.ok.inj again)
    exact (nameable.alike r).bytes_eq.symm

/-- Sections and symbols without names and with the same names, data from a file, and a file name that
is cut between two characters. -/
def namesakeManifest : Manifest where
  machine := "0x9"
  flags := ["0xffff"]
  sections := [
    { dataFile := "code.bin" },
    { data := "01 00", flags := ["cnt_code", "0x80"], relocations := [{ type := "7", offset := 1 }] },
    { name := ".data" },
    { name := ".data" }]
  symbols := [
    { name := ".file", storageClass := "file", aux := [{ fileName := some "a rather long nameé.c" }] },
    {},
    { sectionName := ".data", aux := [{ definition := some {} }, { definition := some { sectionName := ".data" } }] },
    { storageClass := "200", value := 3 }]

/-- Files that have as many bytes as were read before. -/
def countingReader (_ : Bytes) : StateM Nat (Attempt Bytes) := fun n => (.ok ⟨.replicate n 7⟩, n + 1)

/-- The manifest is built, described and built again, and the bytes are the same. -/
theorem build_namesakeManifest : ∃ f q w, (namesakeManifest.build countingReader "dir" {}).run 5 = (.ok (f, q), w) ∧
    ∃ y g r, ofObject q f = .ok y ∧ y.build (m := Id) (fun _ => .error .endOfInput) .empty q = .ok (g, r) ∧
      g.bytes r = f.bytes q := by
  have ok : ((namesakeManifest.build countingReader "dir" {}).run 5).1.isOk := by decide +kernel
  obtain ⟨⟨f, q⟩, w, built⟩ := exists_of_isOk ok
  have cut : FileName.records "a rather long nameé.c" =
      .ok [.ofBytes "a rather long name", .ofBytes "é.c"] := by decide +kernel
  have clean : namesakeManifest.FileNamesCutClean := by
    have names : ∀ s ∈ namesakeManifest.symbols, ∀ a ∈ s.aux, ∀ name ∈ a.fileName, name = "a rather long nameé.c" := by
      decide +kernel
    intro s hs a ha name hn
    rw [names s hs a ha name hn, FileName.cutsClean_iff cut]
    decide +kernel
  obtain ⟨y, described, built'⟩ := build_ofObject_of_build built
  obtain ⟨result, again, succeeds, same⟩ := built' (m := Id) (fun _ => .error .endOfInput) .empty q
  obtain ⟨⟨g, r⟩, rfl⟩ := succeeds.mpr clean
  exact ⟨f, q, w, built, y, g, r, described, again, same g r rfl⟩

/-- There are no files. -/
def noReader (_ : Bytes) : StateM Unit (Attempt Bytes) := pure (.error .endOfInput)

/-- A file name of which the last character is cut in two. -/
def cutManifest : Manifest where
  machine := "amd64"
  symbols := [{ name := ".file", storageClass := "file", aux := [{ fileName := some "aaaaaaaaaaaaaaaaaé" }] }]

/-- The manifest is built and described, but its description cannot be built. -/
theorem cutManifest_lost : ∃ f q y, (cutManifest.build noReader .empty {}).run () = (.ok (f, q), ()) ∧
    ofObject q f = .ok y ∧ ∀ made, (y.build noReader .empty {}).run () ≠ (.ok made, ()) := by
  have ok : ((cutManifest.build noReader .empty {}).run ()).1.isOk := by decide +kernel
  obtain ⟨⟨f, q⟩, w, built⟩ := exists_of_isOk ok
  obtain ⟨nameable, -, clean⟩ := loaded_of_build built
  refine ⟨f, q, _, built, ofObject_of_nameable nameable, fun made again => ?_⟩
  rw [build_describing_eq] at again
  have valid := clean.mp (piecesValid_of_assemble (congrArg Prod.fst again)) _ (List.mem_singleton_self _) _
    (List.mem_singleton_self _) _ rfl 0
  revert valid
  decide +kernel

end Manifest

end CoffWorks
