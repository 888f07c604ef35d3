import CoffWorks.Proofs.Manifest.Reload
import CoffWorks.Proofs.Text.Hexadecimal
import CoffWorks.Proofs.Text.PathName

namespace CoffWorks.Manifest

open Text

/-- The texts are read as flags, and all of these together are `flags`. -/
def FlagsRead {α : Type} [OrOp α] (zero : α) (parse : Bytes → Attempt α) (texts : List Bytes) (flags : α) : Prop :=
  ∃ parts, List.Forall₂ (fun text f => parse text = .ok f) texts parts ∧ parts.foldl (· ||| ·) zero = flags

/-- Flags are read if each of their texts is. -/
theorem readFlags_eq_ok {α : Type} [OrOp α] {zero : α} {path : List Bytes} {parse : Bytes → Attempt α}
    {texts : List Bytes} {flags : α} :
    readFlags zero path parse texts = .ok flags ↔ FlagsRead zero parse texts flags := by
  constructor
  · intro h
    induction texts generalizing zero with
    | nil => exact ⟨[], .nil, Except.ok.inj h⟩
    | cons text rest ih =>
      rw [readFlags, List.foldlM_cons, Attempt.bind_eq_ok] at h
      obtain ⟨_, first, h⟩ := h
      obtain ⟨f, parsed, first⟩ := Attempt.bind_eq_ok.mp first
      obtain rfl := Except.ok.inj first
      obtain ⟨parts, others, all⟩ := ih h
      exact ⟨f :: parts, .cons (readAt_eq_ok.mp parsed) others, all⟩
  · rintro ⟨parts, parsed, rfl⟩
    exact readFlags_of_parse parsed

theorem header_eq_ok {x : Manifest} {machine : Machine} {flags : FileFlags} : x.header = .ok (machine, flags) ↔
    Machine.parse x.machine = .ok machine ∧ FlagsRead ⟨0⟩ FileFlags.parse x.flags flags := by
  simp only [header, Attempt.bind_eq_ok, readAt_eq_ok, readFlags_eq_ok]
  constructor
  · rintro ⟨_, parsed, _, read, same⟩
    obtain ⟨rfl, rfl⟩ := Prod.mk.inj (Except.ok.inj same)
    exact ⟨parsed, read⟩
  · rintro ⟨parsed, read⟩
    exact ⟨_, parsed, _, read, rfl⟩

section Paths

open PathName

variable {names : List Bytes}

/-- A path from the root is taken as it is. -/
theorem resolvePath_absolute (baseDir : Bytes) (hn : names ≠ []) (h : ∀ n ∈ names, Part n) :
    resolvePath baseDir (path true names) = path true names :=
  if_pos (.inl (isAbsolute_path hn h))

/-- Other paths are seen from the directory that is given. -/
theorem resolvePath_relative {rooted : Bool} {dirs : List Bytes} (hd : dirs ≠ []) (hn : names ≠ [])
    (dirs_part : ∀ n ∈ dirs, Part n) (names_part : ∀ n ∈ names, Part n) :
    resolvePath (path rooted dirs) (path false names) = PathName.join (path rooted dirs) (path false names) := by
  have relative : ¬ isAbsolute (path false names) := by
    rw [isAbsolute_path hn names_part]
    exact Bool.false_ne_true
  exact if_neg (not_or.mpr ⟨relative, mt Bytes.isEmpty_iff.mp (path_ne_empty rooted hd dirs_part)⟩)

/-- With nothing but names, the file is in or below that directory. -/
theorem resolvePath_proper {rooted : Bool} {dirs : List Bytes} (hd : dirs ≠ []) (hn : names ≠ [])
    (dirs_proper : ∀ n ∈ dirs, Proper n) (names_proper : ∀ n ∈ names, Proper n) :
    resolvePath (path rooted dirs) (path false names) = path rooted (dirs ++ names) := by
  rw [resolvePath_relative hd hn (fun n hn => (dirs_proper n hn).toPart) (fun n hn => (names_proper n hn).toPart),
    join_of_proper hd hn dirs_proper names_proper]

/-- A step up leads to what is beside the directory. -/
theorem resolvePath_up {rooted : Bool} {dirs : List Bytes} {dir : Bytes} (hn : names ≠ [])
    (dirs_proper : ∀ n ∈ dirs ++ [dir], Proper n) (names_proper : ∀ n ∈ names, Proper n) :
    resolvePath (path rooted (dirs ++ [dir])) (path false (".." :: names)) = path rooted (dirs ++ names) := by
  rw [resolvePath_relative (by simp) (by simp) (fun n hn => (dirs_proper n hn).toPart) (part_up_cons names_proper),
    join_up hn dirs_proper names_proper]

end Paths

section Readers

variable {σ : Type} (readFile : Bytes → StateM σ (Attempt Bytes)) (baseDir : Bytes)

/-- The data of a section, and the state of the files before and after. -/
inductive Section.Loads (s : Section) : σ → Bytes → σ → Prop
  | text {w : σ} {b : Bytes} (alone : s.dataFile = .empty)
      (denotes : Hex.Denotes (withoutBlanks s.data).data.toList b.data.toList) : Loads s w b w
  | file {w w' : σ} {b : Bytes} (alone : s.data = .empty) (named : s.dataFile ≠ .empty)
      (read : (readFile (resolvePath baseDir s.dataFile)).run w = (.ok b, w')) : Loads s w b w'

/-- The data of sections that are loaded one after the other. -/
inductive Loading : σ → List Section → List Bytes → σ → Prop
  | nil {w : σ} : Loading w [] [] w
  | cons {w w₁ w' : σ} {s : Section} {b : Bytes} {l : List Section} {bs : List Bytes}
      (first : s.Loads readFile baseDir w b w₁) (rest : Loading w₁ l bs w') : Loading w (s :: l) (b :: bs) w'

/-- The files can be read one after the other. -/
def Readable : List Bytes → σ → Prop
  | [], _ => True
  | path :: rest, w => ∃ b w', (readFile path).run w = (.ok b, w') ∧ Readable rest w'

/-- The files that are named in sections. -/
def dataPaths (l : List Section) : List Bytes :=
  (l.filter fun s => ¬ s.dataFile.isEmpty).map fun s => resolvePath baseDir s.dataFile

/-- The text of the data is an even number of hexadecimal digits, with blanks anywhere. -/
def Section.DataDenotes (s : Section) : Prop :=
  Even (withoutBlanks s.data).size ∧ ∀ c ∈ (withoutBlanks s.data).data.toList, Hex.IsHexDigit c

variable {readFile baseDir} {w w' : σ}

private theorem run_pure_eq {α : Type} {a b : α} : (pure a : StateM σ α).run w = (b, w') ↔ a = b ∧ w = w' :=
  Prod.mk.injEq a w b w' ▸ Iff.rfl

private theorem run_bind_eq {α β : Type} {x : StateM σ α} {g : α → StateM σ β} {r : β × σ} :
    (x >>= g).run w = r ↔ ∃ a w₁, x.run w = (a, w₁) ∧ (g a).run w₁ = r := by
  refine ⟨exists_of_run_bind, ?_⟩
  rintro ⟨a, w₁, first, rfl⟩
  have parts := Prod.mk.inj first
  exact congrArg₂ (fun a w => (g a).run w) parts.1 parts.2

/-- Without a file, the data of a section is what its text denotes. -/
theorem Section.loads_text {s : Section} {b : Bytes} (alone : s.dataFile = .empty) :
    s.Loads readFile baseDir w b w' ↔ Hex.decode (withoutBlanks s.data) = .ok b ∧ w = w' := by
  rw [Hex.decode_eq_ok]
  constructor
  · intro h
    cases h with
    | text _ denotes => exact ⟨denotes, rfl⟩
    | file _ named => exact absurd alone named
  · rintro ⟨denotes, rfl⟩
    exact .text alone denotes

/-- A file is read from where its path leads, and then there is no text. -/
theorem Section.loads_file {s : Section} {b : Bytes} (named : s.dataFile ≠ .empty) :
    s.Loads readFile baseDir w b w' ↔
      s.data = .empty ∧ (readFile (resolvePath baseDir s.dataFile)).run w = (.ok b, w') := by
  constructor
  · intro h
    cases h with
    | text alone => exact absurd alone named
    | file alone _ read => exact ⟨alone, read⟩
  · rintro ⟨alone, read⟩
    exact .file alone named read

theorem Section.load_eq_ok {s : Section} {b : Bytes} :
    (s.load readFile baseDir).run w = (.ok b, w') ↔ s.Loads readFile baseDir w b w' := by
  have data := Bytes.isEmpty_iff (b := s.data)
  have dataFile := Bytes.isEmpty_iff (b := s.dataFile)
  unfold load
  by_cases alone : s.dataFile = .empty
  · rw [loads_text alone, if_neg (fun both => both.2 (dataFile.mpr alone))]
    by_cases empty : s.data = .empty
    · have nothing : Hex.decode (withoutBlanks .empty) = .ok .empty := by
        rw [Plain.withoutBlanks_eq (by simp [Plain])]
        rfl
      rw [if_neg (not_not.mpr (data.mpr empty)), if_neg (not_not.mpr (dataFile.mpr alone)), empty, nothing]
      exact run_pure_eq
    · rw [if_pos (mt data.mp empty)]
      exact run_pure_eq.trans (and_congr_left' readAt_eq_ok)
  · rw [loads_file alone]
    by_cases empty : s.data = .empty
    · rw [if_neg (fun both => both.1 (data.mpr empty)), if_neg (not_not.mpr (data.mpr empty)),
        if_pos (mt dataFile.mp alone), and_iff_right empty, run_bind_eq]
      constructor
      · rintro ⟨result, w₁, read, h⟩
        cases result with
        | error e => cases h
        | ok a =>
          obtain ⟨same, rfl⟩ := run_pure_eq.mp h
          rw [read, same]
      · intro read
        exact ⟨_, _, read, rfl⟩
    · rw [if_pos ⟨mt data.mp empty, mt dataFile.mp alone⟩]
      exact iff_of_false (fun h => by cases h) (fun h => empty h.1)

/-- Sections can be loaded if each has data of one kind and the files can be read. -/
theorem exists_loading {l : List Section} : (∃ bs w', Loading readFile baseDir w l bs w') ↔
    (∀ s ∈ l, (s.data = .empty ∨ s.dataFile = .empty) ∧ s.DataDenotes) ∧
      Readable readFile (dataPaths baseDir l) w := by
  induction l generalizing w with
  | nil => exact iff_of_true ⟨[], w, .nil⟩ ⟨by simp, trivial⟩
  | cons s rest ih =>
    have step : (∃ bs w', Loading readFile baseDir w (s :: rest) bs w') ↔
        ∃ b w₁, s.Loads readFile baseDir w b w₁ ∧ ∃ bs w', Loading readFile baseDir w₁ rest bs w' := by
      constructor
      · rintro ⟨_, w', h⟩
        cases h with
        | cons first others => exact ⟨_, _, first, _, _, others⟩
      · rintro ⟨b, w₁, first, bs, w', others⟩
        exact ⟨_, _, .cons first others⟩
    rw [step, List.forall_mem_cons]
    simp only [ih]
    by_cases alone : s.dataFile = .empty
    · have same : dataPaths baseDir (s :: rest) = dataPaths baseDir rest := by
        simp [dataPaths, Bytes.isEmpty_iff.mpr alone]
      have hex : (∃ b, Hex.decode (withoutBlanks s.data) = .ok b) ↔ s.DataDenotes := Hex.exists_decode
      rw [same, ← hex, and_iff_right (Or.inr alone)]
      constructor
      · rintro ⟨b, w₁, loads, others⟩
        obtain ⟨decoded, rfl⟩ := (Section.loads_text alone).mp loads
        exact ⟨⟨⟨b, decoded⟩, others.1⟩, others.2⟩
      · rintro ⟨⟨⟨b, decoded⟩, kinds⟩, readable⟩
        exact ⟨b, w, (Section.loads_text alone).mpr ⟨decoded, rfl⟩, kinds, readable⟩
    · have more : dataPaths baseDir (s :: rest) = resolvePath baseDir s.dataFile :: dataPaths baseDir rest := by
        simp [dataPaths, mt Bytes.isEmpty_iff.mp alone]
      have denotes (empty : s.data = .empty) : s.DataDenotes := by
        rw [Section.DataDenotes, empty, Plain.withoutBlanks_eq (by simp [Plain])]
        simp
      rw [more, Readable, or_iff_left alone]
      constructor
      · rintro ⟨b, w₁, loads, others⟩
        obtain ⟨empty, read⟩ := (Section.loads_file alone).mp loads
        exact ⟨⟨⟨empty, denotes empty⟩, others.1⟩, b, w₁, read, others.2⟩
      · rintro ⟨⟨⟨empty, -⟩, kinds⟩, b, w₁, read, readable⟩
        exact ⟨b, w₁, (Section.loads_file alone).mpr ⟨empty, read⟩, kinds, readable⟩

/-- The parts of a section other than its data and relocations. -/
structure Section.Heads (s : Section) (spec : SectionSpec) : Prop where
  name_eq : spec.name = s.name
  address_eq : spec.address = s.address
  flags_read : FlagsRead ⟨0⟩ SectionFlags.parse s.flags spec.flags

theorem Section.spec_eq_ok {s : Section} {spec : SectionSpec} :
    (s.spec readFile baseDir).run w = (.ok spec, w') ↔ s.Heads spec ∧ s.Loads readFile baseDir w spec.data w' := by
  unfold Section.spec
  cases read : readFlags ⟨0⟩ (below s.path "characteristics") SectionFlags.parse s.flags with
  | error e =>
    refine iff_of_false (fun h => by cases h) ?_
    rintro ⟨heads, -⟩
    cases read.symm.trans (readFlags_eq_ok.mpr heads.flags_read)
  | ok flags =>
    have flags_read := readFlags_eq_ok.mp read
    simp only
    rw [run_bind_eq]
    constructor
    · rintro ⟨data, w₁, loaded, h⟩
      cases data with
      | error e => cases h
      | ok b =>
        obtain ⟨made, rfl⟩ := run_pure_eq.mp h
        obtain rfl := Except.ok.inj made
        exact ⟨⟨rfl, rfl, flags_read⟩, load_eq_ok.mp loaded⟩
    · rintro ⟨heads, loads⟩
      refine ⟨_, _, load_eq_ok.mpr loads, run_pure_eq.mpr ⟨?_, rfl⟩⟩
      have same := (readFlags_eq_ok.mpr heads.flags_read).symm.trans read
      rw [← Except.ok.inj same, ← heads.name_eq, ← heads.address_eq]

/-- Sections are read one after the other, each with the state that the ones before it left. -/
theorem sectionSpecs_eq_ok {l : List Section} {acc specs : List SectionSpec} :
    (sectionSpecs readFile baseDir l acc).run w = (.ok specs, w') ↔ ∃ made, acc.reverse ++ made = specs ∧
      List.Forall₂ Section.Heads l made ∧ Loading readFile baseDir w l (made.map (·.data)) w' := by
  induction l generalizing acc w with
  | nil =>
    refine run_pure_eq.trans ?_
    constructor
    · rintro ⟨same, rfl⟩
      exact ⟨[], (List.append_nil _).trans (Except.ok.inj same), .nil, .nil⟩
    · rintro ⟨_, rfl, heads, loading⟩
      cases heads
      cases loading
      rw [List.append_nil]
      exact ⟨rfl, rfl⟩
  | cons s rest ih =>
    rw [sectionSpecs, run_bind_eq]
    constructor
    · rintro ⟨result, w₁, first, h⟩
      cases result with
      | error e => cases h
      | ok spec =>
        obtain ⟨heads, loads⟩ := Section.spec_eq_ok.mp first
        obtain ⟨made, rfl, others, loading⟩ := ih.mp h
        exact ⟨spec :: made, by simp, .cons heads others, .cons loads loading⟩
    · rintro ⟨_, rfl, heads, loading⟩
      cases heads with
      | cons head others =>
        cases loading with
        | cons loads loading =>
          refine ⟨_, _, Section.spec_eq_ok.mpr ⟨head, loads⟩, ih.mpr ⟨_, ?_, others, loading⟩⟩
          simp

/-- A build reads the header and the sections, and then it assembles them. -/
theorem build_eq_ok {x : Manifest} {p : Pool} {made : ObjectFile × Pool} :
    (x.build readFile baseDir p).run w = (.ok made, w') ↔ ∃ machine flags specs,
      x.header = .ok (machine, flags) ∧ List.Forall₂ Section.Heads x.sections specs ∧
      Loading readFile baseDir w x.sections (specs.map (·.data)) w' ∧ x.assemble machine flags specs p = .ok made := by
  unfold build
  cases x.header with
  | error e =>
    refine iff_of_false (fun h => by cases h) ?_
    rintro ⟨_, _, _, h, -⟩
    cases h
  | ok head =>
    obtain ⟨machine, flags⟩ := head
    simp only
    rw [run_bind_eq]
    constructor
    · rintro ⟨result, w₁, first, h⟩
      cases result with
      | error e => cases h
      | ok specs =>
        obtain ⟨assembled, rfl⟩ := run_pure_eq.mp h
        obtain ⟨_, rfl, heads, loading⟩ := sectionSpecs_eq_ok.mp first
        exact ⟨machine, flags, _, rfl, heads, loading, assembled⟩
    · rintro ⟨_, _, specs, same, heads, loading, assembled⟩
      obtain ⟨rfl, rfl⟩ := Prod.mk.inj (Except.ok.inj same)
      exact ⟨_, _, sectionSpecs_eq_ok.mpr ⟨specs, rfl, heads, loading⟩, run_pure_eq.mpr ⟨assembled, rfl⟩⟩

end Readers

end CoffWorks.Manifest
