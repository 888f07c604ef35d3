import CoffWorks.Proofs.Manifest.Reload
import CoffWorks.Proofs.Object.Code
import CoffWorks.Proofs.Object.Contained

namespace CoffWorks

namespace Code

variable {m : Machine} {align : SectionFlags} {code source : Bytes} {labels : List CodeLabel}
  {fixups : List CodeFixup} {pieces : List FileName} {p : Pool}

private theorem bench_relocation_mem {x : Section} (hx : x ∈ (bench p m align code labels fixups pieces).sections)
    {r : Relocation} (hr : r ∈ x.relocations) :
    r.symbol ∈ (bench p m align code labels fixups pieces).file.symbols := by
  have referring : r ∈ relocationsFrom p m fixups 4 labels := by
    -- only the first section has relocations
    rcases List.mem_cons.mp hx with rfl | hx
    · simpa [Section.relocatedBy] using hr
    · rcases List.mem_pair.mp hx with rfl | rfl <;> exact absurd hr (Array.not_mem_empty r)
  obtain ⟨j, inside, symbol⟩ := exists_of_mem_relocationsFrom referring
  rw [symbol]
  refine Bench.nextSymbol_mem (k := bench p m align code labels fixups pieces) ?_
  simpa [bench, headSymbols, Nat.add_comm 4] using inside

private theorem bench_symbol_within (cut : FileName.records source = .ok pieces) {x : Symbol}
    (hx : x ∈ (bench p m align code labels fixups pieces).symbols) :
    x.Within (bench p m align code labels fixups pieces).file.sections := by
  have section_mem (i : Nat) (h : i < 3) :
      p.nextSection i ∈ (bench p m align code labels fixups pieces).file.sections := Bench.nextSection_mem h
  rcases symbol_cases hx with rfl | ⟨i, hi, name, number, rfl⟩ | ⟨label, -, rfl⟩
  · refine Symbol.within_of_settleSymbol (settleSymbol_file _ cut) ?_ ?_
    · rintro s ⟨⟩
      exact section_mem 0 (by decide)
    · intro a ha
      obtain ⟨piece, mem, same⟩ := List.mem_map.mp ha
      obtain rfl := Option.some.inj same
      exact .records cut mem
  · refine ⟨?_, ?_, Nat.one_le_ofNat⟩
    · rintro s ⟨⟩
      exact section_mem i hi
    · intro a ha
      obtain rfl := List.mem_singleton.mp ha
      exact .describing (section_mem i hi) rfl
  · refine Symbol.within_of_settleSymbol (settleSymbol_labelSpec _ label) ?_ nofun
    intro s hs
    cases external : label.isExternal with
    | true => simp [labelSpec, external] at hs
    | false =>
      obtain rfl : p.nextSection 0 = s := by simpa [labelSpec, external] using hs
      exact section_mem 0 (by decide)

end Code

namespace ObjectFile

variable {f : ObjectFile} {p q : Pool}

theorem closed_of_code {m : Machine} {code source : Bytes} {labels : List CodeLabel} {fixups : List CodeFixup}
    (made : Code.object m code labels fixups source p = .ok (f, q)) : f.Closed q := by
  obtain ⟨align, pieces, -, cut, -, same⟩ := Code.object_eq_ok.mp made
  obtain ⟨rfl, rfl⟩ := Prod.mk.inj same
  refine closed_of_within ?_ ?_
  · rw [Bench.sectionList_delivered]
    intro _ released r hr
    obtain ⟨x, hx, rfl⟩ := List.mem_map.mp released
    exact Code.bench_relocation_mem hx hr
  · rw [Bench.symbolList_delivered]
    exact fun x hx => Code.bench_symbol_within cut hx

theorem closed_of_manifest {σ : Type} {readFile : Bytes → StateM σ (Attempt Bytes)} {baseDir : Bytes}
    {x : Manifest} {w w' : σ} (built : (x.build readFile baseDir p).run w = (.ok (f, q), w')) : f.Closed q := by
  obtain ⟨nameable, few, -⟩ := Manifest.loaded_of_build built
  refine ⟨fun y hy r hr => (nameable.relocation_first y hy r hr).mem,
    fun y hy s hs => (nameable.owner_first y hy s hs).2.mem, fun y hy a ha => ?_, few⟩
  cases nameable.aux_named y hy a ha with
  | definition number first => exact .definition first.mem number
  | fileName made => exact .fileName _

/-- The file was made in one of the ways that keep it closed. -/
inductive Origin (f : ObjectFile) (q : Pool) : Prop
  | manifest {σ : Type} {readFile : Bytes → StateM σ (Attempt Bytes)} {baseDir : Bytes} {x : Manifest} {p : Pool}
      {w w' : σ} (built : (x.build readFile baseDir p).run w = (.ok (f, q), w')) : Origin f q
  | code {m : Machine} {code source : Bytes} {labels : List CodeLabel} {fixups : List CodeFixup} {p : Pool}
      (made : Code.object m code labels fixups source p = .ok (f, q)) : Origin f q
  | builder {actions : List Making.Action} {b : BuilderId} (proper : Workshop.Proper {} actions)
      (owned : Workshop.Owned b {} actions) (built : Making.build b (Workshop.run actions).pool = .ok (f, q)) :
      Origin f q

/-- In whatever way it was made, the file refers to nothing outside. -/
theorem Origin.closed (h : f.Origin q) : f.Closed q := by
  cases h with
  | manifest built => exact closed_of_manifest built
  | code made => exact closed_of_code made
  | builder proper owned built => exact closed_of_owned proper owned built

/-- Such a file is written, unless it exceeds a limit of the format or has a name that is not a text. -/
theorem bytes_of_origin (h : f.Origin q) :
    (∀ e, f.bytes q = .error e → ∃ fault, e = .fault fault ∧
      (fault.kind = .overflow ∧ ¬ f.WithinLimits q ∨ f.BlamesName q fault)) ∧
    ((∀ n ∈ f.names q, Text.isValid n) → f.WithinLimits q → ∃ d, f.bytes q = .ok d) :=
  ⟨fun _ failed => h.closed.bytes_eq_error failed, h.closed.exists_bytes⟩

/-- A builder works on a section of its own while another one has begun. -/
def ownActions : List Making.Action := [
  .newBuilder .amd64 ⟨0⟩,
  .newBuilder .i386 ⟨0⟩,
  .addSection ⟨1⟩ { name := ".text$with_a_long_name", data := ⟨#[232, 0, 0, 0, 0]⟩ },
  .addSection ⟨0⟩ { name := ".data" },
  .addSymbol ⟨1⟩ { name := ".text", owner := some ⟨0⟩, aux := [some (.definition (some ⟨0⟩) 1)] },
  .addRelocation ⟨1⟩ (some ⟨0⟩) { symbol := some ⟨0⟩, address := 1 }]

private theorem ownActions_owned : Workshop.Owned ⟨1⟩ {} ownActions := by
  refine ⟨trivial, trivial, trivial, trivial, fun _ => ⟨?_, ?_⟩, fun _ => ?_, trivial⟩
  · decide +kernel
  · intro a ha
    obtain rfl := Option.some.inj (List.mem_singleton.mp ha)
    exact .describing (by decide +kernel) rfl
  · decide +kernel

/-- Two sections of one name, and a relocation by the name of a symbol that comes later. -/
def twinManifest : Manifest where
  machine := "amd64"
  sections := [
    { name := ".text", data := "e8 00 00 00 00",
      relocations := [{ symbol := "puts", type := "rel32", offset := 1 }] },
    { name := ".text" }]
  symbols := [
    { name := ".text", sectionName := ".text", aux := [{ definition := some { sectionName := ".text" } }] },
    { name := "puts", storageClass := "external" }]

def callLabels : List CodeLabel := [{ name := "printf", isExternal := true }]

def callFixups : List CodeFixup := [{ symbol := "printf", offset := 1, isRelative := true }]

/-- One file of each origin is written. -/
theorem bytes_of_origin_samples :
    (∃ f q, (twinManifest.build Manifest.noReader .empty {}).run () = (.ok (f, q), ()) ∧ ∃ d, f.bytes q = .ok d) ∧
    (∃ f q, Code.object .amd64 ⟨#[232, 0, 0, 0, 0]⟩ callLabels callFixups "hello.asm" {} = .ok (f, q) ∧
      ∃ d, f.bytes q = .ok d) ∧
    ∃ f q, Making.build ⟨1⟩ (Workshop.run ownActions).pool = .ok (f, q) ∧ ∃ d, f.bytes q = .ok d := by
  refine ⟨?_, ?_, ?_⟩
  · have checked : ((twinManifest.build Manifest.noReader .empty {}).run ()).1.toOption.any (fun r =>
        (∀ n ∈ r.1.names r.2, Text.isValid n) ∧ r.1.WithinLimits r.2) = true := by decide +kernel
    rcases built : (twinManifest.build Manifest.noReader .empty {}).run () with ⟨_ | ⟨f, q⟩, w⟩
    · rw [built] at checked
      cases checked
    · rw [built] at checked
      obtain ⟨valid, limits⟩ := of_decide_eq_true checked
      exact ⟨f, q, rfl, (bytes_of_origin (.manifest built)).2 valid limits⟩
  · have cut : FileName.records "hello.asm" = .ok [.ofBytes "hello.asm"] := by decide +kernel
    have supported : ∀ e ∈ callFixups, (∃ label ∈ callLabels, label.name = e.symbol) ∧ e.Supported := by
      intro e he
      obtain rfl := List.mem_singleton.mp he
      exact ⟨⟨_, List.mem_singleton_self _, rfl⟩, .inl rfl⟩
    have made : Code.object .amd64 ⟨#[232, 0, 0, 0, 0]⟩ callLabels callFixups "hello.asm" {} = .ok (_, _) :=
      Code.object_eq_ok.mpr ⟨_, _, rfl, cut, supported, rfl⟩
    exact ⟨_, _, made, (bytes_of_origin (.code made)).2 (by decide +kernel) (by decide +kernel)⟩
  · have built : Making.build ⟨1⟩ (Workshop.run ownActions).pool =
        .ok ({ machine := .i386, sections := #[⟨0⟩], symbols := #[⟨0⟩] },
          (Workshop.run (ownActions ++ [.build ⟨1⟩])).pool) := rfl
    exact ⟨_, _, built, (bytes_of_origin (.builder (by decide +kernel) ownActions_owned built)).2
      (by decide +kernel) (by decide +kernel)⟩

end ObjectFile

end CoffWorks
