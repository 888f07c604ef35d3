import CoffWorks.Proofs.Object.Making

namespace CoffWorks

open Bytes

namespace Attempt

variable {α β : Type} {P : Fault → Prop}

/-- If there is no result, then because of a broken rule as `P` says. -/
def FailsWith (P : Fault → Prop) (x : Attempt α) : Prop :=
  ∀ e, x = .error e → ∃ fault, e = .fault fault ∧ P fault

theorem failsWith_ok (a : α) : FailsWith P (.ok a) := by
  intro e he
  cases he

theorem failsWith_reject {fault : Fault} (h : P fault) : FailsWith P (reject fault : Attempt α) := by
  intro e he
  cases he
  exact ⟨fault, rfl, h⟩

theorem FailsWith.bind {x : Attempt α} {g : α → Attempt β} (hx : FailsWith P x)
    (hg : ∀ a, x = .ok a → FailsWith P (g a)) : FailsWith P (x >>= g) :=
  Fails.bind hx hg

theorem FailsWith.map {x : Attempt α} (hx : FailsWith P x) (g : α → β) : FailsWith P (x.map g) := by
  cases x with
  | error e =>
    intro e' he
    cases he
    exact hx e rfl
  | ok a => exact failsWith_ok (g a)

end Attempt

open Attempt

/-- The file gives cause for the fault. -/
inductive ObjectFile.Causes (f : ObjectFile) (p : Pool) : Fault → Prop
  /-- Something is too large for its field. -/
  | overflow {fault : Fault} (kind : fault.kind = .overflow) : Causes f p fault
  | name {fault : Fault} {n : Bytes} (phase : fault.phase = .construct) (kind : fault.kind = .invalidInput)
      (mem : n ∈ f.names p) (invalid : ¬ Text.isValid n) : Causes f p fault
  | relocation {fault : Fault} {x : Section} {r : Relocation} (kind : fault.kind = .invariant)
      (mem : x ∈ f.sectionList p) (inside : r ∈ x.relocations) (absent : r.symbol ∉ f.symbols) :
      Causes f p fault
  | owner {fault : Fault} {x : Symbol} {o : SectionId} (kind : fault.kind = .invariant)
      (mem : x ∈ f.symbolList p) (owned : x.owner = some o) (absent : o ∉ f.sections) : Causes f p fault
  | target {fault : Fault} {x : Symbol} {number : UInt16} (kind : fault.kind = .nilPointer)
      (mem : x ∈ f.symbolList p) (inside : .definition none number ∈ x.aux) : Causes f p fault
  | record {fault : Fault} {x : Symbol} (kind : fault.kind = .unsupported)
      (mem : x ∈ f.symbolList p) (inside : .unknown ∈ x.aux) : Causes f p fault

namespace Script

/-- Whether it has failed or not, the steps of the script can be run; if it has not, they make at
least `n` bytes, and if it has, then for a reason as `P` says. -/
structure Runs (s : Script) (P : Fault → Prop) (n : Nat) : Prop where
  content : ∃ b, s.steps.toList.foldlM Step.apply .empty = some b ∧ s.size = b.size
  size_ge : s.failure = none → n ≤ s.size
  failure_is : ∀ e, s.failure = some e → ∃ fault, e = .fault fault ∧ P fault

variable {s : Script} {P : Fault → Prop} {m n : Nat}

private theorem runs_empty : Runs {} P 0 :=
  ⟨⟨.empty, rfl, rfl⟩, fun _ => Nat.le_refl 0, fun _ h => by cases h⟩

/-- A buffer takes whatever steps there are, so that the only failure is that of the script. -/
theorem Runs.run_staging (h : s.Runs P n) (before : Bytes) (hb : before.size + UInt32.size ≤ 2 ^ 63) :
    (s.run (⟨before⟩ : Staging)).2 = s.failure := by
  obtain ⟨b, content, -⟩ := h.content
  have steps := Step.runAll_staging before .empty b s.steps.toList content hb
  have start : Sink.offset (⟨before⟩ : Staging) = before.size := rfl
  rw [ByteArray.append_empty] at steps
  rw [run, start, steps]

namespace Runs

theorem mono (h : s.Runs P n) (hm : m ≤ n) : s.Runs P m :=
  ⟨h.content, fun going => Nat.le_trans hm (h.size_ge going), h.failure_is⟩

/-- A script that has failed is not continued. -/
theorem of_failed (h : s.Runs P n) {e : Failure} (he : s.failure = some e) : s.Runs P m :=
  ⟨h.content, fun going => by simp [he] at going, h.failure_is⟩

theorem failing {steps : Array Step} {size : Nat} {strings : StringTable} {e : Failure}
    (content : ∃ b, steps.toList.foldlM Step.apply .empty = some b ∧ size = b.size)
    (he : ∃ fault, e = .fault fault ∧ P fault) : Runs ⟨steps, size, strings, some e⟩ P n := by
  refine ⟨content, fun going => by simp at going, ?_⟩
  intro e' same
  obtain rfl : e = e' := Option.some.inj same
  exact he

/-- Appending cannot fail. -/
theorem append (h : s.Runs P n) (data : Bytes) : (s.append data).Runs P (n + data.size) := by
  obtain ⟨steps, size, strings, _ | e⟩ := s
  · obtain ⟨b, content, size_eq⟩ := h.content
    refine ⟨⟨b ++ data, ?_, ?_⟩, ?_, h.failure_is⟩
    · simp [Script.append, List.foldlM_append, content, Step.apply]
    · rw [ByteArray.size_append, ← size_eq]
      rfl
    · intro _
      exact Nat.add_le_add_right (h.size_ge rfl) data.size
  · exact h.of_failed rfl

/-- A pointer is filled in where there is room for it, or the file has become too large. -/
theorem point (h : s.Runs P n) (position : Nat) (field : Bytes) (hp : position + 4 ≤ n)
    (hP : ∀ fault, fault.kind = .overflow → P fault) : (s.point position field).Runs P n := by
  obtain ⟨steps, size, strings, _ | e⟩ := s
  · obtain ⟨b, content, size_eq⟩ := h.content
    obtain rfl : size = b.size := size_eq
    have inside : position + 4 ≤ b.size := Nat.le_trans hp (h.size_ge rfl)
    rw [Script.point]
    split_ifs with small
    · refine ⟨⟨b.overwrite position (push32 .empty (.ofNat b.size)), ?_, ?_⟩, h.size_ge, h.failure_is⟩
      · simp [List.foldlM_append, content, Step.apply, push32, inside, small]
      · exact (size_overwrite b _ position (by simpa [push32] using inside)).symm
    · exact failing ⟨b, content, rfl⟩ ⟨_, rfl, hP _ rfl⟩
  · exact h.of_failed rfl

theorem emit (h : s.Runs P n) (bytes : Unit → Attempt Bytes) (hb : FailsWith P (bytes ()))
    (hm : ∀ data, bytes () = .ok data → m ≤ data.size) : (s.emit bytes).Runs P (n + m) := by
  obtain ⟨steps, size, strings, _ | e⟩ := s
  · rw [Script.emit]
    cases result : bytes () with
    | ok data =>
      have least := hm data result
      cases none : data.isEmpty with
      | false => simpa [none] using (h.append data).mono (Nat.add_le_add_left least n)
      | true =>
        have empty : data.size = 0 := by simpa [ByteArray.isEmpty] using none
        simpa [none] using h.mono (by omega)
    | error e => exact failing h.content (hb e result)
  · exact h.of_failed rfl

theorem emitNamed (h : s.Runs P n) {bytes : StringTable → Attempt (Bytes × StringTable)}
    (hb : ∀ t, FailsWith P (bytes t)) (hm : ∀ t r, bytes t = .ok r → m ≤ r.1.size) :
    (s.emitNamed bytes).Runs P (n + m) := by
  obtain ⟨steps, size, strings, _ | e⟩ := s
  · rw [Script.emitNamed]
    cases result : bytes strings with
    | ok r =>
      have renamed : Runs ⟨steps, size, r.2, none⟩ P n := ⟨h.content, h.size_ge, h.failure_is⟩
      exact (renamed.append r.1).mono (Nat.add_le_add_left (hm strings r result) n)
    | error e => exact failing h.content (hb strings e result)
  · exact h.of_failed rfl

end Runs

end Script

namespace Encode

variable {α : Type} {P : Fault → Prop}

/-- A pass over a list, each item of which makes `m` more bytes, if the `n` bytes before the pass are
enough for what it points into. -/
theorem each_runs {step : Nat → α → Script → Script} {l : List α} {m n : Nat}
    (next : ∀ i a s k, l[i]? = some a → n ≤ k → Script.Runs s P k → (step i a s).Runs P (k + m))
    {s : Script} (h : s.Runs P n) : (each step 0 l s).Runs P (n + m * l.length) := by
  refine each_induction (I := fun i s => s.Runs P (n + m * i)) ?_ h
  intro i a s here made
  rw [Nat.mul_succ, ← Nat.add_assoc]
  exact next i a s (n + m * i) here (Nat.le_add_right _ _) made

variable {f : ObjectFile} {p : Pool}

private theorem narrow_failsWith {bits n : Nat} {path : Unit → List Bytes} {field : Bytes} :
    FailsWith (f.Causes p) (narrow bits n path field) := by
  unfold narrow
  split
  · exact failsWith_ok n
  · exact failsWith_reject (.overflow rfl)

private theorem slotsFrom_failsWith (l : List SymbolId) (i slot : Nat) (slots : Slots) :
    FailsWith (f.Causes p) (slotsFrom p i slot slots l) := by
  induction l generalizing i slot slots with
  | nil => exact failsWith_ok slots
  | cons s rest ih =>
    rw [slotsFrom]
    split
    · exact failsWith_reject (.overflow rfl)
    · exact ih _ _ _

/-- A name that is too long for the field is only refused where there is no room for its offset. -/
private theorem add_failsWith {n : Bytes} (hn : n ∈ f.names p) (t : StringTable) :
    FailsWith (f.Causes p) (t.add n) := by
  by_cases valid : Text.isValid n
  · have check : StringTable.checkText n = .ok () := if_pos valid
    by_cases reach : Name.Reaches (StringTable.bias + t.size) n
    · rw [StringTable.add_eq_ok.mpr ⟨⟨valid, reach⟩, rfl⟩]
      exact failsWith_ok _
    · obtain ⟨long, far⟩ := Classical.not_imp.mp reach
      have store : t.store n =
          reject (.overflow .construct ["string table"] (.int (t.size + StringTable.bias)) "name offset") :=
        if_pos (by omega)
      rw [StringTable.add, check]
      change FailsWith _ (if _ then _ else _)
      rw [if_neg (Nat.not_le.mpr long), store]
      exact FailsWith.bind (failsWith_reject (.overflow rfl)) fun _ stored => by cases stored
  · have check : StringTable.checkText n = reject _ := if_neg valid
    rw [StringTable.add, check]
    exact FailsWith.bind (failsWith_reject (.name rfl rfl hn valid)) fun _ h => by cases h

private theorem relocationBytes_failsWith {slots : Slots} (hs : Locates f p slots) {x : Section}
    (hx : x ∈ f.sectionList p) (path : Unit → List Bytes) (j : Nat) (acc : Bytes) (l : List Relocation)
    (hl : ∀ r ∈ l, r ∈ x.relocations) : FailsWith (f.Causes p) (relocationBytes slots path j acc l) := by
  induction l generalizing j acc with
  | nil => exact failsWith_ok acc
  | cons r rest ih =>
    rw [relocationBytes, hs]
    by_cases known : r.symbol ∈ f.symbols
    · simp only [known, ↓reduceIte]
      exact ih _ _ fun r' hr' => hl r' (List.mem_cons_of_mem _ hr')
    · simp only [known, ↓reduceIte]
      exact failsWith_reject (.relocation rfl hx (hl r List.mem_cons_self) known)

private theorem auxBytes_failsWith {x : Symbol} (hx : x ∈ f.symbolList p) {a : Aux} (ha : a ∈ x.aux)
    (path : Unit → List Bytes) (b : Bytes) : FailsWith (f.Causes p) (auxBytes p path b a) := by
  cases a with
  | definition target number =>
    cases target with
    | none => exact failsWith_reject (.target rfl hx ha)
    | some target =>
      rw [auxBytes]
      refine (narrow_failsWith.map _).bind fun length _ => ?_
      refine (narrow_failsWith.map _).bind fun count _ => ?_
      exact failsWith_ok _
  | fileName piece => exact failsWith_ok _
  | unknown => exact failsWith_reject (.record rfl hx ha)

private theorem auxRecords_failsWith {x : Symbol} (hx : x ∈ f.symbolList p) (path : Unit → List Bytes) (j : Nat)
    (b : Bytes) (l : List Aux) (hl : ∀ a ∈ l, a ∈ x.aux) :
    FailsWith (f.Causes p) (auxRecords p path j b l) := by
  induction l generalizing j b with
  | nil => exact failsWith_ok b
  | cons a rest ih =>
    rw [auxRecords]
    refine (auxBytes_failsWith hx (hl a List.mem_cons_self) _ b).bind fun b' _ => ?_
    exact ih _ _ fun a' ha' => hl a' (List.mem_cons_of_mem _ ha')

private theorem sectionNumber_failsWith {x : Symbol} (hx : x ∈ f.symbolList p) (path : Unit → List Bytes) :
    FailsWith (f.Causes p) (sectionNumber p f path x.owner) := by
  cases owned : x.owner with
  | none => exact failsWith_ok 0
  | some o =>
    rw [sectionNumber]
    split
    · next absent => exact failsWith_reject (.owner rfl hx owned (sectionIndex_eq_zero.mp absent))
    · exact narrow_failsWith.map _

section Steps

variable {s : Script} {n : Nat}

theorem fileHeader_runs (h : s.Runs (f.Causes p) n) :
    (fileHeader p f s).Runs (f.Causes p) (n + FileHeader.size) := by
  apply h.emit
  · refine (narrow_failsWith.map _).bind fun sections _ => ?_
    refine (narrow_failsWith.map _).bind fun symbols _ => ?_
    exact failsWith_ok _
  · intro data made
    simp only [Attempt.bind_eq_ok] at made
    obtain ⟨sections, -, symbols, -, made⟩ := made
    rw [← Except.ok.inj made, FileHeader.size_encode]

theorem sectionHeader_runs {x : Section} (hx : x ∈ f.sectionList p) (i : Nat) (h : s.Runs (f.Causes p) n) :
    (sectionHeader i x s).Runs (f.Causes p) (n + SectionHeader.size) := by
  have name : x.name ∈ f.names p := List.mem_append_left _ (List.mem_map_of_mem hx)
  apply h.emitNamed
  · intro t
    refine (add_failsWith name t).bind fun stored added => ?_
    obtain ⟨⟨-, reach⟩, rfl⟩ := StringTable.add_eq_ok.mp added
    simp only [Name.sectionField_stored reach]
    refine (narrow_failsWith.map _).bind fun size _ => ?_
    refine (narrow_failsWith.map _).bind fun count _ => ?_
    exact failsWith_ok _
  · intro t r made
    simp only [Attempt.bind_eq_ok] at made
    obtain ⟨stored, -, field, -, size, -, count, -, made⟩ := made
    rw [← Except.ok.inj made, SectionHeader.size_encode]

theorem symbol_runs {x : Symbol} (hx : x ∈ f.symbolList p) (i : Nat) (h : s.Runs (f.Causes p) n) :
    (symbol p f i x s).Runs (f.Causes p) n := by
  have name : x.name ∈ f.names p := List.mem_append_right _ (List.mem_map_of_mem hx)
  refine h.emitNamed (m := 0) ?_ fun _ _ _ => Nat.zero_le _
  intro t
  refine (sectionNumber_failsWith hx _).bind fun number _ => ?_
  refine (narrow_failsWith.map _).bind fun count _ => ?_
  refine (add_failsWith name t).bind fun stored _ => ?_
  refine (auxRecords_failsWith hx _ _ _ _ fun _ ha => ha).bind fun bytes _ => ?_
  exact failsWith_ok _

/-- All pointers stand in headers, which come before the bodies. -/
theorem sectionBody_runs {slots : Slots} (hs : Locates f p slots) {x : Section} (hx : x ∈ f.sectionList p)
    {i : Nat} (hi : headerPosition (i + 1) ≤ n) (h : s.Runs (f.Causes p) n) :
    (sectionBody slots i x s).Runs (f.Causes p) n := by
  have pointer (field : Nat) (hf : field + 4 ≤ SectionHeader.size) : headerPosition i + field + 4 ≤ n := by
    rw [headerPosition, Nat.mul_succ] at hi
    rw [headerPosition]
    omega
  have overflow (fault : Fault) (kind : fault.kind = .overflow) : f.Causes p fault := .overflow kind
  have atData := h.point _ "PointerToRawData" (pointer SectionHeader.rawDataField (by decide)) overflow
  have data := (atData.append x.data).mono (Nat.le_add_right ..)
  have atRelocations := data.point _ "PointerToRelocations"
    (pointer SectionHeader.relocationsField (by decide)) overflow
  have relocations := atRelocations.emit (m := 0)
    (fun _ => relocationBytes slots (fun _ => sectionPath i x) 0 .empty x.relocations.toList)
    (relocationBytes_failsWith hs hx _ _ _ _ fun r hr => Array.mem_toList_iff.mp hr) fun _ _ => Nat.zero_le _
  have atLineNumbers := relocations.point _ "PointerToLineNumbers"
    (pointer SectionHeader.lineNumbersField (by decide)) overflow
  exact (atLineNumbers.append (zeros lineNumberBlock)).mono (Nat.le_add_right ..)

end Steps

private theorem stringTable_runs {s : Script} {n : Nat} (h : s.Runs P n) : (stringTable s).Runs P n :=
  ((h.append _).append _).mono (by omega)

/-- However far the encoder gets with a file, what it has made by then can be run. -/
theorem script_runs (p : Pool) (f : ObjectFile) : (script p f).Runs (f.Causes p) 0 := by
  unfold script
  split
  · next e refused => exact .failing ⟨.empty, rfl, rfl⟩ (slotsFrom_failsWith _ _ _ _ e refused)
  · next slots assigned =>
    have located := locates_of_assignSlots assigned
    have header := fileHeader_runs (p := p) (f := f) Script.runs_empty
    have headers := each_runs
      (fun i x s k hx _ h => sectionHeader_runs (List.mem_of_getElem? hx) i h) header
    rw [ObjectFile.length_sectionList, Nat.zero_add] at headers
    have inside {i : Nat} {x : Section} (hx : (f.sectionList p)[i]? = some x) :
        headerPosition (i + 1) ≤ headerPosition f.sections.size := by
      have lt : i < f.sections.size := by simpa using (List.getElem?_eq_some_iff.mp hx).1
      exact Nat.add_le_add_left (Nat.mul_le_mul_left _ lt) _
    -- the bodies point into headers, and all of those have been made
    have bodies := each_runs (m := 0) (l := f.sectionList p) (fun i x s k hx hk h =>
      sectionBody_runs located (List.mem_of_getElem? hx) (Nat.le_trans (inside hx) hk) h) headers
    have table := bodies.point FileHeader.symbolTableField "PointerToSymbolTable"
      (Nat.le_trans (by decide) (Nat.le_trans (Nat.le_add_right _ _) (Nat.le_add_right _ _)))
      fun _ kind => .overflow kind
    have symbols := each_runs (m := 0) (l := f.symbolList p)
      (fun i x s k hx _ h => symbol_runs (List.mem_of_getElem? hx) i h) table
    simp only [each_map]
    exact (stringTable_runs symbols).mono (Nat.zero_le _)

end Encode

namespace ObjectFile

variable {f : ObjectFile} {p : Pool}

/-- The limits that a file has to keep to. -/
structure Acceptable (f : ObjectFile) (p : Pool) : Prop where
  sections_le : f.sections.size ≤ 65535
  slots_le : f.slotCount p ≤ 2 ^ 32 - 1
  name_valid : ∀ n ∈ f.names p, Text.isValid n
  nameOffset_le : ∀ k n, (f.names p)[k]? = some n → 8 < n.size → f.nameOffset p k ≤ 9999999
  data_lt : ∀ x ∈ f.sectionList p, x.data.size < 2 ^ 32
  relocations_le : ∀ x ∈ f.sectionList p, x.relocations.size ≤ 65535
  symbolTable_le : f.symbolTablePosition p ≤ 2 ^ 32 - 1
  relocation_mem : ∀ x ∈ f.sectionList p, ∀ r ∈ x.relocations, r.symbol ∈ f.symbols
  owner_mem : ∀ x ∈ f.symbolList p, ∀ o ∈ x.owner, o ∈ f.sections
  aux_is : ∀ x ∈ f.symbolList p, ∀ a ∈ x.aux, (∃ piece, a = .fileName piece) ∨
    ∃ target number, a = .definition (some target) number ∧
      (p.getSection target).data.size < 2 ^ 32 ∧ (p.getSection target).relocations.size ≤ 65535

/-- Only symbols with too many auxiliary records are refused as well, and there are none. -/
theorem Built.encodable_iff (h : f.Built p) : f.Encodable p ↔ f.Acceptable p := by
  constructor
  · intro c
    refine ⟨Nat.le_of_lt_succ c.sections_lt, Nat.le_of_lt_succ c.slots_lt, ?_, ?_, ?_, ?_,
      Nat.le_of_lt_succ c.symbolTable_lt, c.relocation_mem, c.owner_mem, ?_⟩
    · intro n hn
      obtain ⟨k, hk⟩ := List.getElem?_of_mem hn
      exact (c.name_fits k n hk).1
    · intro k n hk
      exact (c.name_fits k n hk).2
    · intro x hx
      exact (c.section_fits x hx).1
    · intro x hx
      exact Nat.le_of_lt_succ (c.section_fits x hx).2
    · intro x hx a ha
      have encodable := c.aux_encodable x hx a ha
      cases a with
      | definition target number =>
        cases target with
        | none => exact encodable.elim
        | some target =>
          exact .inr ⟨target, number, rfl, encodable.1, Nat.le_of_lt_succ encodable.2⟩
      | fileName piece => exact .inl ⟨piece, rfl⟩
      | unknown => exact encodable.elim
  · intro a
    refine ⟨Nat.lt_succ_of_le a.sections_le, Nat.lt_succ_of_le a.slots_le, Nat.lt_succ_of_le a.symbolTable_le,
      ?_, ?_, a.relocation_mem, a.owner_mem, ?_, ?_⟩
    · intro k n hk
      exact ⟨a.name_valid n (List.mem_of_getElem? hk), a.nameOffset_le k n hk⟩
    · intro x hx
      exact ⟨a.data_lt x hx, Nat.lt_succ_of_le (a.relocations_le x hx)⟩
    · intro x hx
      exact Nat.lt_succ_of_le (h.aux_le hx)
    · intro x hx record mem
      rcases a.aux_is x hx record mem with ⟨piece, rfl⟩ | ⟨target, number, rfl, data, relocations⟩
      · trivial
      · exact ⟨data, Nat.lt_succ_of_le relocations⟩

/-- The encoder writes a file to a buffer exactly if it keeps to the limits. If it does not, the file
gives cause for the fault that is reported; there is no other way to fail. -/
theorem encode_staging_iff_acceptable (h : f.Built p) (stage : Staging)
    (hs : stage.data.size + UInt32.size ≤ 2 ^ 63) :
    ((f.encode p stage).2 = none ↔ f.Acceptable p) ∧
      ∀ e, (f.encode p stage).2 = some e → ∃ fault, e = .fault fault ∧ f.Causes p fault := by
  have made := Encode.script_runs p f
  have result : (f.encode p stage).2 = (Encode.script p f).failure := made.run_staging stage.data hs
  rw [result, (Encode.script_produces p f).failure_iff]
  exact ⟨h.encodable_iff, made.failure_is⟩

theorem encode_sampleFile_acceptable : sampleFile.Built samplePool ∧ sampleFile.Acceptable samplePool ∧
    (sampleFile.encode samplePool ({} : Staging)).2 = none := by
  have accepted : sampleFile.Acceptable samplePool := sampleFile_built.encodable_iff.mp sampleFile_encodable
  obtain ⟨iff, -⟩ := encode_staging_iff_acceptable sampleFile_built {} (by decide)
  exact ⟨sampleFile_built, accepted, iff.mpr accepted⟩

end ObjectFile

end CoffWorks
