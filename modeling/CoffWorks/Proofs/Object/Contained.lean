import CoffWorks.Proofs.Object.Limits
import CoffWorks.Proofs.Object.Workshop

namespace CoffWorks

/-- The record was made to describe one of the sections, or from a file name. -/
inductive Aux.Constructed (sections : Array SectionId) : Aux → Prop
  | describing {s : SectionId} {number : UInt16} {a : Aux} (mem : s ∈ sections)
      (made : Aux.describing (some s) number = .ok a) : Constructed sections a
  | single {name : Bytes} {piece : FileName} (made : FileName.single name = .ok piece) :
      Constructed sections (.fileName piece)
  | records {name : Bytes} {pieces : List FileName} {piece : FileName}
      (made : FileName.records name = .ok pieces) (mem : piece ∈ pieces) : Constructed sections (.fileName piece)

/-- What is done with the builder `b` refers to what that builder made before. -/
def Making.Action.Own (b : BuilderId) (p : Pool) : Making.Action → Prop
  | addSymbol c spec => c = b → (∀ s ∈ spec.owner, s ∈ (p.getBuilder b).sections) ∧
      ∀ a, some a ∈ spec.aux → a.Constructed (p.getBuilder b).sections
  | addRelocation c _ r => c = b → ∀ y ∈ r.symbol, y ∈ (p.getBuilder b).symbols
  | _ => True

namespace Symbol

/-- The symbol refers to no other sections. -/
structure Within (x : Symbol) (sections : Array SectionId) : Prop where
  owner_mem : ∀ s ∈ x.owner, s ∈ sections
  aux_constructed : ∀ a ∈ x.aux, a.Constructed sections
  aux_le : x.aux.length ≤ maxAux

theorem Within.mono {x : Symbol} {sections more : Array SectionId} (h : x.Within sections)
    (sub : ∀ s ∈ sections, s ∈ more) : x.Within more where
  owner_mem s hs := sub s (h.owner_mem s hs)
  aux_constructed a ha := by
    cases h.aux_constructed a ha with
    | describing mem made => exact .describing (sub _ mem) made
    | single made => exact .single made
    | records made mem => exact .records made mem
  aux_le := h.aux_le

theorem within_of_settleSymbol {spec : SymbolSpec} {x : Symbol} (settled : Making.settleSymbol spec = .ok x)
    {sections : Array SectionId} (owner : ∀ s ∈ spec.owner, s ∈ sections)
    (aux : ∀ a, some a ∈ spec.aux → a.Constructed sections) : x.Within sections := by
  obtain ⟨records, same, few, rfl⟩ := Making.settleSymbol_eq_ok.mp settled
  exact ⟨owner, fun a ha => aux a (same ▸ List.mem_map_of_mem ha), few⟩

end Symbol

/-- A file is closed if its relocations and its symbols stay within it. -/
theorem ObjectFile.closed_of_within {f : ObjectFile} {p : Pool}
    (relocations : ∀ x ∈ f.sectionList p, ∀ r ∈ x.relocations, r.symbol ∈ f.symbols)
    (symbols : ∀ x ∈ f.symbolList p, x.Within f.sections) : f.Closed p where
  relocation_mem := relocations
  owner_mem x hx := (symbols x hx).owner_mem
  aux_closed x hx a ha := by
    cases (symbols x hx).aux_constructed a ha with
    | describing mem made =>
      obtain rfl := Except.ok.inj made
      exact .definition mem _
    | single made => exact .fileName _
    | records made mem => exact .fileName _
  aux_le x hx := (symbols x hx).aux_le

namespace Pool

/-- What the builder `b` has made refers to nothing else. -/
structure Contained (p : Pool) (b : BuilderId) : Prop where
  relocation_mem : ∀ s ∈ (p.getBuilder b).sections, ∀ r ∈ (p.getSection s).relocations,
    r.symbol ∈ (p.getBuilder b).symbols
  symbol_within : ∀ y ∈ (p.getBuilder b).symbols, (p.getSymbol y).Within (p.getBuilder b).sections

theorem Grows.opened {p q : Pool} (h : p.Grows q) {b : BuilderId} (opened : ¬ (q.getBuilder b).isSealed) :
    ¬ (p.getBuilder b).isSealed := by
  intro closed
  by_cases known : p.HasBuilder b
  · rw [h.getBuilder_eq known closed] at opened
    exact opened closed
  · have outside : p.builders.size ≤ b.index := Nat.not_lt.mp known
    simp [getBuilder, outside] at closed

private theorem lists_deliver (p : Pool) (b c : BuilderId) (sections : Array SectionId) :
    ((p.deliver c sections).getBuilder b).sections = (p.getBuilder b).sections ∧
      ((p.deliver c sections).getBuilder b).symbols = (p.getBuilder b).symbols := by
  rw [getBuilder_deliver]
  split_ifs <;> exact ⟨rfl, rfl⟩

namespace Contained

variable {p q : Pool} {b : BuilderId}

theorem empty (b : BuilderId) : Contained {} b where
  relocation_mem s hs := absurd hs (by simp [getBuilder])
  symbol_within y hy := absurd hy (by simp [getBuilder])

/-- More is made that refers to nothing else. -/
theorem extend (h : p.Contained b) (linked : p.Linked) (grows : p.Grows q)
    (sections : ∀ s ∈ (p.getBuilder b).sections, s ∈ (q.getBuilder b).sections)
    (symbols : ∀ y ∈ (p.getBuilder b).symbols, y ∈ (q.getBuilder b).symbols)
    (relocations : ∀ s ∈ (q.getBuilder b).sections, ∀ r ∈ (q.getSection s).relocations,
      s ∈ (p.getBuilder b).sections ∧ r ∈ (p.getSection s).relocations ∨ r.symbol ∈ (q.getBuilder b).symbols)
    (within : ∀ y ∈ (q.getBuilder b).symbols,
      y ∈ (p.getBuilder b).symbols ∨ (q.getSymbol y).Within (q.getBuilder b).sections) : q.Contained b where
  relocation_mem s hs r hr := by
    rcases relocations s hs r hr with ⟨hs, hr⟩ | mem
    · exact symbols _ (h.relocation_mem s hs r hr)
    · exact mem
  symbol_within y hy := by
    rcases within y hy with old | new
    · rw [grows.getSymbol_eq (linked.hasSymbol b y old)]
      exact (h.symbol_within y old).mono sections
    · exact new

/-- What others do does not matter. -/
theorem congr (h : p.Contained b) (linked : p.Linked) (grows : p.Grows q)
    (sections : (q.getBuilder b).sections = (p.getBuilder b).sections)
    (symbols : (q.getBuilder b).symbols = (p.getBuilder b).symbols)
    (relocations : ∀ s ∈ (p.getBuilder b).sections, (q.getSection s).relocations = (p.getSection s).relocations) :
    q.Contained b := by
  refine h.extend linked grows (by simp [sections]) (by simp [symbols]) ?_ (by simp +contextual [symbols])
  intro s hs r hr
  rw [sections] at hs
  exact .inl ⟨hs, relocations s hs ▸ hr⟩

theorem pushSection (h : p.Contained b) (linked : p.Linked) (x : Section) : (p.pushSection x).Contained b :=
  h.congr linked (.pushSection p x) rfl rfl fun s hs =>
    congrArg Section.relocations (getSection_pushSection_of_has (linked.hasSection b s hs) x)

theorem addSection (h : p.Contained b) (linked : p.Linked) {c : BuilderId}
    (opened : ¬ (p.getBuilder c).isSealed) (known : p.HasBuilder c) (spec : SectionSpec) :
    ((p.pushSection (spec.make #[] (some c))).changeBuilder c fun x =>
      { x with sections := x.sections.push ⟨p.sections.size⟩ }).Contained b := by
  have grows := Grows.of_effect (.addSection opened spec)
  have builder := getBuilder_changeBuilder (p.pushSection (spec.make #[] (some c))) b c fun x =>
    { x with sections := x.sections.push ⟨p.sections.size⟩ }
  have old {s : SectionId} (hs : s ∈ (p.getBuilder b).sections) :=
    getSection_pushSection_of_has (linked.hasSection b s hs) (spec.make #[] (some c))
  by_cases mine : b = c
  · rw [if_pos ⟨mine, known⟩] at builder
    refine h.extend linked grows ?_ ?_ ?_ ?_ <;> rw [builder]
    · exact fun s hs => Array.mem_push_of_mem _ hs
    · exact fun y hy => hy
    · intro s hs r hr
      change r ∈ ((p.pushSection _).getSection s).relocations at hr
      rcases Array.mem_push.mp hs with hs | rfl
      · rw [old hs] at hr
        exact .inl ⟨hs, hr⟩
      · rw [getSection_pushSection, if_pos rfl] at hr
        exact absurd hr (Array.not_mem_empty r)
    · exact fun y hy => .inl hy
  · rw [if_neg fun both => mine both.1] at builder
    exact h.congr linked grows (by rw [builder]; rfl) (by rw [builder]; rfl) fun s hs =>
      congrArg Section.relocations (old hs)

theorem addSymbol (h : p.Contained b) (linked : p.Linked) {c : BuilderId}
    (opened : ¬ (p.getBuilder c).isSealed) (known : p.HasBuilder c) {spec : SymbolSpec} {x : Symbol}
    (settled : Making.settleSymbol spec = .ok x) (own : c = b → x.Within (p.getBuilder b).sections) :
    ((p.pushSymbol x).changeBuilder c fun z =>
      { z with symbols := z.symbols.push ⟨p.symbols.size⟩ }).Contained b := by
  have grows := Grows.of_effect (.addSymbol opened settled)
  have builder := getBuilder_changeBuilder (p.pushSymbol x) b c fun z =>
    { z with symbols := z.symbols.push ⟨p.symbols.size⟩ }
  by_cases mine : b = c
  · rw [if_pos ⟨mine, known⟩] at builder
    refine h.extend linked grows ?_ ?_ ?_ ?_ <;> rw [builder]
    · exact fun s hs => hs
    · exact fun y hy => Array.mem_push_of_mem _ hy
    · exact fun s hs r hr => .inl ⟨hs, hr⟩
    · intro y hy
      rcases Array.mem_push.mp hy with old | rfl
      · exact .inl old
      · refine .inr ?_
        change ((p.pushSymbol x).getSymbol _).Within _
        rw [getSymbol_pushSymbol, if_pos rfl]
        exact own mine.symm
  · rw [if_neg fun both => mine both.1] at builder
    exact h.congr linked grows (by rw [builder]; rfl) (by rw [builder]; rfl) fun _ _ => rfl

/-- A relocation for an own symbol keeps the builder contained, and so does any in a section of another. -/
theorem relocated (h : p.Contained b) (linked : p.Linked) (opened : ¬ (p.getBuilder b).isSealed)
    {c : BuilderId} {t : SectionId} (owned : (p.getSection t).owner = some c) (r : Relocation)
    (own : c = b → r.symbol ∈ (p.getBuilder b).symbols) : (p.changeSection t (·.relocated r)).Contained b := by
  refine h.extend linked (.relocated owned r) (fun s hs => hs) (fun y hy => hy) ?_ fun y hy => .inl hy
  intro s hs r' hr
  rw [getSection_changeSection] at hr
  split_ifs at hr with changed
  · obtain ⟨rfl, -⟩ := changed
    rcases Array.mem_push.mp hr with old | rfl
    · exact .inl ⟨hs, old⟩
    · -- the section belongs to `b` only
      have mine := (linked.owner_iff s b).mpr ⟨opened, hs⟩
      exact .inr (own (Option.some.inj (owned.symm.trans mine)))
  · exact .inl ⟨hs, hr⟩

theorem deliver (h : p.Contained b) (linked : p.Linked) {c : BuilderId}
    (opened : ¬ (p.getBuilder c).isSealed) : (p.deliver c (p.getBuilder c).sections).Contained b := by
  obtain ⟨sections, symbols⟩ := p.lists_deliver b c (p.getBuilder c).sections
  refine h.congr linked (.deliver opened _) sections symbols fun s _ => ?_
  rw [getSection_deliver]
  split_ifs <;> rfl

/-- Whatever is done to the pool keeps the builder contained, case by case over what can be done. -/
theorem of_effect (h : p.Contained b) (linked : p.Linked) {a : Making.Action} {file : Option ObjectFile}
    (known : a.Known p) (own : a.Own b p) (opened : ¬ (p.getBuilder b).isSealed) (effect : a.Effect p file q) :
    q.Contained b := by
  have grows := Grows.of_effect effect
  cases effect with
  | newSection spec relocations rs => exact h.pushSection linked _
  | newSymbol settled => exact h.congr linked grows rfl rfl fun _ _ => rfl
  | newBuilder machine flags =>
    obtain ⟨sections, symbols, -⟩ := p.lists_pushBuilder b machine flags
    exact h.congr linked grows sections symbols fun _ _ => rfl
  | addSection free spec => exact h.addSection linked free known spec
  | addSymbol free settled =>
    exact h.addSymbol linked free known.1 settled fun mine =>
      Symbol.within_of_settleSymbol settled (own mine).1 (own mine).2
  | addRelocation _ owned named => exact h.relocated linked opened owned _ fun mine => own mine _ named
  | build free => exact h.deliver linked free
  | create file => exact h
  | ofCode file x free => exact h.pushSection linked x

theorem closed (h : p.Contained b) {f : ObjectFile} (sections : f.sections = (p.getBuilder b).sections)
    (symbols : f.symbols = (p.getBuilder b).symbols) : f.Closed p := by
  refine ObjectFile.closed_of_within (fun x hx r hr => ?_) fun x hx => ?_
  · obtain ⟨s, hs, rfl⟩ := List.mem_map.mp hx
    rw [symbols]
    exact h.relocation_mem s (sections ▸ Array.mem_toList_iff.mp hs) r hr
  · obtain ⟨y, hy, rfl⟩ := List.mem_map.mp hx
    rw [sections]
    exact h.symbol_within y (symbols ▸ Array.mem_toList_iff.mp hy)

end Contained

end Pool

namespace Workshop

/-- The builder `b` is given nothing but what it made itself. -/
def Owned (b : BuilderId) : Workshop → List Making.Action → Prop
  | _, [] => True
  | w, a :: rest => a.Own b w.pool ∧ Owned b (w.step a) rest

/-- So does whatever is done one after the other, by induction on the actions. -/
theorem contained_after {w : Workshop} (linked : w.pool.Linked) {b : BuilderId} (h : w.pool.Contained b)
    {actions : List Making.Action} (proper : w.Proper actions) (owned : Owned b w actions)
    (opened : ¬ ((w.after actions).pool.getBuilder b).isSealed) : (w.after actions).pool.Contained b := by
  induction actions generalizing w with
  | nil => exact h
  | cons a rest ih =>
    obtain ⟨known, proper⟩ := proper
    obtain ⟨own, owned⟩ := owned
    rcases w.step_eq_of_effect a with same | ⟨file, effect⟩
    · rw [same] at proper owned
      rw [after, List.foldl_cons, same] at opened ⊢
      exact ih linked h proper owned opened
    · have now := (w.grows_after (a :: rest)).opened opened
      exact ih (linked.of_effect known effect) (h.of_effect linked known own now effect) proper owned opened

end Workshop

/-- A builder that is given nothing but its own hands out a closed file. -/
theorem ObjectFile.closed_of_owned {actions : List Making.Action} {b : BuilderId} {f : ObjectFile} {q : Pool}
    (proper : Workshop.Proper {} actions) (owned : Workshop.Owned b {} actions)
    (built : Making.build b (Workshop.run actions).pool = .ok (f, q)) : f.Closed q := by
  have linked : (Workshop.run actions).pool.Linked := Workshop.linked_after .empty proper
  obtain ⟨opened, made⟩ := Making.build_eq_ok.mp built
  change (_, Pool.deliver _ b _) = _ at made
  obtain ⟨rfl, rfl⟩ := Prod.mk.inj made
  have contained := Workshop.contained_after .empty (.empty b) proper owned opened
  obtain ⟨sections, symbols⟩ := (Workshop.run actions).pool.lists_deliver b b
    ((Workshop.run actions).pool.getBuilder b).sections
  exact (contained.deliver linked opened).closed sections.symm symbols.symm

end CoffWorks
