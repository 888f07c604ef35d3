import CoffWorks.Proofs.Object.Bench

namespace CoffWorks

private theorem array_getD_push {α : Type} (a : Array α) (x d : α) (i : Nat) :
    (a.push x).getD i d = if i = a.size then x else a.getD i d := by
  rw [Array.getD_eq_getD_getElem?, Array.getD_eq_getD_getElem?, Array.getElem?_push]
  split_ifs <;> rfl

private theorem array_getD_modify {α : Type} (a : Array α) (j : Nat) (f : α → α) (d : α) (i : Nat) :
    (a.modify j f).getD i d = if i = j ∧ j < a.size then f (a.getD i d) else a.getD i d := by
  rw [Array.getD_eq_getD_getElem?, Array.getD_eq_getD_getElem?, Array.getElem?_modify]
  by_cases here : j = i
  · subst here
    by_cases inside : j < a.size <;> simp [inside]
  · simp [here, Ne.symm here]

namespace Pool

section

variable (p : Pool)

def HasSection (s : SectionId) : Prop := s.index < p.sections.size

def HasSymbol (y : SymbolId) : Prop := y.index < p.symbols.size

def HasBuilder (b : BuilderId) : Prop := b.index < p.builders.size

instance (s : SectionId) : Decidable (p.HasSection s) := inferInstanceAs (Decidable (_ < _))

instance (b : BuilderId) : Decidable (p.HasBuilder b) := inferInstanceAs (Decidable (_ < _))

variable (s t : SectionId) (b c : BuilderId)

theorem getSection_pushSection (x : Section) :
    (p.pushSection x).getSection s = if s = ⟨p.sections.size⟩ then x else p.getSection s := by
  obtain ⟨i⟩ := s
  simp only [getSection, pushSection, array_getD_push, SectionId.mk.injEq]

theorem getSection_pushSection_of_has {p : Pool} {s : SectionId} (h : p.HasSection s) (x : Section) :
    (p.pushSection x).getSection s = p.getSection s := by
  rw [getSection_pushSection, if_neg]
  rintro rfl
  exact Nat.lt_irrefl _ h

theorem getSymbol_pushSymbol (y : SymbolId) (x : Symbol) :
    (p.pushSymbol x).getSymbol y = if y = ⟨p.symbols.size⟩ then x else p.getSymbol y := by
  obtain ⟨i⟩ := y
  simp only [getSymbol, pushSymbol, array_getD_push, SymbolId.mk.injEq]

theorem getSymbol_mem {p : Pool} {y : SymbolId} (h : p.HasSymbol y) : p.getSymbol y ∈ p.symbols := by
  have inside : y.index < p.symbols.size := h
  rw [getSymbol, Array.getD, dif_pos inside]
  exact Array.getElem_mem _

private theorem getBuilder_pushBuilder (x : Builder) :
    (p.pushBuilder x).getBuilder b = if b = ⟨p.builders.size⟩ then x else p.getBuilder b := by
  obtain ⟨i⟩ := b
  simp only [getBuilder, pushBuilder, array_getD_push, BuilderId.mk.injEq]

/-- The builder that is made next has nothing yet, as if it existed already. -/
theorem lists_pushBuilder (machine : Machine) (flags : FileFlags) :
    let x := (p.pushBuilder { machine, flags }).getBuilder b
    x.sections = (p.getBuilder b).sections ∧ x.symbols = (p.getBuilder b).symbols ∧
      x.isSealed = (p.getBuilder b).isSealed := by
  rw [getBuilder_pushBuilder]
  split_ifs with new
  · have none : p.getBuilder b = {} := by simp [new, getBuilder]
    rw [none]
    exact ⟨rfl, rfl, rfl⟩
  · exact ⟨rfl, rfl, rfl⟩

theorem getSection_changeSection (f : Section → Section) : (p.changeSection t f).getSection s =
    if s = t ∧ p.HasSection t then f (p.getSection s) else p.getSection s := by
  obtain ⟨i⟩ := s
  obtain ⟨j⟩ := t
  simp only [getSection, changeSection, array_getD_modify, SectionId.mk.injEq, HasSection]

theorem getBuilder_changeBuilder (f : Builder → Builder) : (p.changeBuilder c f).getBuilder b =
    if b = c ∧ p.HasBuilder c then f (p.getBuilder b) else p.getBuilder b := by
  obtain ⟨i⟩ := b
  obtain ⟨j⟩ := c
  simp only [getBuilder, changeBuilder, array_getD_modify, BuilderId.mk.injEq, HasBuilder]

theorem getSection_deliver (sections : Array SectionId) : (p.deliver b sections).getSection s =
    if s ∈ sections then (p.getSection s).released else p.getSection s := by
  rw [deliver, ← Array.foldl_toList, Bench.getSection_foldl_release]
  simp only [Array.mem_toList_iff]
  rfl

private theorem foldl_release_frame (l : List SectionId) : (l.foldl Making.release p).builders = p.builders ∧
    (l.foldl Making.release p).sections.size = p.sections.size := by
  induction l generalizing p with
  | nil => exact ⟨rfl, rfl⟩
  | cons s rest ih =>
    obtain ⟨builders, size⟩ := ih (Making.release p s)
    exact ⟨builders, size.trans Array.size_modify⟩

private theorem builders_deliver (sections : Array SectionId) : (p.deliver b sections).builders =
    (p.changeBuilder b fun x => { x with isSealed := true }).builders := by
  rw [deliver, ← Array.foldl_toList]
  exact (foldl_release_frame _ _).1

theorem getBuilder_deliver (sections : Array SectionId) : (p.deliver b sections).getBuilder c =
    if c = b ∧ p.HasBuilder b then { p.getBuilder c with isSealed := true } else p.getBuilder c := by
  rw [getBuilder, builders_deliver, ← getBuilder, getBuilder_changeBuilder]

theorem symbols_deliver (sections : Array SectionId) : (p.deliver b sections).symbols = p.symbols := by
  rw [deliver, ← Array.foldl_toList]
  exact symbols_foldl_release _ _

private theorem sections_size_deliver (sections : Array SectionId) :
    (p.deliver b sections).sections.size = p.sections.size := by
  rw [deliver, ← Array.foldl_toList]
  exact (foldl_release_frame _ _).2

end

end Pool

namespace Pool

/-- `q` came from `p`: nothing disappeared, and what is settled stayed as it was. -/
structure Grows (p q : Pool) : Prop where
  sections_le : p.sections.size ≤ q.sections.size
  symbols_le : p.symbols.size ≤ q.symbols.size
  builders_le : p.builders.size ≤ q.builders.size
  name_eq : ∀ {s}, p.HasSection s → (q.getSection s).name = (p.getSection s).name
  /-- A section without an owner is complete. -/
  getSection_eq : ∀ {s}, p.HasSection s → (p.getSection s).owner = none → q.getSection s = p.getSection s
  getSymbol_eq : ∀ {y}, p.HasSymbol y → q.getSymbol y = p.getSymbol y
  getBuilder_eq : ∀ {b}, p.HasBuilder b → (p.getBuilder b).isSealed → q.getBuilder b = p.getBuilder b

namespace Grows

variable {p q r : Pool}

theorem refl (p : Pool) : p.Grows p where
  sections_le := Nat.le_refl _
  symbols_le := Nat.le_refl _
  builders_le := Nat.le_refl _
  name_eq _ := rfl
  getSection_eq _ _ := rfl
  getSymbol_eq _ := rfl
  getBuilder_eq _ _ := rfl

theorem hasSection (h : p.Grows q) {s : SectionId} (hs : p.HasSection s) : q.HasSection s :=
  Nat.lt_of_lt_of_le hs h.sections_le

theorem hasSymbol (h : p.Grows q) {y : SymbolId} (hy : p.HasSymbol y) : q.HasSymbol y :=
  Nat.lt_of_lt_of_le hy h.symbols_le

theorem hasBuilder (h : p.Grows q) {b : BuilderId} (hb : p.HasBuilder b) : q.HasBuilder b :=
  Nat.lt_of_lt_of_le hb h.builders_le

/-- What came from what came from a pool came from that pool. -/
theorem trans (h : p.Grows q) (k : q.Grows r) : p.Grows r where
  sections_le := Nat.le_trans h.sections_le k.sections_le
  symbols_le := Nat.le_trans h.symbols_le k.symbols_le
  builders_le := Nat.le_trans h.builders_le k.builders_le
  name_eq hs := (k.name_eq (h.hasSection hs)).trans (h.name_eq hs)
  getSection_eq hs free := by
    have first := h.getSection_eq hs free
    rw [k.getSection_eq (h.hasSection hs) (by rw [first, free]), first]
  getSymbol_eq hy := (k.getSymbol_eq (h.hasSymbol hy)).trans (h.getSymbol_eq hy)
  getBuilder_eq hb closed := by
    have first := h.getBuilder_eq hb closed
    rw [k.getBuilder_eq (h.hasBuilder hb) (by rw [first, closed]), first]

theorem pushSection (p : Pool) (x : Section) : p.Grows (p.pushSection x) := by
  have more : p.sections.size ≤ (p.pushSection x).sections.size := by simp [Pool.pushSection]
  exact { refl p with
    sections_le := more
    name_eq := fun hs => by rw [getSection_pushSection_of_has hs]
    getSection_eq := fun hs _ => getSection_pushSection_of_has hs x }

theorem pushSymbol (p : Pool) (x : Symbol) : p.Grows (p.pushSymbol x) := by
  have more : p.symbols.size ≤ (p.pushSymbol x).symbols.size := by simp [Pool.pushSymbol]
  refine { refl p with symbols_le := more, getSymbol_eq := fun {y} hy => ?_ }
  rw [getSymbol_pushSymbol, if_neg]
  rintro rfl
  exact Nat.lt_irrefl _ hy

theorem pushBuilder (p : Pool) (x : Builder) : p.Grows (p.pushBuilder x) := by
  have more : p.builders.size ≤ (p.pushBuilder x).builders.size := by simp [Pool.pushBuilder]
  refine { refl p with builders_le := more, getBuilder_eq := fun {b} hb _ => ?_ }
  rw [getBuilder_pushBuilder, if_neg]
  rintro rfl
  exact Nat.lt_irrefl _ hb

/-- An open builder may change, since nothing of it is settled. -/
theorem changeBuilder {b : BuilderId} (opened : ¬ (p.getBuilder b).isSealed) (f : Builder → Builder) :
    p.Grows (p.changeBuilder b f) := by
  have same : p.builders.size ≤ (p.changeBuilder b f).builders.size := by simp [Pool.changeBuilder]
  refine { refl p with builders_le := same, getBuilder_eq := fun {c} _ closed => ?_ }
  rw [getBuilder_changeBuilder, if_neg]
  rintro ⟨rfl, -⟩
  exact opened closed

/-- A section may get relocations as long as it has an owner. -/
theorem relocated {s : SectionId} {b : BuilderId} (owned : (p.getSection s).owner = some b) (r : Relocation) :
    p.Grows (p.changeSection s (·.relocated r)) := by
  have same : p.sections.size ≤ (p.changeSection s (·.relocated r)).sections.size := by
    simp [Pool.changeSection]
  refine { refl p with sections_le := same, name_eq := fun {t} _ => ?_, getSection_eq := fun {t} _ free => ?_ }
  · rw [getSection_changeSection]
    split_ifs <;> rfl
  · rw [getSection_changeSection, if_neg]
    rintro ⟨rfl, -⟩
    cases owned.symm.trans free

/-- A builder that was open may be sealed. -/
theorem deliver {b : BuilderId} (opened : ¬ (p.getBuilder b).isSealed) (sections : Array SectionId) :
    p.Grows (p.deliver b sections) := by
  have sealing := changeBuilder opened fun x => { x with isSealed := true }
  refine { refl p with
    sections_le := (sections_size_deliver p b sections).ge
    symbols_le := by rw [symbols_deliver]
    builders_le := by rw [builders_deliver]; exact sealing.builders_le
    name_eq := fun {s} _ => ?_
    getSection_eq := fun {s} _ free => ?_
    getSymbol_eq := fun {y} _ => by rw [getSymbol, symbols_deliver]; rfl
    getBuilder_eq := fun {c} hc closed => ?_ }
  · rw [getSection_deliver]
    split_ifs <;> rfl
  · rw [getSection_deliver, Section.released, ← free, ite_self]
  · rw [getBuilder, builders_deliver]
    exact sealing.getBuilder_eq hc closed

end Grows

/-- No action does more than what makes the pool grow. -/
theorem Grows.of_effect {p q : Pool} {a : Making.Action} {file : Option ObjectFile} (h : a.Effect p file q) :
    p.Grows q := by
  cases h with
  | newSection spec relocations rs => exact pushSection p _
  | newSymbol settled => exact pushSymbol p _
  | newBuilder machine flags => exact pushBuilder p _
  | addSection opened spec => exact (pushSection p _).trans (changeBuilder (p := p.pushSection _) opened _)
  | addSymbol opened settled => exact (pushSymbol p _).trans (changeBuilder (p := p.pushSymbol _) opened _)
  | addRelocation opened owned named => exact relocated owned _
  | build opened => exact deliver opened _
  | create file => exact refl p
  | ofCode file x free => exact pushSection p x

end Pool

namespace Workshop

/-- The workshop after one action after the other. -/
def after (w : Workshop) (actions : List Making.Action) : Workshop := actions.foldl step w

/-- A step does nothing, or it has the effect of its action. -/
theorem step_eq_of_effect (w : Workshop) (a : Making.Action) : w.step a = w ∨
    ∃ file, a.Effect w.pool file (w.step a).pool := by
  unfold step
  cases done : a.perform w.pool with
  | error e => exact .inl rfl
  | ok r => exact .inr ⟨r.1, Making.Action.effect_of_perform done⟩

private theorem grows_step (w : Workshop) (a : Making.Action) : w.pool.Grows (w.step a).pool := by
  rcases w.step_eq_of_effect a with same | ⟨file, effect⟩
  · rw [same]
    exact .refl _
  · exact .of_effect effect

/-- A workshop only grows, by induction on the actions. -/
theorem grows_after (w : Workshop) (actions : List Making.Action) : w.pool.Grows (w.after actions).pool := by
  induction actions generalizing w with
  | nil => exact .refl _
  | cons a rest ih => exact (w.grows_step a).trans (ih (w.step a))

end Workshop

/-- The section that a record describes. -/
def Aux.target? : Aux → Option SectionId
  | definition target _ => target
  | _ => none

/-- The sections that a symbol refers to. -/
def Symbol.references (x : Symbol) : List SectionId := x.owner.toList ++ x.aux.filterMap Aux.target?

def SymbolSpec.references (spec : SymbolSpec) : List SectionId :=
  spec.owner.toList ++ spec.aux.filterMap (·.bind Aux.target?)

theorem Making.references_of_settleSymbol {spec : SymbolSpec} {x : Symbol} (h : settleSymbol spec = .ok x) :
    x.references = spec.references := by
  obtain ⟨aux, records, -, rfl⟩ := settleSymbol_eq_ok.mp h
  rw [Symbol.references, SymbolSpec.references, records, List.filterMap_map]
  rfl

/-- The action works on a builder that exists, and symbols refer to sections that exist. -/
def Making.Action.Known (p : Pool) : Making.Action → Prop
  | newSymbol spec => ∀ s ∈ spec.references, p.HasSection s
  | addSection b _ => p.HasBuilder b
  | addSymbol b spec => p.HasBuilder b ∧ ∀ s ∈ spec.references, p.HasSection s
  | addRelocation b _ _ => p.HasBuilder b
  | build b => p.HasBuilder b
  | _ => True

instance (p : Pool) : DecidablePred (Making.Action.Known p)
  | .newSection .. => .isTrue trivial
  | .newSymbol _ => inferInstanceAs (Decidable (∀ _ ∈ _, _))
  | .newBuilder .. => .isTrue trivial
  | .addSection .. => inferInstanceAs (Decidable (p.HasBuilder _))
  | .addSymbol .. => inferInstanceAs (Decidable (_ ∧ ∀ _ ∈ _, _))
  | .addRelocation .. => inferInstanceAs (Decidable (p.HasBuilder _))
  | .build _ => inferInstanceAs (Decidable (p.HasBuilder _))
  | .create .. => .isTrue trivial
  | .ofCode _ => .isTrue trivial

namespace Pool

structure Linked (p : Pool) : Prop where
  /-- A section has an owner as long as the builder that made it is not sealed. -/
  owner_iff : ∀ s b, (p.getSection s).owner = some b ↔
    ¬ (p.getBuilder b).isSealed ∧ s ∈ (p.getBuilder b).sections
  hasSection : ∀ b, ∀ s ∈ (p.getBuilder b).sections, p.HasSection s
  hasSymbol : ∀ b, ∀ y ∈ (p.getBuilder b).symbols, p.HasSymbol y
  references : ∀ x ∈ p.symbols, ∀ s ∈ x.references, p.HasSection s

namespace Linked

variable {p : Pool}

theorem empty : Linked {} where
  owner_iff s b := by simp [getSection, getBuilder]
  hasSection b s hs := absurd hs (by simp [getBuilder])
  hasSymbol b y hy := absurd hy (by simp [getBuilder])
  references x hx := absurd hx (by simp)

private theorem getSection_size (p : Pool) : p.getSection ⟨p.sections.size⟩ = {} := by simp [getSection]

theorem pushSection (h : p.Linked) {x : Section} (free : x.owner = none) : (p.pushSection x).Linked where
  owner_iff s b := by
    refine Iff.trans ?_ (h.owner_iff s b)
    rw [getSection_pushSection]
    split_ifs with new
    · rw [new, getSection_size, free]
    · rfl
  hasSection b s hs := (Grows.pushSection p x).hasSection (h.hasSection b s hs)
  hasSymbol := h.hasSymbol
  references y hy s hs := (Grows.pushSection p x).hasSection (h.references y hy s hs)

theorem pushSymbol (h : p.Linked) {x : Symbol} (known : ∀ s ∈ x.references, p.HasSection s) :
    (p.pushSymbol x).Linked where
  owner_iff := h.owner_iff
  hasSection := h.hasSection
  hasSymbol b y hy := (Grows.pushSymbol p x).hasSymbol (h.hasSymbol b y hy)
  references y hy s hs := by
    rcases Array.mem_push.mp hy with old | rfl
    · exact h.references y old s hs
    · exact known s hs

theorem pushBuilder (h : p.Linked) (machine : Machine) (flags : FileFlags) :
    (p.pushBuilder { machine, flags }).Linked := by
  have same (b : BuilderId) := p.lists_pushBuilder b machine flags
  refine ⟨fun s b => ?_, fun b s hs => ?_, fun b y hy => ?_, h.references⟩
  · rw [(same b).1, (same b).2.2]
    exact h.owner_iff s b
  · rw [(same b).1] at hs
    exact h.hasSection b s hs
  · rw [(same b).2.1] at hy
    exact h.hasSymbol b y hy

/-- A new section has its builder as owner, and the builder lists it. -/
theorem addSection (h : p.Linked) {b : BuilderId} (opened : ¬ (p.getBuilder b).isSealed)
    (known : p.HasBuilder b) {x : Section} (owned : x.owner = some b) :
    ((p.pushSection x).changeBuilder b fun y =>
      { y with sections := y.sections.push ⟨p.sections.size⟩ }).Linked := by
  have fresh (c : BuilderId) : ⟨p.sections.size⟩ ∉ (p.getBuilder c).sections := fun old =>
    Nat.lt_irrefl _ (h.hasSection c _ old)
  have grows := Grows.pushSection p x
  have builder (c : BuilderId) : ((p.pushSection x).changeBuilder b fun y =>
      { y with sections := y.sections.push ⟨p.sections.size⟩ }).getBuilder c = if c = b then
        { p.getBuilder c with sections := (p.getBuilder c).sections.push ⟨p.sections.size⟩ }
      else p.getBuilder c := by
    have known : (p.pushSection x).HasBuilder b := known
    rw [getBuilder_changeBuilder]
    simp only [known, and_true]
    rfl
  refine ⟨fun s c => ?_, fun c s hs => ?_, fun c y hy => ?_, fun y hy s hs => ?_⟩
  · change ((p.pushSection x).getSection s).owner = some c ↔ _
    rw [getSection_pushSection, builder]
    by_cases new : s = ⟨p.sections.size⟩ <;> by_cases mine : c = b
    · simp [new, mine, owned, opened]
    · simp [new, mine, owned, fresh, Ne.symm mine]
    · simp [new, mine, h.owner_iff]
    · simp [new, mine, h.owner_iff]
  · rw [builder] at hs
    split_ifs at hs
    · rcases Array.mem_push.mp hs with old | rfl
      · exact grows.hasSection (h.hasSection c s old)
      · simp [HasSection, Pool.changeBuilder, Pool.pushSection]
    · exact grows.hasSection (h.hasSection c s hs)
  · rw [builder] at hy
    split_ifs at hy <;> exact h.hasSymbol c y hy
  · exact grows.hasSection (h.references y hy s hs)

theorem addSymbol (h : p.Linked) {b : BuilderId} (x : Symbol) (known : ∀ s ∈ x.references, p.HasSection s) :
    ((p.pushSymbol x).changeBuilder b fun y =>
      { y with symbols := y.symbols.push ⟨p.symbols.size⟩ }).Linked := by
  have more := h.pushSymbol known
  refine ⟨fun s c => ?_, fun c s hs => ?_, fun c y hy => ?_, more.references⟩
  · refine (more.owner_iff s c).trans ?_
    rw [getBuilder_changeBuilder]
    split_ifs <;> rfl
  · rw [getBuilder_changeBuilder] at hs
    split_ifs at hs <;> exact more.hasSection c s hs
  · rw [getBuilder_changeBuilder] at hy
    split_ifs at hy
    · rcases Array.mem_push.mp hy with old | rfl
      · exact more.hasSymbol c y old
      · simp [HasSymbol, Pool.changeBuilder, Pool.pushSymbol]
    · exact more.hasSymbol c y hy

theorem relocated (h : p.Linked) (s : SectionId) (r : Relocation) :
    (p.changeSection s (·.relocated r)).Linked := by
  have size : (p.changeSection s (·.relocated r)).sections.size = p.sections.size := Array.size_modify
  refine ⟨fun t b => ?_, fun b t ht => ?_, h.hasSymbol, fun x hx t ht => ?_⟩
  · refine Iff.trans ?_ (h.owner_iff t b)
    rw [getSection_changeSection]
    split_ifs <;> rfl
  · rw [HasSection, size]
    exact h.hasSection b t ht
  · rw [HasSection, size]
    exact h.references x hx t ht

theorem deliver (h : p.Linked) {b : BuilderId} (opened : ¬ (p.getBuilder b).isSealed)
    (known : p.HasBuilder b) : (p.deliver b (p.getBuilder b).sections).Linked := by
  have grows := Grows.deliver opened (p.getBuilder b).sections
  have builder (c : BuilderId) : (p.deliver b (p.getBuilder b).sections).getBuilder c =
      if c = b then { p.getBuilder c with isSealed := true } else p.getBuilder c := by
    rw [getBuilder_deliver]
    simp only [known, and_true]
  refine ⟨fun s c => ?_, fun c s hs => ?_, fun c y hy => ?_, fun x hx s hs => ?_⟩
  · rw [getSection_deliver, builder]
    by_cases mine : c = b <;> by_cases released : s ∈ (p.getBuilder b).sections
    · simp [mine, released, Section.released]
    · simp [mine, released, h.owner_iff]
    · -- no section belongs to two builders
      have owner := (h.owner_iff s b).mpr ⟨opened, released⟩
      have other : ¬ (¬ (p.getBuilder c).isSealed ∧ s ∈ (p.getBuilder c).sections) := by
        rw [← h.owner_iff, owner, Option.some.injEq]
        exact Ne.symm mine
      simpa [mine, released, Section.released] using other
    · simp [mine, released, h.owner_iff]
  · rw [builder] at hs
    split_ifs at hs <;> exact grows.hasSection (h.hasSection c s hs)
  · rw [builder] at hy
    split_ifs at hy <;> exact grows.hasSymbol (h.hasSymbol c y hy)
  · rw [symbols_deliver] at hx
    exact grows.hasSection (h.references x hx s hs)

/-- Whatever is done keeps the links, case by case over what can be done. -/
theorem of_effect (h : p.Linked) {q : Pool} {a : Making.Action} {file : Option ObjectFile}
    (known : a.Known p) (effect : a.Effect p file q) : q.Linked := by
  cases effect with
  | newSection spec relocations rs => exact h.pushSection rfl
  | newSymbol settled => exact h.pushSymbol (Making.references_of_settleSymbol settled ▸ known)
  | newBuilder machine flags => exact h.pushBuilder machine flags
  | addSection opened spec => exact h.addSection opened known rfl
  | addSymbol opened settled => exact h.addSymbol _ (Making.references_of_settleSymbol settled ▸ known.2)
  | addRelocation opened owned named => exact h.relocated _ _
  | build opened => exact h.deliver opened known
  | create file => exact h
  | ofCode file x free => exact h.pushSection free

end Linked

end Pool

namespace Workshop

/-- The actions are on what exists by the time they are done. -/
def Proper : Workshop → List Making.Action → Prop
  | _, [] => True
  | w, a :: rest => a.Known w.pool ∧ (w.step a).Proper rest

instance decidableProper : (w : Workshop) → (actions : List Making.Action) → Decidable (w.Proper actions)
  | _, [] => .isTrue trivial
  | w, a :: rest => @instDecidableAnd _ _ _ (decidableProper (w.step a) rest)

theorem proper_append {w : Workshop} {before later : List Making.Action} :
    w.Proper (before ++ later) ↔ w.Proper before ∧ (w.after before).Proper later := by
  induction before generalizing w with
  | nil => exact (and_iff_right trivial).symm
  | cons a rest ih => rw [List.cons_append, Proper, Proper, ih, and_assoc]; rfl

/-- The links are kept in every proper run. -/
theorem linked_after {w : Workshop} (h : w.pool.Linked) {actions : List Making.Action}
    (proper : w.Proper actions) : (w.after actions).pool.Linked := by
  induction actions generalizing w with
  | nil => exact h
  | cons a rest ih =>
    obtain ⟨known, proper⟩ := proper
    refine ih ?_ proper
    rcases w.step_eq_of_effect a with same | ⟨file, effect⟩
    · rwa [same]
    · exact h.of_effect known effect

/-- The builder `b` made the section `s` by one of the actions. -/
def Made (b : BuilderId) (s : SectionId) : Workshop → List Making.Action → Prop
  | _, [] => False
  | w, a :: rest => (∃ spec q, a = .addSection b spec ∧ Making.addSection b spec w.pool = .ok (s, q)) ∨
      Made b s (w.step a) rest

end Workshop

/-- A builder lists the sections that it made. -/
theorem Making.Action.Effect.mem_sections {p q : Pool} {a : Making.Action} {file : Option ObjectFile}
    (effect : a.Effect p file q) (known : a.Known p) (b : BuilderId) (s : SectionId) :
    s ∈ (q.getBuilder b).sections ↔ (∃ spec r, a = .addSection b spec ∧
      Making.addSection b spec p = .ok (s, r)) ∨ s ∈ (p.getBuilder b).sections := by
  cases effect with
  | @addSection c opened spec =>
    have new : (∃ spec' r, Action.addSection c spec = .addSection b spec' ∧
        Making.addSection b spec' p = .ok (s, r)) ↔ b = c ∧ s = ⟨p.sections.size⟩ := by
      constructor
      · rintro ⟨_, _, ⟨⟩, made⟩
        obtain ⟨-, same⟩ := addSection_eq_ok.mp made
        cases same
        exact ⟨rfl, rfl⟩
      · rintro ⟨rfl, rfl⟩
        exact ⟨spec, _, rfl, addSection_eq_ok.mpr ⟨opened, rfl⟩⟩
    rw [new, Pool.getBuilder_changeBuilder]
    by_cases mine : b = c
    · rw [if_pos ⟨mine, known⟩, Array.mem_push, or_comm, and_iff_right mine]
      rfl
    · rw [if_neg fun h => mine h.1, or_iff_right fun h => mine h.1]
      rfl
  | newBuilder machine flags =>
    rw [(p.lists_pushBuilder b machine flags).1]
    refine (or_iff_right ?_).symm
    rintro ⟨_, _, ⟨⟩, _⟩
  | addSymbol opened settled =>
    rw [or_iff_right (by rintro ⟨_, _, ⟨⟩, _⟩), Pool.getBuilder_changeBuilder]
    split_ifs <;> rfl
  | build opened =>
    rw [or_iff_right (by rintro ⟨_, _, ⟨⟩, _⟩), Pool.getBuilder_deliver]
    split_ifs <;> rfl
  | _ =>
    refine (or_iff_right ?_).symm
    rintro ⟨_, _, ⟨⟩, _⟩

namespace Workshop

private theorem mem_sections_step (w : Workshop) {a : Making.Action} (known : a.Known w.pool) (b : BuilderId)
    (s : SectionId) : s ∈ ((w.step a).pool.getBuilder b).sections ↔ (∃ spec r, a = .addSection b spec ∧
      Making.addSection b spec w.pool = .ok (s, r)) ∨ s ∈ (w.pool.getBuilder b).sections := by
  unfold step
  cases done : a.perform w.pool with
  | error e =>
    refine (or_iff_right ?_).symm
    rintro ⟨spec, r, rfl, made⟩
    rw [Making.Action.perform, (Making.bind_eq_ok.mpr ⟨s, r, made, rfl⟩)] at done
    cases done
  | ok r => exact (Making.Action.effect_of_perform done).mem_sections known b s

/-- After any actions, a builder lists what it made by one of them, and what it listed before. -/
theorem mem_sections_after {w : Workshop} {actions : List Making.Action} (proper : w.Proper actions)
    (b : BuilderId) (s : SectionId) : s ∈ ((w.after actions).pool.getBuilder b).sections ↔
      Made b s w actions ∨ s ∈ (w.pool.getBuilder b).sections := by
  induction actions generalizing w with
  | nil => exact (or_iff_right id).symm
  | cons a rest ih =>
    rw [after, List.foldl_cons, ← after, ih proper.2, w.mem_sections_step proper.1, Made, or_assoc, or_left_comm]

end Workshop

end CoffWorks
