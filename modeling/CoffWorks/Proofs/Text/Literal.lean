import CoffWorks.Proofs.Text.Decimal
import CoffWorks.Proofs.Text.Numeral

namespace CoffWorks.Text

/-- The octet is a digit that counts `d`: a figure, or a letter in either case. -/
def Counts (x : UInt8) (d : Nat) : Prop :=
  x.toNat = 48 + d ∧ d < 10 ∨ (x.toNat = 55 + d ∨ x.toNat = 87 + d) ∧ 10 ≤ d ∧ d < 36

/-- Digits in `base`, perhaps with underscores between them, and what each of them counts. -/
inductive Digits (base : Nat) : List UInt8 → List Nat → Prop where
  | last {x : UInt8} {d : Nat} (counts : Counts x d) (small : d < base) : Digits base [x] [d]
  | next {x : UInt8} {d : Nat} {l : List UInt8} {ds : List Nat} (counts : Counts x d) (small : d < base)
      (rest : Digits base l ds) : Digits base (x :: l) (d :: ds)
  | apart {x : UInt8} {d : Nat} {l : List UInt8} {ds : List Nat} (counts : Counts x d) (small : d < base)
      (rest : Digits base l ds) : Digits base (x :: 95 :: l) (d :: ds)

/-- The same with an underscore in front, or without. -/
def Behind (base : Nat) (l : List UInt8) (ds : List Nat) : Prop :=
  Digits base l ds ∨ ∃ rest, l = 95 :: rest ∧ Digits base rest ds

/-- The letters `b`, `o` and `x` in either case, and the bases they stand for. -/
def baseLetters : List (UInt8 × Nat) := [(98, 2), (66, 2), (111, 8), (79, 8), (120, 16), (88, 16)]

/-- How a literal starts that is not decimal, and its base. -/
inductive Mark : List UInt8 → Nat → Prop where
  | octal : Mark [48] 8
  | letter {m : UInt8} {base : Nat} (listed : (m, base) ∈ baseLetters) : Mark [48, m] base

/-- A literal and the number it denotes. -/
inductive Literal : List UInt8 → Nat → Prop where
  | zero : Literal [48] 0
  | decimal {x : UInt8} {l : List UInt8} {ds : List Nat} (first : x ≠ 48) (digits : Digits 10 (x :: l) ds) :
      Literal (x :: l) (Nat.ofDigits 10 ds.reverse)
  | marked {mark l : List UInt8} {base : Nat} {ds : List Nat} (announced : Mark mark base)
      (digits : Behind base l ds) : Literal (mark ++ l) (Nat.ofDigits base ds.reverse)

private theorem toNat_lowerByte (x : UInt8) :
    (lowerByte x).toNat = if 65 ≤ x.toNat ∧ x.toNat ≤ 90 then x.toNat + 32 else x.toNat := by
  unfold lowerByte
  simp only [UInt8.le_iff_toNat_le]
  change (if 65 ≤ x.toNat ∧ x.toNat ≤ 90 then x + 32 else x).toNat = _
  split_ifs with capital
  · rw [UInt8.toNat_add]
    change (x.toNat + 32) % 256 = _
    omega
  · rfl

theorem digitValue?_eq_some_iff {x : UInt8} {d : Nat} : digitValue? x = some d ↔ Counts x d := by
  have lower := toNat_lowerByte x
  unfold digitValue? Counts
  simp only [UInt8.le_iff_toNat_le]
  change (if 48 ≤ x.toNat ∧ x.toNat ≤ 57 then _
    else if 97 ≤ (lowerByte x).toNat ∧ (lowerByte x).toNat ≤ 122 then _ else _) = _ ↔ _
  split_ifs at lower ⊢ <;> simp only [Option.some.injEq, false_iff] <;> omega

theorem Counts.ne_underscore {x : UInt8} {d : Nat} (h : Counts x d) : x ≠ 95 := by
  rintro rfl
  have octet : (95 : UInt8).toNat = 95 := rfl
  unfold Counts at h
  omega

/-- The octet is a digit in `base`. -/
def CountsIn (base : Nat) (x : UInt8) (d : Nat) : Prop := Counts x d ∧ d < base

private theorem digitsValue?_reverse_eq_some {limit base n : Nat} (hlimit : 0 < limit) (hbase : 0 < base)
    {l : List UInt8} :
    digitsValue? limit base l.reverse = some n ↔
      ∃ ds, List.Forall₂ (CountsIn base) l ds ∧ Nat.ofDigits base ds = n ∧ n < limit := by
  induction l generalizing n with
  | nil =>
    simp only [List.reverse_nil, List.forall₂_nil_left_iff, exists_eq_left, Nat.ofDigits_nil]
    constructor
    · intro h
      obtain rfl := Option.some.inj h
      exact ⟨rfl, hlimit⟩
    · rintro ⟨rfl, -⟩
      rfl
  | cons x l ih =>
    rw [List.reverse_cons, digitsValue?_concat_eq_some]
    simp only [List.forall₂_cons_left_iff, digitValue?_eq_some_iff]
    constructor
    · rintro ⟨m, front, d, counts, ⟨small, below⟩, rfl⟩
      obtain ⟨ds, counted, rfl, -⟩ := ih.mp front
      exact ⟨d :: ds, ⟨d, ds, ⟨counts, small⟩, counted, rfl⟩, by rw [Nat.ofDigits_cons]; ring, below⟩
    · rintro ⟨_, ⟨d, ds, ⟨counts, small⟩, counted, rfl⟩, rfl, below⟩
      -- what is above the last digit is not larger than the whole
      have front : Nat.ofDigits base ds ≤ Nat.ofDigits base ds * base := Nat.le_mul_of_pos_right _ hbase
      rw [Nat.ofDigits_cons, Nat.add_comm, Nat.mul_comm] at below ⊢
      exact ⟨_, ih.mpr ⟨ds, counted, rfl, by omega⟩, d, counts, ⟨small, below⟩, rfl⟩

/-- Digits have a value if each is one in the base and the value is below the limit. -/
theorem digitsValue?_eq_some_iff {limit base n : Nat} (hlimit : 0 < limit) (hbase : 0 < base) {l : List UInt8} :
    digitsValue? limit base l = some n ↔
      ∃ ds, List.Forall₂ (CountsIn base) l ds ∧ Nat.ofDigits base ds.reverse = n ∧ n < limit := by
  have backwards := digitsValue?_reverse_eq_some (n := n) hlimit hbase (l := l.reverse)
  rw [List.reverse_reverse] at backwards
  rw [backwards]
  constructor
  · rintro ⟨ds, counted, value⟩
    refine ⟨ds.reverse, List.forall₂_reverse_iff.mp ?_, ?_⟩
    · rwa [List.reverse_reverse]
    · rwa [List.reverse_reverse]
  · rintro ⟨ds, counted, value⟩
    exact ⟨ds.reverse, List.forall₂_reverse_iff.mpr counted, value⟩

theorem Digits.exists_cons {base : Nat} {l : List UInt8} {ds : List Nat} (h : Digits base l ds) :
    ∃ x rest d, l = x :: rest ∧ CountsIn base x d := by
  cases h with
  | last counts small => exact ⟨_, _, _, rfl, counts, small⟩
  | next counts small _ => exact ⟨_, _, _, rfl, counts, small⟩
  | apart counts small _ => exact ⟨_, _, _, rfl, counts, small⟩

namespace underscoresFit

@[simp] theorem go_nil (hex after : Bool) : go hex after [] = true := rfl

private theorem go_underscore (hex after : Bool) (x : UInt8) (l : List UInt8) :
    go hex after (95 :: x :: l) = (after && isDigit hex x && go hex false (x :: l)) := rfl

private theorem go_false_underscore (hex : Bool) (l : List UInt8) : go hex false (95 :: l) = false := rfl

private theorem go_cons {hex after : Bool} {x : UInt8} (h : x ≠ 95) (l : List UInt8) :
    go hex after (x :: l) = go hex (isDigit hex x) l := by
  rw [go]
  exact h

private theorem go_of_not_mem {l : List UInt8} (h : 95 ∉ l) (hex after : Bool) : go hex after l = true := by
  induction l generalizing after with
  | nil => rfl
  | cons x l ih =>
    obtain ⟨here, later⟩ := List.ne_and_not_mem_of_not_mem_cons h
    rw [go_cons here.symm, ih later]

theorem isDigit_of_countsIn {hex : Bool} {base : Nat} (h : base ≤ 10 ∨ hex = true ∧ base ≤ 16) {x : UInt8} {d : Nat}
    (counts : CountsIn base x d) : isDigit hex x = true := by
  have lower := toNat_lowerByte x
  obtain ⟨counts, small⟩ := counts
  unfold Counts at counts
  unfold isDigit
  simp only [UInt8.le_iff_toNat_le, decide_eq_true_eq]
  change (48 ≤ x.toNat ∧ x.toNat ≤ 57) ∨ (hex = true ∧ 97 ≤ (lowerByte x).toNat ∧ (lowerByte x).toNat ≤ 102)
  rcases h with figures | ⟨letters, few⟩
  · omega
  · rw [and_iff_right letters]
    split_ifs at lower <;> omega

variable {hex : Bool} {base : Nat} {l : List UInt8} {ds : List Nat}

/-- Where the underscores fit there are digits on both sides of them, by induction on the octets. -/
theorem digits_of_go (agree : base ≤ 10 ∨ hex = true ∧ base ≤ 16) (nonempty : l ≠ [])
    (counted : List.Forall₂ (CountsIn base) (l.filter (· ≠ 95)) ds) :
    (go hex false l → Digits base l ds) ∧ (go hex true l → Behind base l ds) := by
  induction l generalizing ds with
  | nil => exact absurd rfl nonempty
  | cons x l ih =>
    by_cases underscore : x = 95
    · subst underscore
      refine ⟨fun h => absurd h (by simp [go_false_underscore]), fun h => ?_⟩
      cases l with
      | nil => exact absurd h (by simp [go])
      | cons y l =>
        simp only [go_underscore, Bool.true_and, Bool.and_eq_true] at h
        exact .inr ⟨y :: l, rfl, (ih (by simp) (by simpa using counted)).1 h.2⟩
    · have kept : (x :: l).filter (· ≠ 95) = x :: l.filter (· ≠ 95) :=
        List.filter_cons_of_pos (by simpa using underscore)
      rw [kept, List.forall₂_cons_left_iff] at counted
      obtain ⟨d, ds, first, counted, rfl⟩ := counted
      rw [go_cons underscore, go_cons underscore, isDigit_of_countsIn agree first]
      have digits (h : go hex true l) : Digits base (x :: l) (d :: ds) := by
        cases l with
        | nil =>
          obtain rfl : ds = [] := List.forall₂_nil_left_iff.mp counted
          exact .last first.1 first.2
        | cons y l =>
          rcases (ih (by simp) counted).2 h with rest | ⟨rest, follows, digits⟩
          · exact .next first.1 first.2 rest
          · rw [follows]
            exact .apart first.1 first.2 digits
      exact ⟨digits, fun h => .inl (digits h)⟩

/-- Between digits, underscores fit. -/
theorem go_of_digits (agree : base ≤ 10 ∨ hex = true ∧ base ≤ 16) (h : Digits base l ds) (after : Bool) :
    go hex after l = true := by
  induction h generalizing after with
  | last counts small => rw [go_cons counts.ne_underscore, go_nil]
  | next counts small rest ih => rw [go_cons counts.ne_underscore, ih]
  | @apart x d l ds counts small rest ih =>
    rw [go_cons counts.ne_underscore, isDigit_of_countsIn agree ⟨counts, small⟩]
    obtain ⟨y, t, e, rfl, first⟩ := rest.exists_cons
    rw [go_underscore, isDigit_of_countsIn agree first, ih]
    rfl

theorem countsIn_of_digits (h : Digits base l ds) : List.Forall₂ (CountsIn base) (l.filter (· ≠ 95)) ds := by
  have keep {x : UInt8} {d : Nat} (counts : Counts x d) (l : List UInt8) :
      (x :: l).filter (· ≠ 95) = x :: l.filter (· ≠ 95) :=
    List.filter_cons_of_pos (by simpa using counts.ne_underscore)
  induction h with
  | last counts small =>
    rw [keep counts]
    exact .cons ⟨counts, small⟩ .nil
  | next counts small rest ih =>
    rw [keep counts]
    exact .cons ⟨counts, small⟩ ih
  | apart counts small rest ih =>
    rw [keep counts]
    exact .cons ⟨counts, small⟩ ih

variable {limit n : Nat}

/-- Reading without the underscores, once they fit, is reading the digits of the grammar. -/
theorem read_digits_iff (agree : base ≤ 10 ∨ hex = true ∧ base ≤ 16) (hlimit : 0 < limit) (hbase : 0 < base)
    (nonempty : l ≠ []) :
    go hex false l ∧ digitsValue? limit base (l.filter (· ≠ 95)) = some n ↔
      ∃ ds, Digits base l ds ∧ Nat.ofDigits base ds.reverse = n ∧ n < limit := by
  rw [digitsValue?_eq_some_iff hlimit hbase]
  constructor
  · rintro ⟨fit, ds, counted, value⟩
    exact ⟨ds, (digits_of_go agree nonempty counted).1 fit, value⟩
  · rintro ⟨ds, digits, value⟩
    exact ⟨go_of_digits agree digits false, ds, countsIn_of_digits digits, value⟩

theorem read_behind_iff (agree : base ≤ 10 ∨ hex = true ∧ base ≤ 16) (hlimit : 0 < limit) (hbase : 0 < base)
    (nonempty : l ≠ []) :
    go hex true l ∧ digitsValue? limit base (l.filter (· ≠ 95)) = some n ↔
      ∃ ds, Behind base l ds ∧ Nat.ofDigits base ds.reverse = n ∧ n < limit := by
  rw [digitsValue?_eq_some_iff hlimit hbase]
  constructor
  · rintro ⟨fit, ds, counted, value⟩
    exact ⟨ds, (digits_of_go agree nonempty counted).2 fit, value⟩
  · rintro ⟨ds, digits | ⟨rest, rfl, digits⟩, value⟩
    · exact ⟨go_of_digits agree digits true, ds, countsIn_of_digits digits, value⟩
    · have skipped : (95 :: rest).filter (· ≠ 95) = rest.filter (· ≠ 95) := rfl
      rw [skipped]
      refine ⟨?_, ds, countsIn_of_digits digits, value⟩
      have fit := go_of_digits agree digits false
      obtain ⟨x, rest, d, rfl, first⟩ := digits.exists_cons
      rw [go_underscore, isDigit_of_countsIn agree first, fit]
      rfl

end underscoresFit

open underscoresFit

/-- A zero and a letter mark the base. -/
theorem splitBase_letter {m : UInt8} {base : Nat} (h : (m, base) ∈ baseLetters) (x : UInt8) (l : List UInt8) :
    splitBase (48 :: m :: x :: l) = (base, x :: l) ∧
      ∃ hex, (base ≤ 10 ∨ hex = true ∧ base ≤ 16) ∧ underscoresFit (48 :: m :: x :: l) = go hex true (x :: l) := by
  simp only [baseLetters, List.mem_cons, Prod.mk.injEq, List.not_mem_nil, or_false] at h
  rcases h with ⟨rfl, rfl⟩ | ⟨rfl, rfl⟩ | ⟨rfl, rfl⟩ | ⟨rfl, rfl⟩ | ⟨rfl, rfl⟩ | ⟨rfl, rfl⟩
  · exact ⟨rfl, false, by decide, rfl⟩
  · exact ⟨rfl, false, by decide, rfl⟩
  · exact ⟨rfl, false, by decide, rfl⟩
  · exact ⟨rfl, false, by decide, rfl⟩
  · exact ⟨rfl, true, by decide, rfl⟩
  · exact ⟨rfl, true, by decide, rfl⟩

private theorem eq_of_lowerByte {x c : UInt8} (h : lowerByte x = c) : x = c ∨ x = c - 32 := by
  unfold lowerByte at h
  split_ifs at h
  · exact .inr (eq_sub_of_add_eq h)
  · exact .inl h

/-- A zero and anything else mark an octal number. -/
theorem splitBase_octal {m : UInt8} (h : ∀ base, (m, base) ∉ baseLetters) (l : List UInt8) :
    splitBase (48 :: m :: l) = (8, m :: l) ∧ underscoresFit (48 :: m :: l) = go false true (m :: l) := by
  have not_b : lowerByte m ≠ 98 := by
    intro b
    apply h 2
    rcases eq_of_lowerByte b with rfl | rfl <;> decide
  have not_o : lowerByte m ≠ 111 := by
    intro o
    apply h 8
    rcases eq_of_lowerByte o with rfl | rfl <;> decide
  have not_x : lowerByte m ≠ 120 := by
    intro x
    apply h 16
    rcases eq_of_lowerByte x with rfl | rfl <;> decide
  constructor
  · cases l with
    | nil => rfl
    | cons d l => rw [splitBase, if_neg not_b, if_neg not_o, if_neg not_x]
  · rw [underscoresFit, if_neg not_x, if_neg (not_or.mpr ⟨not_b, not_o⟩), go_cons (by decide)]
    rfl

private theorem underscoresFit_of_not_mem {l : List UInt8} (h : 95 ∉ l) : underscoresFit l = true := by
  unfold underscoresFit
  split
  · rename_i m rest
    have later : 95 ∉ rest := fun mem => h (List.mem_cons_of_mem _ (List.mem_cons_of_mem _ mem))
    split_ifs
    · exact go_of_not_mem later _ _
    · exact go_of_not_mem later _ _
    · exact go_of_not_mem h _ _
  · exact go_of_not_mem h _ _

variable {limit n : Nat} {l : List UInt8}

private theorem literalValue?_eq_some {base : Nat} {digits : List UInt8} (nonempty : l ≠ [])
    (split : splitBase l = (base, digits)) :
    literalValue? limit l = some n ↔
      underscoresFit l ∧ digitsValue? limit base (digits.filter (· ≠ 95)) = some n := by
  have unfit : l.contains 95 ∧ ¬ underscoresFit l ↔ ¬ underscoresFit l := by
    rw [and_iff_right_iff_imp]
    intro unfit
    by_contra none
    exact unfit (underscoresFit_of_not_mem (by simpa using none))
  rw [literalValue?, if_neg (by simpa using nonempty), split]
  by_cases fit : underscoresFit l = true
  · rw [if_neg (fun h => h.2 fit), and_iff_right fit]
  · rw [if_pos (unfit.mpr fit)]
    simp [fit]

variable {x m : UInt8} {base : Nat}

theorem literalValue?_decimal (hlimit : 0 < limit) (first : x ≠ 48) :
    literalValue? limit (x :: l) = some n ↔
      ∃ ds, Digits 10 (x :: l) ds ∧ Nat.ofDigits 10 ds.reverse = n ∧ n < limit := by
  have split : splitBase (x :: l) = (10, x :: l) := by
    unfold splitBase
    split <;> simp_all
  have fit : underscoresFit (x :: l) = go false false (x :: l) := by
    unfold underscoresFit
    split <;> simp_all
  rw [literalValue?_eq_some (by simp) split, fit]
  exact read_digits_iff (by decide) hlimit (by decide) (by simp)

/-- The letters are no octal digits, nor underscores. -/
private theorem of_mem_baseLetters (h : (m, base) ∈ baseLetters) : 0 < base ∧ m ≠ 95 ∧ ∀ d, ¬ CountsIn 8 m d := by
  have all : ∀ p ∈ baseLetters, 0 < p.2 ∧ p.1 ≠ 95 ∧ 66 ≤ p.1.toNat := by decide
  obtain ⟨pos, other, large⟩ := all _ h
  refine ⟨pos, other, ?_⟩
  rintro d ⟨counts, small⟩
  unfold Counts at counts
  dsimp only at large
  omega

theorem literalValue?_letter (hlimit : 0 < limit) (h : (m, base) ∈ baseLetters) (rest : l ≠ []) :
    literalValue? limit (48 :: m :: l) = some n ↔
      ∃ ds, Behind base l ds ∧ Nat.ofDigits base ds.reverse = n ∧ n < limit := by
  obtain ⟨x, l, rfl⟩ := List.exists_cons_of_ne_nil rest
  obtain ⟨split, hex, agree, fit⟩ := splitBase_letter h x l
  rw [literalValue?_eq_some (by simp) split, fit]
  exact read_behind_iff agree hlimit (of_mem_baseLetters h).1 rest

private theorem literalValue?_bare_letter (hlimit : 0 < limit) (h : (m, base) ∈ baseLetters) :
    literalValue? limit [48, m] ≠ some n := by
  obtain ⟨-, other, not_octal⟩ := of_mem_baseLetters h
  have split : splitBase [48, m] = (8, [m]) := rfl
  have kept : [m].filter (· ≠ 95) = [m] := List.filter_cons_of_pos (by simpa using other)
  rw [Ne, literalValue?_eq_some (by simp) split, kept, digitsValue?_eq_some_iff hlimit (by decide)]
  rintro ⟨-, ds, counted, -⟩
  cases counted with
  | cons octal _ => exact not_octal _ octal

theorem literalValue?_octal (hlimit : 0 < limit) (h : ∀ base, (m, base) ∉ baseLetters) :
    literalValue? limit (48 :: m :: l) = some n ↔
      ∃ ds, Behind 8 (m :: l) ds ∧ Nat.ofDigits 8 ds.reverse = n ∧ n < limit := by
  obtain ⟨split, fit⟩ := splitBase_octal h l
  rw [literalValue?_eq_some (by simp) split, fit]
  exact read_behind_iff (by decide) hlimit (by decide) (by simp)

theorem Behind.exists_cons {ds : List Nat} (h : Behind base l ds) :
    ∃ x rest, l = x :: rest ∧ (x = 95 ∨ ∃ d, CountsIn base x d) := by
  rcases h with digits | ⟨rest, rfl, -⟩
  · obtain ⟨x, rest, d, rfl, first⟩ := digits.exists_cons
    exact ⟨x, rest, rfl, .inr ⟨d, first⟩⟩
  · exact ⟨95, rest, rfl, .inl rfl⟩

/-- What is read is a literal of the grammar. -/
theorem literal_of_literalValue? (hlimit : 0 < limit) (h : literalValue? limit l = some n) :
    Literal l n ∧ n < limit := by
  rcases l with - | ⟨x, l⟩
  · cases h
  by_cases zero : x = 48
  · subst zero
    rcases l with - | ⟨m, l⟩
    · obtain rfl := Option.some.inj h
      exact ⟨.zero, hlimit⟩
    by_cases letter : ∃ base, (m, base) ∈ baseLetters
    · obtain ⟨base, listed⟩ := letter
      rcases l with - | ⟨x, l⟩
      · exact absurd h (literalValue?_bare_letter hlimit listed)
      · obtain ⟨ds, digits, rfl, below⟩ := (literalValue?_letter hlimit listed (by simp)).mp h
        exact ⟨.marked (.letter listed) digits, below⟩
    · obtain ⟨ds, digits, rfl, below⟩ := (literalValue?_octal hlimit (not_exists.mp letter)).mp h
      exact ⟨.marked .octal digits, below⟩
  · obtain ⟨ds, digits, rfl, below⟩ := (literalValue?_decimal hlimit zero).mp h
    exact ⟨.decimal zero digits, below⟩

/-- Every literal of the grammar is read, if it is below the limit. -/
theorem literalValue?_of_literal (h : Literal l n) (below : n < limit) : literalValue? limit l = some n := by
  have hlimit : 0 < limit := Nat.zero_lt_of_lt below
  cases h with
  | zero => rfl
  | decimal first digits => exact (literalValue?_decimal hlimit first).mpr ⟨_, digits, rfl, below⟩
  | marked announced digits =>
    cases announced with
    | octal =>
      obtain ⟨m, rest, rfl, first⟩ := digits.exists_cons
      have other : ∀ base, (m, base) ∉ baseLetters := by
        intro base listed
        obtain ⟨-, not_underscore, not_octal⟩ := of_mem_baseLetters listed
        rcases first with underscore | ⟨d, octal⟩
        · exact not_underscore underscore
        · exact not_octal d octal
      exact (literalValue?_octal hlimit other).mpr ⟨_, digits, rfl, below⟩
    | letter listed =>
      obtain ⟨x, rest, rfl, -⟩ := digits.exists_cons
      exact (literalValue?_letter hlimit listed (by simp)).mpr ⟨_, digits, rfl, below⟩

theorem Digits.counts_of_mem {ds : List Nat} (h : Digits base l ds) : ∀ x ∈ l, x = 95 ∨ ∃ d, Counts x d := by
  induction h with
  | last counts small => simpa using .inr ⟨_, counts⟩
  | next counts small rest ih => exact List.forall_mem_cons.mpr ⟨.inr ⟨_, counts⟩, ih⟩
  | apart counts small rest ih =>
    exact List.forall_mem_cons.mpr ⟨.inr ⟨_, counts⟩, List.forall_mem_cons.mpr ⟨.inl rfl, ih⟩⟩

/-- All octets are those of underscores, figures and letters. -/
theorem Literal.counts_of_mem (h : Literal l n) : ∀ x ∈ l, x = 95 ∨ ∃ d, Counts x d := by
  have zero : Counts 48 0 := by
    unfold Counts
    decide
  cases h with
  | zero => simpa using ⟨0, zero⟩
  | decimal first digits => exact digits.counts_of_mem
  | @marked mark l base ds announced digits =>
    have start : ∀ x ∈ mark, x = 95 ∨ ∃ d, Counts x d := by
      cases announced with
      | octal => simpa using ⟨0, zero⟩
      | @letter m base listed =>
        have all : ∀ p ∈ baseLetters, ∃ d < 36, digitValue? p.1 = some d := by decide
        obtain ⟨d, -, value⟩ := all _ listed
        exact List.forall_mem_cons.mpr ⟨.inr ⟨0, zero⟩, by simpa using .inr ⟨d, digitValue?_eq_some_iff.mp value⟩⟩
    have rest : ∀ x ∈ l, x = 95 ∨ ∃ d, Counts x d := by
      rcases digits with digits | ⟨l, rfl, digits⟩
      · exact digits.counts_of_mem
      · exact List.forall_mem_cons.mpr ⟨.inl rfl, digits.counts_of_mem⟩
    intro x hx
    rcases List.mem_append.mp hx with hx | hx
    · exact start x hx
    · exact rest x hx

/-- Just the literals below the limit are read, and as what they denote. -/
theorem literal?_eq_some_iff {bits : Nat} {b : Bytes} :
    literal? bits b = some n ↔ Literal b.toList n ∧ n < 2 ^ bits := by
  have limit : 1 <<< bits = 2 ^ bits := Nat.one_shiftLeft bits
  rw [literal?, limit]
  constructor
  · exact literal_of_literalValue? (Nat.two_pow_pos bits)
  · rintro ⟨literal, below⟩
    exact literalValue?_of_literal literal below

private theorem lt_one_shiftLeft (n : Nat) : n < 1 <<< n := by
  rw [Nat.one_shiftLeft]
  exact Nat.lt_two_pow_self

/-- Numbers are written as literals. -/
theorem literal_decimal (n : Nat) : Literal (decimal n).toList n :=
  (literal?_eq_some_iff.mp (literal?_decimal (lt_one_shiftLeft n))).1

theorem literal_hex (w n : Nat) : Literal ("0x" ++ hex w n : Bytes).toList n :=
  (literal?_eq_some_iff.mp (literal?_hex (lt_one_shiftLeft n))).1

end CoffWorks.Text
