import KeyLayout.Proofs.Modifier.Masks
import KeyLayout.Proofs.StableSort
import Mathlib.Tactic.IntervalCases

namespace KeyLayout

/-! Behaviors in the order of their specificity, and the number on a dialing pad that is
taken from the least specific ones. -/

namespace Specificity

/-- Groups count before sides, and sides before bits. -/
def lexed (specificity : Specificity) : ℕ ×ₗ ℕ ×ₗ ℕ :=
  toLex (specificity.groups, toLex (specificity.sided, specificity.bits))

theorem atLeast_iff_le {first second : Specificity} :
    first.atLeast second = true ↔ second.lexed ≤ first.lexed := by
  rw [atLeast_iff, lexed, lexed, Prod.Lex.toLex_le_toLex, Prod.Lex.toLex_le_toLex]
  simp only [eq_comm]

end Specificity

namespace Behavior

variable {behaviors stated sorted : List Behavior}

section Sorting

def specificity (behavior : Behavior) : ℕ ×ₗ ℕ ×ₗ ℕ :=
  (Specificity.ofMask behavior.mask).lexed

/-- The more specific a behavior is, the lower is its rank. -/
def rank (behavior : Behavior) : (ℕ ×ₗ ℕ ×ₗ ℕ)ᵒᵈ :=
  OrderDual.toDual behavior.specificity

theorem precedes_iff {first second : Behavior} :
    first.precedes second = true ↔ second.specificity ≤ first.specificity :=
  Specificity.atLeast_iff_le

theorem precedes_eq_byRank : precedes = StableSort.byRank rank := by
  funext first second
  rw [Bool.eq_iff_iff, precedes_iff, StableSort.byRank, decide_eq_true_eq]
  rfl

theorem sort_eq (behaviors : List Behavior) :
    sort behaviors = behaviors.mergeSort (StableSort.byRank rank) := by
  rw [sort, precedes_eq_byRank]

theorem sort_perm (behaviors : List Behavior) : (sort behaviors).Perm behaviors :=
  List.mergeSort_perm ..

theorem pairwise_specificity_sort (behaviors : List Behavior) :
    (sort behaviors).Pairwise fun first second => second.specificity ≤ first.specificity := by
  rw [sort_eq]
  exact StableSort.pairwise_mergeSort rank behaviors

theorem rankClass_rank (specificity : ℕ ×ₗ ℕ ×ₗ ℕ) (behaviors : List Behavior) :
    StableSort.rankClass rank (OrderDual.toDual specificity) behaviors =
      behaviors.filter (·.specificity = specificity) := by
  refine List.filter_congr fun behavior _ => ?_
  rw [Bool.eq_iff_iff, decide_eq_true_eq, decide_eq_true_eq]
  exact OrderDual.toDual_inj

/-- Behaviors that are as specific keep their order. -/
theorem filter_specificity_sort (specificity : ℕ ×ₗ ℕ ×ₗ ℕ) (behaviors : List Behavior) :
    (sort behaviors).filter (·.specificity = specificity) =
      behaviors.filter (·.specificity = specificity) := by
  rw [sort_eq, ← rankClass_rank, StableSort.rankClass_mergeSort, rankClass_rank]

/-- The stated behaviors, the more specific ones first, and those that are as specific in
the order in which they are stated. -/
structure Sorts (stated sorted : List Behavior) : Prop where
  perm : sorted.Perm stated
  specific : sorted.Pairwise fun first second => second.specificity ≤ first.specificity
  stable : ∀ specificity, sorted.filter (·.specificity = specificity) =
    stated.filter (·.specificity = specificity)

theorem sorts_iff : Sorts stated sorted ↔ sorted = sort stated := by
  constructor
  · intro hsorts
    rw [sort_eq]
    apply StableSort.eq_mergeSort rank hsorts.specific
    intro value
    exact (rankClass_rank value sorted).trans
      ((hsorts.stable value).trans (rankClass_rank ..).symm)
  · intro heq
    subst heq
    exact ⟨sort_perm stated, pairwise_specificity_sort stated,
      fun specificity => filter_specificity_sort specificity stated⟩

end Sorting

section Dialing

variable {points : Text} {point : CodePoint}

def Lacks (behavior : Behavior) (points : Text) : Prop :=
  ∀ point ∈ points, behavior.character ≠ some point

/-- One of the points, which a behavior has, while those after it have none of them. -/
inductive LastOf (points : Text) : List Behavior → CodePoint → Prop
  | intro {before after : List Behavior} {behavior : Behavior} {point : CodePoint}
      (hcharacter : behavior.character = some point) (hpoint : point ∈ points)
      (hafter : ∀ other ∈ after, other.Lacks points) :
      LastOf points (before ++ behavior :: after) point

/-- Of behaviors with the more specific ones first, the least specific one with a digit
gives the number, or if there is no digit, the one with another sign of a dialing pad. -/
inductive Dials (behaviors : List Behavior) (point : CodePoint) : Prop
  | digit (hlast : LastOf "0123456789" behaviors point)
  | symbol (hnone : ∀ behavior ∈ behaviors, behavior.Lacks "0123456789")
      (hlast : LastOf "()#*-+,.':;/" behaviors point)

theorem any_character_eq_false_iff {behavior : Behavior} :
    behavior.character.any points.contains = false ↔ behavior.Lacks points := by
  cases hcharacter : behavior.character with
  | none => simp [Lacks, hcharacter]
  | some own =>
      simp only [Lacks, hcharacter, Option.any_some, List.contains_eq_mem, decide_eq_false_iff_not]
      exact ⟨fun hown point hpoint heq => hown (Option.some.inj heq ▸ hpoint),
        fun hlacks hown => hlacks own hown rfl⟩

theorem lastOf_iff : LastOf points behaviors point ↔
    (behaviors.reverse.filterMap (·.character)).find? points.contains = some point := by
  rw [List.find?_filterMap, Option.bind_eq_some_iff]
  constructor
  · intro hlast
    cases hlast with
    | @intro before after behavior _ hcharacter hpoint hafter =>
        refine ⟨behavior, List.find?_eq_some_iff_append.mpr ⟨?_, after.reverse, before.reverse,
          by simp, ?_⟩, hcharacter⟩
        · simpa [hcharacter] using hpoint
        · intro other hother
          rw [any_character_eq_false_iff.mpr (hafter other (List.mem_reverse.mp hother))]
          rfl
  · intro hfound
    obtain ⟨behavior, hfind, hcharacter⟩ := hfound
    obtain ⟨hhas, after, before, hreverse, hafter⟩ := List.find?_eq_some_iff_append.mp hfind
    have hbehaviors : behaviors = before.reverse ++ behavior :: after.reverse := by
      rw [← List.reverse_reverse behaviors, hreverse]
      simp
    rw [hcharacter] at hhas
    subst hbehaviors
    apply LastOf.intro hcharacter (by simpa using hhas)
    intro other hother
    have hlacks := hafter other (List.mem_reverse.mp hother)
    exact any_character_eq_false_iff.mp (by simpa using hlacks)

theorem find?_eq_none_iff :
    (behaviors.reverse.filterMap (·.character)).find? points.contains = none ↔
      ∀ behavior ∈ behaviors, behavior.Lacks points := by
  simp only [List.find?_eq_none, List.mem_filterMap, List.mem_reverse, List.contains_iff_mem]
  constructor
  · intro hnone behavior hbehavior point hpoint hcharacter
    exact hnone point ⟨behavior, hbehavior, hcharacter⟩ hpoint
  · intro hlacks point hpoint
    obtain ⟨behavior, hbehavior, hcharacter⟩ := hpoint
    exact fun hmem => hlacks behavior hbehavior point hmem hcharacter

theorem isAsciiDigit_eq : CodePoint.isAsciiDigit = (Text.ofString "0123456789").contains := by
  funext point
  rw [Bool.eq_iff_iff, List.contains_iff_mem]
  constructor
  · intro hdigit
    rw [CodePoint.isAsciiDigit, Bool.and_eq_true, decide_eq_true_eq, decide_eq_true_eq] at hdigit
    obtain ⟨hlow, hhigh⟩ := hdigit
    cases point with
    | surrogate offset =>
        rw [CodePoint.toNat] at hhigh
        omega
    | scalar character =>
        rw [CodePoint.toNat] at hlow hhigh
        rw [← Char.ofNat_toNat character]
        generalize character.toNat = value at hlow hhigh
        interval_cases value <;> decide
  · revert point
    decide

theorem dialingCharacter?_eq_some_iff :
    dialingCharacter? behaviors = some point ↔ Dials behaviors point := by
  rw [dialingCharacter?, isAsciiDigit_eq, Option.or_eq_some_iff, find?_eq_none_iff, ← lastOf_iff,
    dialingSymbols, ← lastOf_iff]
  constructor
  · intro hfound
    cases hfound with
    | inl hlast => exact .digit hlast
    | inr hsymbol => exact .symbol hsymbol.1 hsymbol.2
  · intro hdials
    cases hdials with
    | digit hlast => exact .inl hlast
    | symbol hnone hlast => exact .inr ⟨hnone, hlast⟩

/-- A digit counts more than any other sign of a less specific behavior. -/
example : dialingCharacter? [{ mask := 0x40, character := some (.scalar '7') },
    { character := some (.scalar '#') }] = some (.scalar '7') := by decide

end Dialing

end Behavior

end KeyLayout
