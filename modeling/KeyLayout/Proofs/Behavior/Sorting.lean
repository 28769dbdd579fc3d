import KeyLayout.Proofs.Grammar.Blocks

namespace KeyLayout

/-! Of the behaviors that agree with a state, the one that sorting brings to the front is the
most specific, and of several that are as specific the first. -/

namespace Behavior

variable {behaviors others : List Behavior} {state : MetaState} {behavior : Behavior}

/-- The behavior agrees with the state, and none that agrees with it is more specific. -/
structure Prevails (behaviors : List Behavior) (state : MetaState) (behavior : Behavior) :
    Prop where
  compatible : behavior.mask.compatible state = true
  specific : ∀ other ∈ behaviors, other.mask.compatible state = true →
    other.specificity ≤ behavior.specificity

instance (behaviors : List Behavior) (state : MetaState) (behavior : Behavior) :
    Decidable (Prevails behaviors state behavior) :=
  decidable_of_iff (behavior.mask.compatible state = true ∧
      ∀ other ∈ behaviors, other.mask.compatible state = true →
        other.specificity ≤ behavior.specificity)
    ⟨fun h => ⟨h.1, h.2⟩, fun h => ⟨h.1, h.2⟩⟩

theorem find?_sort (behaviors : List Behavior) (state : MetaState) :
    find? (sort behaviors) state = behaviors.find? (Prevails behaviors state ·) := by
  rw [find?, sort_eq, StableSort.find?_mergeSort]
  refine List.find?_congr fun behavior _ => ?_
  rw [Bool.eq_iff_iff, Bool.and_eq_true, decide_eq_true_eq, decide_eq_true_eq]
  exact ⟨fun h => ⟨h.1, h.2⟩, fun h => ⟨h.1, h.2⟩⟩

theorem find?_sort_eq_none_iff :
    find? (sort behaviors) state = none ↔
      ∀ behavior ∈ behaviors, behavior.mask.compatible state = false := by
  simp only [find?, List.find?_eq_none, (sort_perm behaviors).mem_iff, Bool.not_eq_true]

theorem prevails_of_find?_sort (hfind : find? (sort behaviors) state = some behavior) :
    behavior ∈ behaviors ∧ Prevails behaviors state behavior := by
  rw [find?_sort] at hfind
  exact ⟨List.mem_of_find?_eq_some hfind, by simpa using List.find?_some hfind⟩

/-- Both behaviors agree with the state, and neither is more specific. -/
structure Rivals (state : MetaState) (first second : Behavior) : Prop where
  left : first.mask.compatible state = true
  right : second.mask.compatible state = true
  equal : first.specificity = second.specificity

theorem rivals_of_prevails {first second : Behavior} (hperm : behaviors.Perm others)
    (hfirst : first ∈ behaviors ∧ Prevails behaviors state first)
    (hsecond : second ∈ others ∧ Prevails others state second) : Rivals state first second where
  left := hfirst.2.compatible
  right := hsecond.2.compatible
  equal := le_antisymm
    (hsecond.2.specific first (hperm.mem_iff.mp hfirst.1) hfirst.2.compatible)
    (hfirst.2.specific second (hperm.mem_iff.mpr hsecond.1) hsecond.2.compatible)

/-- The order in which behaviors are given matters between rivals only. -/
theorem rel_find?_sort (hperm : behaviors.Perm others) (state : MetaState) :
    Option.Rel (Rivals state) (find? (sort behaviors) state) (find? (sort others) state) := by
  have hnone : find? (sort behaviors) state = none ↔ find? (sort others) state = none := by
    simp only [find?_sort_eq_none_iff, hperm.mem_iff]
  cases hfirst : find? (sort behaviors) state with
  | none =>
      rw [hnone.mp hfirst]
      exact .none
  | some first =>
      cases hsecond : find? (sort others) state with
      | none =>
          rw [hnone.mpr hsecond] at hfirst
          contradiction
      | some second =>
          exact .some (rivals_of_prevails hperm (prevails_of_find?_sort hfirst)
            (prevails_of_find?_sort hsecond))

/-- The same holds of the statements of a block. -/
theorem rel_find?_ofSettings {statements rearranged : List Statement}
    (hperm : statements.Perm rearranged) (state : MetaState) :
    Option.Rel (Rivals state)
      (find? (Key.ofSettings (Statement.settings statements)).behaviors state)
      (find? (Key.ofSettings (Statement.settings rearranged)).behaviors state) := by
  have hsettings : (Statement.settings statements).Perm (Statement.settings rearranged) :=
    hperm.flatMap_right _
  exact rel_find?_sort (hsettings.filterMap _) state

/-- Sorting brings the more specific behaviors to the front and keeps the order of those that
are as specific.  So none is found for a state if none agrees with it, or else the first of
the most specific ones that do, and the order in which a block states them matters between
rivals only. -/
theorem find?_sort_characterized (behaviors : List Behavior) (state : MetaState) :
    ((sort behaviors).Perm behaviors ∧
        ((sort behaviors).Pairwise fun first second =>
          second.specificity ≤ first.specificity) ∧
        ∀ specificity, (sort behaviors).filter (·.specificity = specificity) =
          behaviors.filter (·.specificity = specificity)) ∧
      (find? (sort behaviors) state = none ↔
        ∀ behavior ∈ behaviors, behavior.mask.compatible state = false) ∧
      find? (sort behaviors) state = behaviors.find? (Prevails behaviors state ·) ∧
      (∀ others : List Behavior, behaviors.Perm others →
        Option.Rel (Rivals state) (find? (sort behaviors) state) (find? (sort others) state)) ∧
      ∀ statements rearranged : List Statement, statements.Perm rearranged →
        Option.Rel (Rivals state)
          (find? (Key.ofSettings (Statement.settings statements)).behaviors state)
          (find? (Key.ofSettings (Statement.settings rearranged)).behaviors state) :=
  ⟨⟨sort_perm behaviors, pairwise_specificity_sort behaviors,
      fun specificity => filter_specificity_sort specificity behaviors⟩,
    find?_sort_eq_none_iff, find?_sort behaviors state,
    fun _ hperm => rel_find?_sort hperm state,
    fun _ _ hperm => rel_find?_ofSettings hperm state⟩

def leftShifted : Behavior := { mask := 0x40, character := some (.scalar 'l') }

def rightShifted : Behavior := { mask := 0x80, character := some (.scalar 'r') }

/-- Of behaviors for either shift key the one that is stated first is found while both keys
are held. -/
theorem find?_sort_characterized_shifts :
    find? (sort [{}, rightShifted, leftShifted]) 0xC1 = some rightShifted ∧
      [rightShifted, leftShifted].Perm [leftShifted, rightShifted] ∧
      Option.Rel (Rivals 0xC1) (find? (sort [rightShifted, leftShifted]) 0xC1)
        (find? (sort [leftShifted, rightShifted]) 0xC1) := by
  obtain ⟨-, -, hfind, -, -⟩ :=
    find?_sort_characterized [{}, rightShifted, leftShifted] 0xC1
  obtain ⟨-, -, -, hrel, -⟩ := find?_sort_characterized [rightShifted, leftShifted] 0xC1
  have hswap : [rightShifted, leftShifted].Perm [leftShifted, rightShifted] := .swap ..
  refine ⟨?_, hswap, hrel _ hswap⟩
  rw [hfind]
  decide

end Behavior

end KeyLayout
