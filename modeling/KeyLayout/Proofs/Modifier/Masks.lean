import KeyLayout.Behavior.Matching
import KeyLayout.Modifier.Combination
import KeyLayout.Proofs.Outcome

namespace KeyLayout

/-! Masks of modifier bits, and the order of their specificity. -/

/-- Only bits of modifier groups are set. -/
def MetaState.OfModifiers (mask : MetaState) : Prop :=
  ∀ bit, mask.testBit bit = true → ∃ group ∈ ModifierGroup.all, bit ∈ group.bits

namespace MetaState

variable {mask other : MetaState}

theorem exists_testBit_of_negSucc (value bound : Nat) :
    ∃ bit, bound ≤ bit ∧ testBit (.negSucc value) bit = true := by
  have hlow : value < 2 ^ (value + bound) :=
    Nat.lt_of_lt_of_le Nat.lt_two_pow_self (Nat.pow_le_pow_right (by decide) (Nat.le_add_right ..))
  refine ⟨value + bound, Nat.le_add_left .., ?_⟩
  rw [testBit, Nat.testBit_lt_two_pow hlow]
  rfl

theorem bits_lt (group : ModifierGroup) : ∀ bit ∈ group.bits, bit < 23 := by
  cases group <;> decide

namespace OfModifiers

theorem nonneg (hmask : mask.OfModifiers) : 0 ≤ mask := by
  cases mask with
  | ofNat value => exact Int.natCast_nonneg value
  | negSucc value =>
      obtain ⟨bit, hbound, hbit⟩ := exists_testBit_of_negSucc value 23
      obtain ⟨group, -, hmem⟩ := hmask bit hbit
      exact absurd (bits_lt group bit hmem) (Nat.not_lt.mpr hbound)

theorem zero : OfModifiers 0 := by
  intro bit hbit
  have hzero : testBit 0 bit = false := Nat.zero_testBit bit
  rw [hzero] at hbit
  contradiction

theorem setBit (hmask : mask.OfModifiers) {bit : Nat}
    (hbit : ∃ group ∈ ModifierGroup.all, bit ∈ group.bits) : (mask.setBit bit).OfModifiers := by
  intro other hother
  rw [testBit_setBit, Bool.or_eq_true, decide_eq_true_eq] at hother
  rcases hother with rfl | hother
  · exact hbit
  · exact hmask other hother

end OfModifiers

theorem exists_group_of_bitNamed? {name : Text} {bit : Nat} (hbit : bitNamed? name = some bit) :
    ∃ group ∈ ModifierGroup.all, bit ∈ group.bits := by
  have hnames : ∀ entry ∈ bitNames, ∃ group ∈ ModifierGroup.all, entry.2 ∈ group.bits := by
    decide
  obtain ⟨before, after, heq, -⟩ := List.lookup_eq_some_iff.mp hbit
  exact hnames (name, bit) (heq ▸ List.mem_append_right before (List.mem_cons_self ..))

/-- What a combination of names stands for. -/
theorem ofModifiers_of_parse {text : Text} (hparse : parse text = .ok mask) :
    mask.OfModifiers := by
  rw [parse] at hparse
  split at hparse
  next =>
    cases hparse
    exact .zero
  next =>
    refine foldlM_keeps (fun state name next hstate hnext => ?_) .zero hparse
    split at hnext
    next => contradiction
    next bit hbit =>
      split at hnext
      next => contradiction
      next =>
        cases hnext
        exact hstate.setBit (exists_group_of_bitNamed? hbit)

/-- A mask of modifiers that leaves every group alone is empty. -/
theorem OfModifiers.eq_zero (hmask : mask.OfModifiers)
    (hempty : ∀ group ∈ ModifierGroup.all, ∀ bit ∈ group.bits, mask.testBit bit = false) :
    mask = 0 := by
  have hclear (bit : Nat) : mask.testBit bit = false := by
    rw [← Bool.not_eq_true]
    intro hbit
    obtain ⟨group, hgroup, hmem⟩ := hmask bit hbit
    rw [hempty group hgroup bit hmem] at hbit
    contradiction
  cases mask with
  | ofNat value => exact congrArg Int.ofNat (Nat.eq_of_testBit_eq fun bit =>
      (hclear bit).trans (Nat.zero_testBit bit).symm)
  | negSucc value =>
      obtain ⟨bit, -, hbit⟩ := exists_testBit_of_negSucc value 0
      rw [hclear bit] at hbit
      contradiction

theorem isEmpty_sides_iff {group : ModifierGroup} :
    (group.sides mask).isEmpty = true ↔ ∀ bit ∈ group.bits, mask.testBit bit = false := by
  cases hsides : group.sideBits? <;>
    simp [ModifierGroup.sides, ModifierGroup.bits, Sides.isEmpty, hsides, and_assoc]

theorem compatible_zero_iff (hmask : mask.OfModifiers) : mask.compatible 0 = true ↔ mask = 0 := by
  have hheld (group : ModifierGroup) : (group.sides 0).isEmpty = true :=
    isEmpty_sides_iff.mpr fun bit _ => Nat.zero_testBit bit
  have hgroup (group : ModifierGroup) :
      group.compatible mask 0 = (group.sides mask).isEmpty := by
    rw [ModifierGroup.compatible]
    split
    next hempty => rw [hheld, hempty]
    next hsome => rw [hheld, Bool.not_true, Bool.false_and, Bool.eq_false_iff.mpr hsome]
  simp only [compatible, hgroup, List.all_eq_true]
  constructor
  · exact fun hall => hmask.eq_zero fun group hmem => isEmpty_sides_iff.mp (hall group hmem)
  · rintro rfl group -
    exact hheld group

end MetaState

namespace Specificity

theorem atLeast_iff {first second : Specificity} :
    first.atLeast second = true ↔
      second.groups < first.groups ∨
        first.groups = second.groups ∧
          (second.sided < first.sided ∨ first.sided = second.sided ∧ second.bits ≤ first.bits) := by
  simp [atLeast]

/-- No other mask of modifiers may come after the empty one. -/
theorem eq_zero_of_zero_atLeast {mask : MetaState} (hmask : mask.OfModifiers)
    (hzero : (ofMask 0).atLeast (ofMask mask) = true) : mask = 0 := by
  have hnone : (ofMask 0).groups = 0 := by decide
  have hgroups : (ofMask mask).groups = 0 := by
    rw [atLeast_iff, hnone] at hzero
    omega
  refine hmask.eq_zero fun group hgroup => MetaState.isEmpty_sides_iff.mp ?_
  simpa using List.filter_eq_nil_iff.mp (List.length_eq_zero_iff.mp hgroups) group hgroup

end Specificity

end KeyLayout
