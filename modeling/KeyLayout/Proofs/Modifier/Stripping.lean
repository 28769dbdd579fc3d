import KeyLayout.Proofs.Modifier.Release

namespace KeyLayout

/-! A mask that agrees with a state mentions just the groups that are held, so that a state
without the groups of the mask is a state without any modifiers. -/

namespace MetaState

variable {mask state first second : MetaState} {group : ModifierGroup}

/-- The state with every bit of every group clear, and all other bits as they are. -/
def withoutModifiers (state : MetaState) : MetaState :=
  state.clearBits (ModifierGroup.all.flatMap ModifierGroup.bits)

theorem clearGroups_eq (state mask : MetaState) :
    state.clearGroups mask =
      state.clearBits ((ModifierGroup.within mask).flatMap ModifierGroup.bits) := by
  simp only [clearGroups, clearBits, List.foldl_flatMap]

theorem within_eq (state : MetaState) :
    ModifierGroup.within state =
      ModifierGroup.all.filter fun group => !(group.sides state).isEmpty := by
  refine List.filter_congr fun group _ => ?_
  rw [Bool.eq_iff_iff, Bool.not_eq_true', ← Bool.not_eq_true, isEmpty_sides_iff]
  simp

theorem mem_within_iff :
    group ∈ ModifierGroup.within state ↔ (group.sides state).isEmpty = false := by
  rw [within_eq, List.mem_filter, Bool.not_eq_true', and_iff_right (ModifierGroup.mem_all group)]

theorem isEmpty_sides_of_compatible (hmask : mask.compatible state = true)
    (group : ModifierGroup) : (group.sides mask).isEmpty = (group.sides state).isEmpty := by
  have hgroup := List.all_eq_true.mp hmask group (ModifierGroup.mem_all group)
  rw [ModifierGroup.compatible] at hgroup
  split at hgroup
  next hwanted => rw [hwanted, hgroup]
  next hwanted =>
    rw [Bool.and_eq_true, Bool.not_eq_true'] at hgroup
    rw [Bool.eq_false_iff.mpr hwanted, hgroup.1]

theorem within_of_compatible (hmask : mask.compatible state = true) :
    ModifierGroup.within mask = ModifierGroup.within state := by
  simp only [within_eq, isEmpty_sides_of_compatible hmask]

/-- A bit of some group is set only in a group that is held. -/
theorem mem_bits_within_iff {position : Nat} (hbit : state.testBit position = true) :
    position ∈ (ModifierGroup.within state).flatMap ModifierGroup.bits ↔
      position ∈ ModifierGroup.all.flatMap ModifierGroup.bits := by
  simp only [List.mem_flatMap, mem_within_iff, ModifierGroup.mem_all, true_and]
  refine exists_congr fun group => and_iff_right_of_imp fun hposition => ?_
  rw [← Bool.not_eq_true, isEmpty_sides_iff]
  intro hclear
  rw [hclear position hposition] at hbit
  contradiction

theorem clearGroups_of_compatible (hmask : mask.compatible state = true) :
    state.clearGroups mask = state.withoutModifiers := by
  rw [clearGroups_eq, within_of_compatible hmask, withoutModifiers]
  refine eq_of_testBit fun position => ?_
  rw [testBit_clearBits, testBit_clearBits]
  cases hbit : state.testBit position with
  | false => rw [Bool.and_false, Bool.and_false]
  | true =>
      have hmem := mem_bits_within_iff hbit
      rw [← List.contains_iff_mem, ← List.contains_iff_mem, ← Bool.eq_iff_iff] at hmem
      rw [hmem]

theorem isEmpty_sides_of_not_hasModifier (hstate : state.hasModifier = false)
    (group : ModifierGroup) : (group.sides state).isEmpty = true := by
  rw [hasModifier, Bool.not_eq_false', List.isEmpty_iff] at hstate
  rw [← Bool.not_eq_false, ← mem_within_iff, hstate]
  exact List.not_mem_nil

/-- A state without modifiers is like one without any bits to all masks. -/
theorem compatible_of_not_hasModifier (hstate : state.hasModifier = false) (mask : MetaState) :
    mask.compatible state = mask.compatible 0 := by
  have hempty {sides : Sides} (hsides : sides.isEmpty = true) : sides = ⟨false, false, false⟩ := by
    obtain ⟨generic, left, right⟩ := sides
    simpa [Sides.isEmpty, and_assoc] using hsides
  have hsides (group : ModifierGroup) : group.sides state = group.sides 0 := by
    rw [hempty (isEmpty_sides_of_not_hasModifier hstate group),
      hempty (isEmpty_sides_iff.mpr fun bit _ => testBit_zero bit)]
  simp only [compatible, ModifierGroup.compatible, hsides]

end MetaState

end KeyLayout
