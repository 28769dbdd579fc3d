import KeyLayout.Modifier.Tracking

namespace KeyLayout

/-! Which bits of a meta state change when a modifier key goes down or up. -/

namespace ModifierGroup

theorem mem_all (group : ModifierGroup) : group ∈ all := by
  cases group <;> decide

theorem mem_ephemeral {group : ModifierGroup} : group ∈ ephemeral ↔ group.isLock = false := by
  simp [ephemeral, mem_all]

theorem mem_locks {group : ModifierGroup} : group ∈ locks ↔ group.isLock = true := by
  simp [locks, mem_all]

theorem genericBit_injective {first second : ModifierGroup}
    (heq : first.genericBit = second.genericBit) : first = second := by
  cases first <;> cases second <;> first | rfl | contradiction

theorem eq_of_mem_bits {first second : ModifierGroup} {position : Nat}
    (hfirst : position ∈ first.bits) (hsecond : position ∈ second.bits) : first = second := by
  have hapart : ∀ first ∈ all, ∀ second ∈ all, ∀ bit ∈ first.bits, bit ∈ second.bits →
      first = second := by
    decide
  exact hapart first first.mem_all second second.mem_all position hfirst hsecond

theorem isSided_sides (group : ModifierGroup) (state : MetaState) :
    (group.sides state).isSided =
      (group.isPaired && group.modifierKeys.any fun key => state.testBit key.bit) := by
  cases group <;>
    simp [sides, Sides.isSided, isPaired, sideBits?, modifierKeys]

theorem isEmpty_sides (group : ModifierGroup) (state : MetaState) :
    (group.sides state).isEmpty =
      (!state.testBit group.genericBit &&
        !group.modifierKeys.any fun key => state.testBit key.bit) := by
  cases group <;>
    simp [sides, Sides.isEmpty, sideBits?, modifierKeys, genericBit, Bool.and_assoc]

end ModifierGroup

namespace ModifierKey

/-! Modifier keys are told apart by their codes and by their bits. -/

theorem mem_all_iff {key : ModifierKey} : key ∈ all ↔ key ∈ key.group.modifierKeys := by
  constructor
  · intro hkey
    revert key
    decide
  · exact fun hkey => List.mem_flatMap.mpr ⟨key.group, ModifierGroup.mem_all _, hkey⟩

theorem group_eq {group : ModifierGroup} {key : ModifierKey}
    (hkey : key ∈ group.modifierKeys) : key.group = group := by
  cases group <;> revert key <;> decide

theorem mem_all_of_mem {group : ModifierGroup} {key : ModifierKey}
    (hkey : key ∈ group.modifierKeys) : key ∈ all :=
  List.mem_flatMap.mpr ⟨group, ModifierGroup.mem_all _, hkey⟩

theorem eq_of_code : ∀ first ∈ all, ∀ second ∈ all, first.code = second.code →
    first = second := by
  decide

theorem eq_of_bit : ∀ first ∈ all, ∀ second ∈ all, first.bit = second.bit →
    first = second := by
  decide

/-- Only a key without a partner sets no other bit than a generic one. -/
theorem modifierKeys_of_bit_eq : ∀ key ∈ all, ∀ group : ModifierGroup,
    key.bit = group.genericBit → group.modifierKeys = [key] := by
  intro key hkey group
  have hgroup := group.mem_all
  revert group
  revert key
  decide

theorem group_eq_of_bit_eq {key : ModifierKey} (hkey : key ∈ all) {group : ModifierGroup}
    (hbit : key.bit = group.genericBit) : key.group = group := by
  have hmem := modifierKeys_of_bit_eq key hkey group hbit
  exact group_eq (by rw [hmem]; exact List.mem_singleton_self key)

/-- A generic bit that is the bit of a key is the bit of every key of the group. -/
theorem eq_of_bit_eq_genericBit {first second : ModifierKey} (hfirst : first ∈ all)
    (hsecond : second ∈ all) (hbit : first.bit = second.group.genericBit) :
    first = second := by
  have hmem := mem_all_iff.mp hsecond
  rw [modifierKeys_of_bit_eq first hfirst _ hbit] at hmem
  exact (List.mem_singleton.mp hmem).symm

theorem modifierKeys_of_not_isPaired : ∀ key ∈ all, key.group.isPaired = false →
    key.group.modifierKeys = [key] := by
  decide

theorem bit_ne_genericBit : ∀ key ∈ all, key.group.isPaired = true →
    key.bit ≠ key.group.genericBit := by
  decide

theorem ofCode?_eq_some_iff {code : KeyCode} {key : ModifierKey} :
    ofCode? code = some key ↔ key ∈ all ∧ key.code = code := by
  constructor
  · intro hfound
    have hcode := List.find?_some hfound
    exact ⟨List.mem_of_find?_eq_some hfound, of_decide_eq_true hcode⟩
  · rintro ⟨hkey, rfl⟩
    revert key
    decide

end ModifierKey

theorem KeyCode.isModifier_iff {code : KeyCode} :
    code.isModifier = true ↔ ∃ key ∈ ModifierKey.all, key.code = code := by
  simp only [isModifier, Option.isSome_iff_exists, ModifierKey.ofCode?_eq_some_iff]

namespace MetaState

variable {state : MetaState} {key : ModifierKey}

theorem update_of_not_isModifier {code : KeyCode} (hcode : code.isModifier = false)
    (down : Bool) : state.update code down = state := by
  have hnone : ModifierKey.ofCode? code = none := by
    simpa [KeyCode.isModifier] using hcode
  simp [update, hnone]

theorem testBit_update_down (hkey : key ∈ ModifierKey.all) (hhold : key.group.isLock = false)
    (position : Nat) :
    (state.update key.code true).testBit position =
      (decide (key.group.genericBit = position) || decide (key.bit = position) ||
        state.testBit position) := by
  simp [update, ModifierKey.ofCode?_eq_some_iff.mpr ⟨hkey, rfl⟩, hhold, Bool.or_assoc]

/-- Letting go of a key leaves a side bit of its group exactly when its partner is down. -/
theorem isSided_clear_key (hkey : key ∈ ModifierKey.all) :
    (key.group.sides ((state.clearBit key.bit).clearBit key.group.genericBit)).isSided =
      key.group.modifierKeys.any fun other =>
        decide (other ≠ key) && state.testBit other.bit := by
  rw [ModifierGroup.isSided_sides]
  cases hpaired : key.group.isPaired with
  | false => simp [ModifierKey.modifierKeys_of_not_isPaired key hkey hpaired]
  | true =>
      rw [Bool.true_and, Bool.eq_iff_iff, List.any_eq_true, List.any_eq_true]
      refine exists_congr fun other => and_congr_right fun hother => ?_
      have hall := ModifierKey.mem_all_of_mem hother
      have hgroup := ModifierKey.group_eq hother
      have hgeneric : key.group.genericBit ≠ other.bit := by
        rw [← hgroup] at hpaired ⊢
        exact (ModifierKey.bit_ne_genericBit other hall hpaired).symm
      have hbit : key.bit = other.bit ↔ other = key :=
        ⟨fun heq => ModifierKey.eq_of_bit other hall key hkey heq.symm,
          fun heq => heq ▸ rfl⟩
      simp [hgeneric, hbit]

theorem testBit_update_up (hkey : key ∈ ModifierKey.all) (hhold : key.group.isLock = false)
    (position : Nat) :
    (state.update key.code false).testBit position =
      if position = key.group.genericBit then
        key.group.modifierKeys.any fun other =>
          decide (other ≠ key) && state.testBit other.bit
      else
        decide (position ≠ key.bit) && state.testBit position := by
  simp only [update, ModifierKey.ofCode?_eq_some_iff.mpr ⟨hkey, rfl⟩, hhold,
    Bool.false_eq_true, if_false, isSided_clear_key hkey]
  split <;> by_cases heq : position = key.group.genericBit <;>
    simp_all [eq_comm (a := position)]

/-- A key that only holds leaves the locks alone. -/
theorem testBit_update_lock (hkey : key ∈ ModifierKey.all) (hhold : key.group.isLock = false)
    {group : ModifierGroup} (hlock : group.isLock = true) (down : Bool) :
    (state.update key.code down).testBit group.genericBit = state.testBit group.genericBit := by
  have hother : key.group ≠ group := by
    rintro rfl
    rw [hlock] at hhold
    contradiction
  have hgeneric : key.group.genericBit ≠ group.genericBit := fun heq =>
    hother (ModifierGroup.genericBit_injective heq)
  have hbit : key.bit ≠ group.genericBit := fun heq =>
    hother (ModifierKey.group_eq_of_bit_eq hkey heq)
  cases down with
  | true => simp [testBit_update_down hkey hhold, hgeneric, hbit]
  | false => simp [testBit_update_up hkey hhold, hgeneric.symm, hbit.symm]

end MetaState

end KeyLayout
