import KeyLayout.Proofs.Modifier.Held
import KeyLayout.Proofs.Modifier.Masks
import Mathlib.Data.List.Nodup

namespace KeyLayout.MetaState

/-! A state from which a key was let go is the state that the keys show which are still
held. -/

open ModifierGroup (ephemeralKeys)

theorem testBit_ofNat_of_le {value bound : Nat} (hbound : value ≤ bound) :
    testBit (.ofNat value) bound = false :=
  Nat.testBit_lt_two_pow (Nat.lt_of_le_of_lt hbound Nat.lt_two_pow_self)

theorem exists_testBit_ne (first second : Nat) :
    ∃ position, testBit (.ofNat first) position ≠ testBit (.negSucc second) position := by
  obtain ⟨position, hbound, hset⟩ := exists_testBit_of_negSucc second first
  refine ⟨position, ?_⟩
  rw [hset, testBit_ofNat_of_le hbound]
  exact Bool.false_ne_true

/-- States that agree on every bit are equal, whatever their signs. -/
theorem eq_of_testBit {first second : MetaState}
    (hbits : ∀ position, first.testBit position = second.testBit position) : first = second := by
  cases first with
  | ofNat first =>
      cases second with
      | ofNat second => exact congrArg Int.ofNat (Nat.eq_of_testBit_eq hbits)
      | negSucc second =>
          obtain ⟨position, hne⟩ := exists_testBit_ne first second
          exact absurd (hbits position) hne
  | negSucc first =>
      cases second with
      | ofNat second =>
          obtain ⟨position, hne⟩ := exists_testBit_ne second first
          exact absurd (hbits position).symm hne
      | negSucc second =>
          exact congrArg Int.negSucc (Nat.eq_of_testBit_eq fun position =>
            Bool.not_inj (hbits position))

variable {locks state : MetaState} {keys : List KeyCode} {key : ModifierKey} {position : Nat}

/-- A bit is set by the keys that are held, or it was set before. -/
theorem testBit_held (hkeys : keys ⊆ ephemeralKeys) :
    (held keys locks).testBit position = true ↔
      (∃ key ∈ ModifierKey.all, key.code ∈ keys ∧
        (key.group.genericBit = position ∨ key.bit = position)) ∨
        locks.testBit position = true := by
  induction keys generalizing locks with
  | nil => simp [held]
  | cons code rest ih =>
      obtain ⟨hcode, hrest⟩ := List.cons_subset.mp hkeys
      obtain ⟨own, hown, hhold, rfl⟩ := ModifierGroup.exists_key_of_mem_ephemeralKeys hcode
      rw [held, List.foldl_cons, ← held, ih hrest, testBit_update_down hown hhold]
      simp only [Bool.or_eq_true, decide_eq_true_eq, List.mem_cons]
      constructor
      · rintro (⟨key, hkey, hmem, hbit⟩ | (hbit | hbefore))
        · exact .inl ⟨key, hkey, .inr hmem, hbit⟩
        · exact .inl ⟨own, hown, .inl rfl, hbit⟩
        · exact .inr hbefore
      · rintro (⟨key, hkey, hcode | hmem, hbit⟩ | hbefore)
        · obtain rfl := ModifierKey.eq_of_code key hkey own hown hcode
          exact .inr (.inl hbit)
        · exact .inl ⟨key, hkey, hmem, hbit⟩
        · exact .inr (.inr hbefore)

/-- The keys of a group are those that set its generic bit. -/
theorem group_eq_of_sets_genericBit (hkey : key ∈ ModifierKey.all) {group : ModifierGroup}
    (hbit : key.group.genericBit = group.genericBit ∨ key.bit = group.genericBit) :
    key.group = group :=
  hbit.elim ModifierGroup.genericBit_injective (ModifierKey.group_eq_of_bit_eq hkey)

/-- No other key sets the side bit of a key. -/
theorem eq_of_sets_bit {other : ModifierKey} (hkey : key ∈ ModifierKey.all)
    (hother : other ∈ ModifierKey.all)
    (hbit : other.group.genericBit = key.bit ∨ other.bit = key.bit)
    (hgeneric : key.bit ≠ key.group.genericBit) : other = key := by
  rcases hbit with hbit | hbit
  · have hgroup := ModifierKey.group_eq_of_bit_eq hkey hbit.symm
    exact absurd (hbit.symm.trans (congrArg _ hgroup.symm)) hgeneric
  · exact ModifierKey.eq_of_bit other hother key hkey hbit

section

variable (hnodup : keys.Nodup) (hkeys : keys ⊆ ephemeralKeys) (hkey : key ∈ ModifierKey.all)
  (hhold : key.group.isLock = false)

include hnodup hkeys hkey hhold

/-- The generic bit stays set exactly if another key of the group is held. -/
theorem genericBit_update_held_up :
    ((held keys state.lockBits).update key.code false).testBit key.group.genericBit = true ↔
      (held (keys.erase key.code) state.lockBits).testBit key.group.genericBit = true := by
  have hshows := Shows.held hkeys state
  have hlocks : state.lockBits.testBit key.group.genericBit = false :=
    Bool.eq_false_iff.mpr fun hbit =>
      ((Shows.lockBits state).genericBit key.group hhold hbit).elim fun code hcode =>
        List.not_mem_nil hcode.2
  rw [testBit_update_up hkey hhold, if_pos rfl,
    testBit_held fun code hcode => hkeys (List.mem_of_mem_erase hcode)]
  simp only [List.any_eq_true, Bool.and_eq_true, decide_eq_true_eq, hlocks, Bool.false_eq_true,
    or_false]
  constructor
  · rintro ⟨other, hother, hne, hdown⟩
    have hall := ModifierKey.mem_all_of_mem hother
    have hgroup := ModifierKey.group_eq hother
    rw [hshows.keyBit other hall (hgroup ▸ hhold), List.contains_iff_mem] at hdown
    have hcode : other.code ≠ key.code := fun heq =>
      hne (ModifierKey.eq_of_code other hall key hkey heq)
    exact ⟨other, hall, hnodup.mem_erase_iff.mpr ⟨hcode, hdown⟩, .inl (congrArg _ hgroup)⟩
  · rintro ⟨other, hall, hdown, hsets⟩
    obtain ⟨hcode, hmem⟩ := hnodup.mem_erase_iff.mp hdown
    have hgroup := group_eq_of_sets_genericBit hall hsets
    refine ⟨other, hgroup ▸ ModifierKey.mem_all_iff.mp hall, fun heq => hcode (heq ▸ rfl), ?_⟩
    rw [hshows.keyBit other hall (hgroup ▸ hhold), List.contains_iff_mem]
    exact hmem

/-- Of the other bits only that of the key goes. -/
theorem otherBit_update_held_up (hposition : position ≠ key.group.genericBit) :
    ((held keys state.lockBits).update key.code false).testBit position = true ↔
      (held (keys.erase key.code) state.lockBits).testBit position = true := by
  rw [testBit_update_up hkey hhold, if_neg hposition, Bool.and_eq_true, decide_eq_true_eq,
    testBit_held hkeys, testBit_held fun code hcode => hkeys (List.mem_of_mem_erase hcode)]
  constructor
  · rintro ⟨hbit, ⟨other, hother, hmem, hsets⟩ | hlocks⟩
    · refine .inl ⟨other, hother, hnodup.mem_erase_iff.mpr ⟨fun hcode => ?_, hmem⟩, hsets⟩
      obtain rfl := ModifierKey.eq_of_code other hother key hkey hcode
      exact hsets.elim (fun heq => hposition heq.symm) fun heq => hbit heq.symm
    · exact .inr hlocks
  · rintro (⟨other, hother, hdown, hsets⟩ | hlocks)
    · obtain ⟨hcode, hmem⟩ := hnodup.mem_erase_iff.mp hdown
      refine ⟨?_, .inl ⟨other, hother, hmem, hsets⟩⟩
      rintro rfl
      exact hcode (eq_of_sets_bit hkey hother hsets hposition ▸ rfl)
    · refine ⟨?_, .inr hlocks⟩
      rintro rfl
      rw [(Shows.lockBits state).keyBit key hkey hhold] at hlocks
      contradiction

theorem update_held_up :
    (held keys state.lockBits).update key.code false =
      held (keys.erase key.code) state.lockBits := by
  refine eq_of_testBit fun position => ?_
  rw [Bool.eq_iff_iff]
  by_cases hposition : position = key.group.genericBit
  · subst hposition
    exact genericBit_update_held_up hnodup hkeys hkey hhold
  · exact otherBit_update_held_up hnodup hkeys hkey hhold hposition

end

end KeyLayout.MetaState
