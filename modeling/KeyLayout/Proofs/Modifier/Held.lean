import KeyLayout.Behavior.Matching
import KeyLayout.Proofs.Modifier.Update

namespace KeyLayout

/-! What a meta state shows when some modifier keys are held on top of the locks. -/

/-- The keys that hold a modifier only while they are down, in the order in which they
are pressed. -/
def ModifierGroup.ephemeralKeys : List KeyCode :=
  ephemeral.flatMap keys

namespace ModifierGroup

theorem nodup_ephemeralKeys : ephemeralKeys.Nodup := by
  decide

theorem mem_keys {group : ModifierGroup} {code : KeyCode} :
    code ∈ group.keys ↔ ∃ key ∈ group.modifierKeys, key.code = code :=
  List.mem_map

theorem mem_ephemeralKeys {code : KeyCode} :
    code ∈ ephemeralKeys ↔ ∃ group ∈ ephemeral, code ∈ group.keys :=
  List.mem_flatMap

theorem exists_key_of_mem_ephemeralKeys {code : KeyCode} (hcode : code ∈ ephemeralKeys) :
    ∃ key ∈ ModifierKey.all, key.group.isLock = false ∧ key.code = code := by
  obtain ⟨group, hgroup, hmem⟩ := mem_ephemeralKeys.mp hcode
  obtain ⟨key, hkey, rfl⟩ := mem_keys.mp hmem
  refine ⟨key, ModifierKey.mem_all_of_mem hkey, ?_, rfl⟩
  rw [ModifierKey.group_eq hkey]
  exact mem_ephemeral.mp hgroup

theorem code_mem_ephemeralKeys {key : ModifierKey} (hkey : key ∈ ModifierKey.all)
    (hhold : key.group.isLock = false) : key.code ∈ ephemeralKeys :=
  mem_ephemeralKeys.mpr ⟨key.group, mem_ephemeral.mpr hhold,
    mem_keys.mpr ⟨key, ModifierKey.mem_all_iff.mp hkey, rfl⟩⟩

/-- No key belongs to two groups. -/
theorem eq_of_mem_keys {first second : ModifierGroup} {code : KeyCode}
    (hfirst : code ∈ first.keys) (hsecond : code ∈ second.keys) : first = second := by
  obtain ⟨key, hkey, rfl⟩ := mem_keys.mp hfirst
  obtain ⟨other, hother, hcode⟩ := mem_keys.mp hsecond
  have heq := ModifierKey.eq_of_code other (ModifierKey.mem_all_of_mem hother) key
    (ModifierKey.mem_all_of_mem hkey) hcode
  rw [← ModifierKey.group_eq hkey, ← ModifierKey.group_eq hother, heq]

end ModifierGroup

namespace MetaState

/-- The bits of the state say that exactly these keys are held; a generic bit is set at
most beside them, and the locks are as given. -/
structure Shows (state : MetaState) (keys : List KeyCode) (locks : MetaState) : Prop where
  keyBit : ∀ key ∈ ModifierKey.all, key.group.isLock = false →
    state.testBit key.bit = keys.contains key.code
  genericBit : ∀ group : ModifierGroup, group.isLock = false →
    state.testBit group.genericBit = true → ∃ code ∈ group.keys, code ∈ keys
  lockBit : ∀ group : ModifierGroup, group.isLock = true →
    state.testBit group.genericBit = locks.testBit group.genericBit

theorem testBit_zero (position : Nat) : testBit 0 position = false :=
  Nat.zero_testBit position

theorem testBit_lockBits (state : MetaState) (position : Nat) :
    state.lockBits.testBit position = true ↔
      (∃ group : ModifierGroup, group.isLock = true ∧ group.genericBit = position) ∧
        state.testBit position = true := by
  rw [lockBits, testBit_setBits, testBit_zero, Bool.or_false]
  simp [ModifierGroup.mem_locks]

theorem testBit_lockBits_of_isLock (state : MetaState) {group : ModifierGroup}
    (hlock : group.isLock = true) :
    state.lockBits.testBit group.genericBit = state.testBit group.genericBit := by
  rw [Bool.eq_iff_iff, testBit_lockBits]
  exact and_iff_right ⟨group, hlock, rfl⟩

/-- The lock bits say as much about a lock as the whole state. -/
theorem compatible_lockBits (mask state : MetaState) {group : ModifierGroup}
    (hlock : group.isLock = true) :
    group.compatible mask state.lockBits = group.compatible mask state := by
  have hsides : group.sides state.lockBits = group.sides state := by
    have hbit := testBit_lockBits_of_isLock state hlock
    have hnone : group.sideBits? = none := by
      revert hlock
      cases group <;> decide
    simp only [ModifierGroup.sides, hbit, hnone, Option.any_none]
  rw [ModifierGroup.compatible, ModifierGroup.compatible, hsides]

namespace Shows

variable {state locks : MetaState} {keys : List KeyCode} {key : ModifierKey}

theorem congr {others : List KeyCode} (hshows : state.Shows keys locks)
    (hmem : ∀ code ∈ ModifierGroup.ephemeralKeys, code ∈ keys ↔ code ∈ others) :
    state.Shows others locks where
  keyBit other hother hhold := by
    have hiff := hmem _ (ModifierGroup.code_mem_ephemeralKeys hother hhold)
    rw [hshows.keyBit other hother hhold, Bool.eq_iff_iff]
    simpa using hiff
  genericBit group hhold hbit := by
    obtain ⟨code, hcode, hdown⟩ := hshows.genericBit group hhold hbit
    have hiff := hmem code
      (ModifierGroup.mem_ephemeralKeys.mpr ⟨group, ModifierGroup.mem_ephemeral.mpr hhold, hcode⟩)
    exact ⟨code, hcode, hiff.mp hdown⟩
  lockBit := hshows.lockBit

theorem zero : Shows 0 [] 0 where
  keyBit _ _ _ := testBit_zero _
  genericBit group _ hbit := by
    rw [testBit_zero] at hbit
    contradiction
  lockBit _ _ := rfl

theorem lockBits (state : MetaState) : state.lockBits.Shows [] state.lockBits where
  keyBit key hkey hhold := by
    refine Bool.eq_false_iff.mpr fun hbit => ?_
    obtain ⟨⟨group, hlock, hgeneric⟩, -⟩ := (testBit_lockBits _ _).mp hbit
    rw [ModifierKey.group_eq_of_bit_eq hkey hgeneric.symm, hlock] at hhold
    contradiction
  genericBit group hhold hbit := by
    obtain ⟨⟨other, hlock, hgeneric⟩, -⟩ := (testBit_lockBits _ _).mp hbit
    rw [ModifierGroup.genericBit_injective hgeneric, hhold] at hlock
    contradiction
  lockBit _ _ := rfl

theorem press (hshows : state.Shows keys locks) (hkey : key ∈ ModifierKey.all)
    (hhold : key.group.isLock = false) :
    (state.update key.code true).Shows (keys ++ [key.code]) locks where
  keyBit other hother hotherHold := by
    have hbit : key.bit = other.bit ↔ other.code = key.code :=
      ⟨fun heq => ModifierKey.eq_of_bit key hkey other hother heq ▸ rfl,
        fun heq => ModifierKey.eq_of_code other hother key hkey heq ▸ rfl⟩
    have hgeneric : key.group.genericBit = other.bit → other.code = key.code :=
      fun heq => ModifierKey.eq_of_bit_eq_genericBit hother hkey heq.symm ▸ rfl
    rw [testBit_update_down hkey hhold, hshows.keyBit other hother hotherHold,
      Bool.eq_iff_iff]
    simp only [hbit, Bool.or_eq_true, decide_eq_true_eq, List.contains_iff_mem,
      List.mem_append, List.mem_singleton]
    constructor
    · rintro ((heq | heq) | hmem)
      · exact .inr (hgeneric heq)
      · exact .inr heq
      · exact .inl hmem
    · rintro (hmem | heq)
      · exact .inr hmem
      · exact .inl (.inr heq)
  genericBit group hgroup hbit := by
    rw [testBit_update_down hkey hhold] at hbit
    simp only [Bool.or_eq_true, decide_eq_true_eq] at hbit
    have hown : ∀ other : ModifierGroup, key.group = other →
        ∃ code ∈ other.keys, code ∈ keys ++ [key.code] := fun other heq =>
      ⟨key.code, heq ▸ ModifierGroup.mem_keys.mpr ⟨key, ModifierKey.mem_all_iff.mp hkey, rfl⟩,
        by simp⟩
    rcases hbit with (hgeneric | hbit) | hbit
    · exact hown group (ModifierGroup.genericBit_injective hgeneric)
    · exact hown group (ModifierKey.group_eq_of_bit_eq hkey hbit)
    · obtain ⟨code, hcode, hdown⟩ := hshows.genericBit group hgroup hbit
      exact ⟨code, hcode, List.mem_append_left _ hdown⟩
  lockBit group hlock := by
    rw [testBit_update_lock hkey hhold hlock, hshows.lockBit group hlock]

theorem letGo (hshows : state.Shows keys locks) (hkey : key ∈ ModifierKey.all)
    (hhold : key.group.isLock = false) (hnodup : keys.Nodup) :
    (state.update key.code false).Shows (keys.erase key.code) locks where
  keyBit other hother hotherHold := by
    have hbit : other.bit = key.bit ↔ other.code = key.code :=
      ⟨fun heq => ModifierKey.eq_of_bit other hother key hkey heq ▸ rfl,
        fun heq => ModifierKey.eq_of_code other hother key hkey heq ▸ rfl⟩
    rw [testBit_update_up hkey hhold, Bool.eq_iff_iff]
    split
    · next hgeneric =>
        -- the key has no partner, so its generic bit goes with it
        have heq := ModifierKey.eq_of_bit_eq_genericBit hother hkey hgeneric
        subst other
        simp [ModifierKey.modifierKeys_of_bit_eq key hkey _ hgeneric, hnodup.mem_erase_iff]
    · simp [hshows.keyBit other hother hotherHold, hnodup.mem_erase_iff, hbit]
  genericBit group hgroup hbit := by
    rw [testBit_update_up hkey hhold] at hbit
    split at hbit
    · next hgeneric =>
        have heq := ModifierGroup.genericBit_injective hgeneric
        subst group
        obtain ⟨other, hother, hdown⟩ := List.any_eq_true.mp hbit
        simp only [Bool.and_eq_true, decide_eq_true_eq] at hdown
        have hall := ModifierKey.mem_all_of_mem hother
        rw [hshows.keyBit other hall (ModifierKey.group_eq hother ▸ hhold)] at hdown
        have hcode : other.code ≠ key.code := fun heq =>
          hdown.1 (ModifierKey.eq_of_code other hall key hkey heq)
        exact ⟨other.code, ModifierGroup.mem_keys.mpr ⟨other, hother, rfl⟩,
          hnodup.mem_erase_iff.mpr ⟨hcode, by simpa using hdown.2⟩⟩
    · next hgeneric =>
        simp only [Bool.and_eq_true] at hbit
        obtain ⟨code, hcode, hdown⟩ := hshows.genericBit group hgroup hbit.2
        refine ⟨code, hcode, hnodup.mem_erase_iff.mpr ⟨?_, hdown⟩⟩
        rintro rfl
        obtain ⟨other, hother, heq⟩ := ModifierGroup.mem_keys.mp hcode
        have hsame := ModifierKey.eq_of_code other (ModifierKey.mem_all_of_mem hother) key
          hkey heq
        exact hgeneric (by rw [← hsame, ModifierKey.group_eq hother])
  lockBit group hlock := by
    rw [testBit_update_lock hkey hhold hlock, hshows.lockBit group hlock]

theorem hold {more : List KeyCode} (hshows : state.Shows keys locks)
    (hmore : more ⊆ ModifierGroup.ephemeralKeys) :
    (MetaState.held more state).Shows (keys ++ more) locks := by
  induction more generalizing state keys with
  | nil => simpa [MetaState.held] using hshows
  | cons code rest ih =>
      obtain ⟨key, hkey, hhold, rfl⟩ := ModifierGroup.exists_key_of_mem_ephemeralKeys
        (hmore (List.mem_cons_self ..))
      have hrest := ih (hshows.press hkey hhold) fun code hcode =>
        hmore (List.mem_cons_of_mem _ hcode)
      rwa [List.append_assoc, List.singleton_append] at hrest

theorem held (hkeys : keys ⊆ ModifierGroup.ephemeralKeys) (state : MetaState) :
    (MetaState.held keys state.lockBits).Shows keys state.lockBits :=
  (lockBits state).hold hkeys

end Shows

end MetaState

end KeyLayout
