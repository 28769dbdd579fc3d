import KeyLayout.Proofs.Modifier.Held

namespace KeyLayout

/-! Which masks agree with a state depends on no more than the keys that are held and on
the locks, and with fewer keys of the same groups no other mask agrees. -/

instance (p : Sides → Prop) [DecidablePred p] : Decidable (∀ sides, p sides) :=
  decidable_of_iff (∀ generic left right : Bool, p ⟨generic, left, right⟩)
    ⟨fun hall sides => hall sides.generic sides.left sides.right, fun hall _ _ _ => hall _⟩

namespace Sides

/-- The sides that a mask names agree with the sides that are held. -/
def admits (wanted held : Sides) : Bool :=
  if wanted.isEmpty then
    held.isEmpty
  else
    !held.isEmpty &&
      (!held.isSided || ((!wanted.left || held.left) && (!wanted.right || held.right)))

/-- Held sides between which no mask tells a difference. -/
structure Alike (first second : Sides) : Prop where
  isEmpty : first.isEmpty = second.isEmpty
  left : first.left = second.left
  right : first.right = second.right

theorem Alike.admits_eq {first second : Sides} (halike : first.Alike second)
    (wanted : Sides) : wanted.admits first = wanted.admits second := by
  simp [admits, isSided, halike.isEmpty, halike.left, halike.right]

/-- Sides of the same group of which fewer are held, but not none. -/
structure Within (fewer more : Sides) : Prop where
  isEmpty : fewer.isEmpty = more.isEmpty
  isSided : fewer.isSided = more.isSided
  left : fewer.left = true → more.left = true
  right : fewer.right = true → more.right = true

theorem Within.admits_of_admits {fewer more wanted : Sides} (hwithin : fewer.Within more)
    (hadmits : wanted.admits fewer = true) : wanted.admits more = true := by
  simp only [admits, hwithin.isEmpty, hwithin.isSided] at hadmits ⊢
  cases hwanted : wanted.isEmpty with
  | true => simpa [hwanted] using hadmits
  | false =>
      simp only [hwanted, Bool.false_eq_true, if_false, Bool.and_eq_true, Bool.or_eq_true,
        Bool.not_eq_true'] at hadmits ⊢
      exact ⟨hadmits.1, hadmits.2.imp_right fun hsides =>
        ⟨hsides.1.imp_right hwithin.left, hsides.2.imp_right hwithin.right⟩⟩

end Sides

namespace ModifierGroup

/-- What a state shows of the group while these keys are held. -/
def grip (group : ModifierGroup) (held : List KeyCode) : Sides where
  generic := group.keys.any held.contains
  left := group.isPaired && (group.keys.take 1).any held.contains
  right := group.isPaired && (group.keys.drop 1).any held.contains

variable {group : ModifierGroup} {fewer more : List KeyCode}

theorem isEmpty_grip (group : ModifierGroup) (held : List KeyCode) :
    (group.grip held).isEmpty = !group.keys.any held.contains := by
  cases group <;>
    simp [grip, Sides.isEmpty, keys, modifierKeys, isPaired, sideBits?] <;> grind

theorem isSided_grip (group : ModifierGroup) (held : List KeyCode) :
    (group.grip held).isSided = (group.isPaired && group.keys.any held.contains) := by
  cases group <;>
    simp [grip, Sides.isSided, keys, modifierKeys, isPaired, sideBits?]

theorem grip_congr (hmem : ∀ code ∈ group.keys, code ∈ fewer ↔ code ∈ more) :
    group.grip fewer = group.grip more := by
  have hany : ∀ codes : List KeyCode, codes ⊆ group.keys →
      codes.any fewer.contains = codes.any more.contains := by
    intro codes hcodes
    rw [Bool.eq_iff_iff]
    simp only [List.any_eq_true, List.contains_iff_mem]
    exact exists_congr fun code => and_congr_right fun hcode => hmem code (hcodes hcode)
  simp only [grip, hany _ (List.Subset.refl _), hany _ (List.take_subset 1 _),
    hany _ (List.drop_subset 1 _)]

/-- Releasing some but not all of the held keys of a group. -/
theorem grip_within (hmem : ∀ code ∈ group.keys, code ∈ fewer → code ∈ more)
    (hany : group.keys.any fewer.contains = group.keys.any more.contains) :
    (group.grip fewer).Within (group.grip more) where
  isEmpty := by rw [isEmpty_grip, isEmpty_grip, hany]
  isSided := by rw [isSided_grip, isSided_grip, hany]
  left := by
    simp only [grip, Bool.and_eq_true, List.any_eq_true, List.contains_iff_mem]
    exact fun ⟨hpaired, code, hcode, hdown⟩ =>
      ⟨hpaired, code, hcode, hmem code (List.take_subset 1 _ hcode) hdown⟩
  right := by
    simp only [grip, Bool.and_eq_true, List.any_eq_true, List.contains_iff_mem]
    exact fun ⟨hpaired, code, hcode, hdown⟩ =>
      ⟨hpaired, code, hcode, hmem code (List.drop_subset 1 _ hcode) hdown⟩

theorem compatible_eq_admits (group : ModifierGroup) (mask state : MetaState) :
    group.compatible mask state = (group.sides mask).admits (group.sides state) :=
  rfl

end ModifierGroup

namespace MetaState

variable {state locks : MetaState} {held : List KeyCode} {group : ModifierGroup}

namespace Shows

theorem sides_alike (hshows : state.Shows held locks) (hhold : group.isLock = false) :
    (group.sides state).Alike (group.grip held) := by
  have hbit : ∀ key ∈ group.modifierKeys,
      state.testBit key.bit = held.contains key.code := fun key hkey =>
    hshows.keyBit key (ModifierKey.mem_all_of_mem hkey) (ModifierKey.group_eq hkey ▸ hhold)
  refine ⟨?_, ?_, ?_⟩
  · rw [ModifierGroup.isEmpty_sides, ModifierGroup.isEmpty_grip, Bool.eq_iff_iff]
    simp only [Bool.and_eq_true, Bool.not_eq_true', List.any_eq_false,
      ModifierGroup.keys, List.forall_mem_map]
    constructor
    · intro hempty key hkey
      rw [← hbit key hkey]
      exact hempty.2 key hkey
    · intro hempty
      refine ⟨Bool.eq_false_iff.mpr fun hgeneric => ?_, fun key hkey => ?_⟩
      · obtain ⟨code, hcode, hdown⟩ := hshows.genericBit group hhold hgeneric
        obtain ⟨key, hkey, rfl⟩ := ModifierGroup.mem_keys.mp hcode
        exact hempty key hkey (by simpa using hdown)
      · rw [hbit key hkey]
        exact hempty key hkey
  all_goals
    cases group <;>
      simp_all [ModifierGroup.modifierKeys, ModifierGroup.sides, ModifierGroup.grip,
        ModifierGroup.sideBits?, ModifierGroup.isPaired, ModifierGroup.keys]

theorem sides_lock (hshows : state.Shows held locks) (hlock : group.isLock = true) :
    group.sides state = group.sides locks := by
  have hbit := hshows.lockBit group hlock
  cases group <;>
    simp_all [ModifierGroup.sides, ModifierGroup.sideBits?, ModifierGroup.modifierKeys,
      ModifierGroup.isLock]

theorem compatible_group (hshows : state.Shows held locks) (hhold : group.isLock = false)
    (mask : MetaState) :
    group.compatible mask state = (group.sides mask).admits (group.grip held) :=
  (hshows.sides_alike hhold).admits_eq _

theorem compatible_lock (hshows : state.Shows held locks) (hlock : group.isLock = true)
    (mask : MetaState) : group.compatible mask state = group.compatible mask locks := by
  rw [ModifierGroup.compatible_eq_admits, hshows.sides_lock hlock,
    ModifierGroup.compatible_eq_admits]

theorem compatible_iff (hshows : state.Shows held locks) (mask : MetaState) :
    mask.compatible state = true ↔
      (∀ group ∈ ModifierGroup.ephemeral,
        (group.sides mask).admits (group.grip held) = true) ∧
        mask.locksCompatible locks = true := by
  simp only [compatible, locksCompatible, List.all_eq_true, ModifierGroup.mem_ephemeral,
    ModifierGroup.mem_locks]
  constructor
  · intro hall
    exact ⟨fun group hhold => hshows.compatible_group hhold mask ▸ hall group group.mem_all,
      fun group hlock => hshows.compatible_lock hlock mask ▸ hall group group.mem_all⟩
  · rintro ⟨hephemeral, hlocks⟩ group -
    cases hlock : group.isLock with
    | false => exact (hshows.compatible_group hlock mask).trans (hephemeral group hlock)
    | true => exact (hshows.compatible_lock hlock mask).trans (hlocks group hlock)

end Shows

end MetaState

end KeyLayout
