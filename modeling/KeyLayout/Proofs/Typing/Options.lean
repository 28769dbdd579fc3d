import KeyLayout.Proofs.Modifier.Compatible
import KeyLayout.Typing.Plan
import Mathlib.Data.List.Sublists

namespace KeyLayout

/-! The options of one group.  They depend on the sides that the mask asks for and on the
keys of the group that are down; both range over a few values, so that the laws of a
single group are settled by going through them. -/

namespace ModifierGroup

def down (group : ModifierGroup) (held : List KeyCode) : List KeyCode :=
  group.keys.filter held.contains

theorem mem_down {group : ModifierGroup} {held : List KeyCode} {code : KeyCode} :
    code ∈ group.down held ↔ code ∈ group.keys ∧ code ∈ held := by
  simp [down]

theorem down_mem_sublists (group : ModifierGroup) (held : List KeyCode) :
    group.down held ∈ group.keys.sublists :=
  List.mem_sublists.mpr List.filter_sublist

theorem down_mem_sublists_down {group : ModifierGroup} {fewer more : List KeyCode}
    (hsub : ∀ code ∈ fewer, code ∈ more) : group.down fewer ∈ (group.down more).sublists := by
  refine List.mem_sublists.mpr (List.monotone_filter_right _ fun code => ?_)
  simpa using hsub code

/-- The options for the sides that are wanted while these keys of the group are down. -/
def ways (group : ModifierGroup) (wanted : Sides) (down : List KeyCode) :
    List (List KeyCode) :=
  if wanted.isEmpty then
    [[]]
  else
    let kept := if !down.isEmpty && wanted.admits (group.grip down) then [down] else []
    let pressed :=
      if group.isPaired && wanted.isSided then [group.sideKeys wanted]
      else group.keys.map ([·])
    (kept ++ pressed).eraseDups

theorem options_eq_ways {group : ModifierGroup} (hhold : group.isLock = false)
    (mask : MetaState) (held : List KeyCode) :
    group.options mask held = group.ways (group.sides mask) (group.down held) := by
  have hdown : group.down held ⊆ ephemeralKeys := fun code hcode =>
    mem_ephemeralKeys.mpr ⟨group, mem_ephemeral.mpr hhold, (mem_down.mp hcode).1⟩
  have hcompatible := (MetaState.Shows.zero.hold hdown).compatible_group hhold mask
  rw [List.nil_append] at hcompatible
  simp only [options, ways, ← down.eq_1, hcompatible]

/-- Masks between whose sides no state tells a difference have the same options. -/
theorem ways_congr {first second : Sides} (group : ModifierGroup)
    (halike : first.Alike second) (down : List KeyCode) :
    group.ways first down = group.ways second down := by
  have hadmits : ∀ held, first.admits held = second.admits held := by
    simp [Sides.admits, halike.isEmpty, halike.left, halike.right]
  have hsided : first.isSided = second.isSided := by
    rw [Sides.isSided, Sides.isSided, halike.left, halike.right]
  have hkeys : group.sideKeys first = group.sideKeys second := by
    rw [sideKeys, sideKeys, halike.left, halike.right]
  rw [ways, ways, halike.isEmpty, hadmits, hsided, hkeys]

theorem sublist_of_mem_ways (group : ModifierGroup) : ∀ wanted : Sides,
    ∀ down ∈ group.keys.sublists, ∀ way ∈ group.ways wanted down,
      way ∈ group.keys.sublists := by
  cases group <;> decide

theorem admits_of_mem_ways (group : ModifierGroup) : ∀ wanted : Sides,
    ∀ down ∈ group.keys.sublists, ∀ way ∈ group.ways wanted down,
      wanted.admits (group.grip way) = true := by
  cases group <;> decide

/-- Whichever keys hold the group as it is wanted, some option holds no other key. -/
theorem exists_way_subset (group : ModifierGroup) : ∀ wanted : Sides,
    ∀ grip ∈ group.keys.sublists, wanted.admits (group.grip grip) = true →
      ∀ down ∈ group.keys.sublists, ∃ way ∈ group.ways wanted down,
        way ⊆ grip ∧ way.isEmpty = grip.isEmpty := by
  cases group <;> decide

/-- Keys that are down come first where they do. -/
theorem head?_ways_of_admits (group : ModifierGroup) : ∀ wanted : Sides,
    ∀ down ∈ group.keys.sublists, wanted.admits (group.grip down) = true →
      (group.ways wanted down).head? = some down := by
  cases group <;> decide

/-- Where the sides are wanted that are held already, the keys that are down stay. -/
theorem eq_of_mem_ways_grip (group : ModifierGroup) :
    ∀ down ∈ group.keys.sublists, ∀ way ∈ group.ways (group.grip down) down,
      way = down := by
  cases group <;> decide

theorem ways_subset_of_sublist (group : ModifierGroup) : ∀ wanted : Sides,
    ∀ more ∈ group.keys.sublists, ∀ fewer ∈ more.sublists,
      group.ways wanted fewer ⊆ group.ways wanted more := by
  cases group <;> decide

/-- An option stays one when keys outside of it are let go. -/
theorem mem_ways_of_letGo (group : ModifierGroup) : ∀ wanted : Sides,
    ∀ more ∈ group.keys.sublists, ∀ way ∈ group.ways wanted more,
      ∀ fewer ∈ more.sublists, (∀ code ∈ more, code ∈ way → code ∈ fewer) →
        way ∈ group.ways wanted fewer := by
  cases group <;> decide

/-- When keys outside of an option are let go, no other option gets ahead of it. -/
theorem ahead_subset_of_letGo (group : ModifierGroup) : ∀ wanted : Sides,
    ∀ more ∈ group.keys.sublists, ∀ way ∈ group.ways wanted more,
      ∀ fewer ∈ more.sublists, (∀ code ∈ more, code ∈ way → code ∈ fewer) →
        (group.ways wanted fewer).takeWhile (· ≠ way) ⊆
          (group.ways wanted more).takeWhile (· ≠ way) := by
  cases group <;> decide

end ModifierGroup

end KeyLayout
