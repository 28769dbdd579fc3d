import KeyLayout.Proofs.KeyMap.Lookup
import KeyLayout.Proofs.Table
import KeyLayout.Proofs.Typing.Choices
import KeyLayout.Proofs.Typing.Options
import KeyLayout.Typing.Synthesizer
import Mathlib.Data.List.Flatten

namespace KeyLayout

/-! A plan is found for a character exactly when some key types it under some modifier
keys.  Where it is typed with more keys down than the mask of its behavior asks for, it
is typed with fewer as well: no behavior answers that did not answer before. -/

/-- Some key types the character on top of these locks while some modifier keys are held. -/
def KeyMap.Typable (map : KeyMap) (locks : MetaState) (character : CodePoint) : Prop :=
  ∃ code held, held ⊆ ModifierGroup.ephemeralKeys ∧
    map.character? code (MetaState.held held locks) = some character

namespace ModifierGroup

theorem nodup_ephemeral : ephemeral.Nodup := by
  decide

theorem down_self (group : ModifierGroup) : ∀ way ∈ group.keys.sublists,
    group.down way = way := by
  cases group <;> decide

theorem isEmpty_down (group : ModifierGroup) (held : List KeyCode) :
    (group.down held).isEmpty = !group.keys.any held.contains := by
  rw [Bool.eq_iff_iff]
  simp [down]

theorem grip_down (group : ModifierGroup) (held : List KeyCode) :
    group.grip (group.down held) = group.grip held :=
  grip_congr fun code hcode => by simp [mem_down, hcode]

theorem flatMap_down_eq_filter (held : List KeyCode) :
    (ephemeral.flatMap fun group => group.down held) = ephemeralKeys.filter held.contains := by
  rw [ephemeralKeys, List.filter_flatMap]
  rfl

variable {pick : ModifierGroup → List KeyCode}

theorem mem_flatMap_pick (hpick : ∀ group ∈ ephemeral, pick group ∈ group.keys.sublists)
    {group : ModifierGroup} (hgroup : group ∈ ephemeral) {code : KeyCode}
    (hcode : code ∈ group.keys) : code ∈ ephemeral.flatMap pick ↔ code ∈ pick group := by
  constructor
  · intro hmem
    obtain ⟨other, hother, hdown⟩ := List.mem_flatMap.mp hmem
    have hkeys := (List.mem_sublists.mp (hpick other hother)).subset hdown
    exact eq_of_mem_keys hkeys hcode ▸ hdown
  · exact fun hmem => List.mem_flatMap.mpr ⟨group, hgroup, hmem⟩

theorem down_flatMap (hpick : ∀ group ∈ ephemeral, pick group ∈ group.keys.sublists)
    {group : ModifierGroup} (hgroup : group ∈ ephemeral) :
    group.down (ephemeral.flatMap pick) = pick group := by
  rw [← down_self group _ (hpick group hgroup)]
  refine List.filter_congr fun code hcode => ?_
  rw [Bool.eq_iff_iff]
  simpa using mem_flatMap_pick hpick hgroup hcode

theorem mem_sublists_of_mem_options {group : ModifierGroup} (hgroup : group ∈ ephemeral)
    {mask : MetaState} {held way : List KeyCode} (hway : way ∈ group.options mask held) :
    way ∈ group.keys.sublists := by
  rw [options_eq_ways (mem_ephemeral.mp hgroup)] at hway
  exact sublist_of_mem_ways group _ _ (down_mem_sublists ..) way hway

end ModifierGroup

/-- No behavior tells two states apart that show the same keys and locks. -/
theorem MetaState.Shows.behavior?_eq {first second locks : MetaState} {keys : List KeyCode}
    (hfirst : first.Shows keys locks) (hsecond : second.Shows keys locks) (map : KeyMap)
    (code : KeyCode) : map.behavior? code first = map.behavior? code second := by
  have hagree : ∀ mask : MetaState, mask.compatible first = mask.compatible second := by
    intro mask
    rw [Bool.eq_iff_iff, hfirst.compatible_iff, hsecond.compatible_iff]
  simp only [KeyMap.behavior?, Behavior.find?, hagree]

namespace KeyMap

open ModifierGroup (ephemeral ephemeralKeys)

/-- The targets from which the first is taken that types the character. -/
def targets (mask : MetaState) (held : List KeyCode) : List (List KeyCode) :=
  choices (ephemeral.map fun group => group.options mask held)

theorem eq_flatMap_down_of_mem_targets {mask : MetaState} {held target : List KeyCode}
    (htarget : target ∈ targets mask held) :
    (∀ group ∈ ephemeral, group.down target ∈ group.options mask held) ∧
      target = ephemeral.flatMap fun group => group.down target := by
  obtain ⟨pick, hpick, rfl⟩ :=
    exists_pick_of_mem_choices ModifierGroup.nodup_ephemeral htarget
  have hdown : ∀ group ∈ ephemeral, group.down (ephemeral.flatMap pick) = pick group :=
    fun group hgroup => ModifierGroup.down_flatMap
      (fun other hother => ModifierGroup.mem_sublists_of_mem_options hother
        (hpick other hother)) hgroup
  exact ⟨fun group hgroup => hdown group hgroup ▸ hpick group hgroup,
    (List.flatMap_congr hdown).symm⟩

theorem sublist_ephemeralKeys_of_mem_targets {mask : MetaState}
    {held target : List KeyCode} (htarget : target ∈ targets mask held) :
    target.Sublist ephemeralKeys := by
  rw [(eq_flatMap_down_of_mem_targets htarget).2, ModifierGroup.flatMap_down_eq_filter]
  exact List.filter_sublist

/-- Of the targets for a mask one holds none but keys that are held anyway where the mask
agrees with the state. -/
theorem exists_target_within {mask state : MetaState} {keys : List KeyCode}
    (hkeys : keys ⊆ ephemeralKeys)
    (hmask : mask.compatible (MetaState.held keys state.lockBits) = true)
    (held : List KeyCode) :
    ∃ target ∈ targets mask held,
      mask.compatible (MetaState.held target state.lockBits) = true ∧
        ∀ other : MetaState,
          other.compatible (MetaState.held target state.lockBits) = true →
            other.compatible (MetaState.held keys state.lockBits) = true := by
  have hshows := MetaState.Shows.held hkeys state
  obtain ⟨hadmits, hlocks⟩ := (hshows.compatible_iff mask).mp hmask
  have hway : ∀ group ∈ ephemeral, ∃ way ∈ group.options mask held,
      way ⊆ group.down keys ∧ way.isEmpty = (group.down keys).isEmpty := by
    intro group hgroup
    rw [ModifierGroup.options_eq_ways (ModifierGroup.mem_ephemeral.mp hgroup)]
    refine ModifierGroup.exists_way_subset group _ _ (ModifierGroup.down_mem_sublists ..) ?_
      _ (ModifierGroup.down_mem_sublists ..)
    rw [ModifierGroup.grip_down]
    exact hadmits group hgroup
  choose! pick hoption hsub hempty using hway
  have hpick : ∀ group ∈ ephemeral, pick group ∈ group.keys.sublists := fun group hgroup =>
    ModifierGroup.mem_sublists_of_mem_options hgroup (hoption group hgroup)
  have htarget : ephemeral.flatMap pick ∈ targets mask held := flatMap_mem_choices hoption
  have htargetShows := MetaState.Shows.held
    (sublist_ephemeralKeys_of_mem_targets htarget).subset state
  have hgrip : ∀ group ∈ ephemeral, (group.grip (ephemeral.flatMap pick)).Within
      (group.grip keys) := by
    intro group hgroup
    refine ModifierGroup.grip_within (fun code hcode hmem => ?_) ?_
    · have hown := (ModifierGroup.mem_flatMap_pick hpick hgroup hcode).mp hmem
      exact (ModifierGroup.mem_down.mp (hsub group hgroup hown)).2
    · have hsame := hempty group hgroup
      rw [← ModifierGroup.down_flatMap hpick hgroup, ModifierGroup.isEmpty_down,
        ModifierGroup.isEmpty_down] at hsame
      exact Bool.not_inj hsame
  refine ⟨_, htarget, (htargetShows.compatible_iff mask).mpr ⟨?_, hlocks⟩, ?_⟩
  · intro group hgroup
    have hown := hoption group hgroup
    rw [ModifierGroup.options_eq_ways (ModifierGroup.mem_ephemeral.mp hgroup)] at hown
    rw [← ModifierGroup.grip_down, ModifierGroup.down_flatMap hpick hgroup]
    exact ModifierGroup.admits_of_mem_ways group _ _ (ModifierGroup.down_mem_sublists ..) _
      hown
  · intro other hother
    obtain ⟨hotherAdmits, hotherLocks⟩ := (htargetShows.compatible_iff other).mp hother
    exact (hshows.compatible_iff other).mpr
      ⟨fun group hgroup => (hgrip group hgroup).admits_of_admits (hotherAdmits group hgroup),
        hotherLocks⟩

variable {map : KeyMap} {code : KeyCode} {character : CodePoint}

/-- Where no modifier key does anything but modify, a key that types is none. -/
theorem isModifier_eq_false_of_character? {state : MetaState}
    (hkeys : ∀ key ∈ ModifierKey.all, map.keys.get? key.code = none)
    (hcharacter : map.character? code state = some character) : code.isModifier = false := by
  obtain ⟨key, -, hkey, -⟩ := character?_eq_some_iff.mp hcharacter
  refine Bool.eq_false_iff.mpr fun hmodifier => ?_
  obtain ⟨own, hall, rfl⟩ := KeyCode.isModifier_iff.mp hmodifier
  rw [hkeys own hall] at hkey
  contradiction

/-- The first behavior that answers one state answers another first that agrees with its
mask and with no further masks. -/
theorem find?_of_within {behaviors : List Behavior} {more fewer : MetaState}
    {behavior : Behavior} (hfind : Behavior.find? behaviors more = some behavior)
    (hmask : behavior.mask.compatible fewer = true)
    (hwithin : ∀ other : MetaState, other.compatible fewer = true →
      other.compatible more = true) :
    Behavior.find? behaviors fewer = some behavior := by
  rw [Behavior.find?, List.find?_eq_some_iff_append] at hfind ⊢
  obtain ⟨-, ahead, behind, heq, hahead⟩ := hfind
  refine ⟨hmask, ahead, behind, heq, fun other hother => ?_⟩
  simp only [Bool.not_eq_true'] at hahead ⊢
  exact Bool.eq_false_iff.mpr fun hother' =>
    absurd (hwithin _ hother') (by simp [hahead other hother])

theorem reverseMatches_without_labels (characters : List CodePoint) (preferred : MetaState)
    (locks : Option MetaState) :
    map.reverseMatches characters preferred locks false =
      (map.producers characters locks).mergeSort (Candidate.precedes preferred) := by
  rw [reverseMatches]
  split
  · next hnone => simp [hnone]
  · rfl

theorem mem_producers {candidate : Candidate} {locks : MetaState} :
    candidate ∈ map.producers [character] (some locks) ↔
      ∃ key behavior, map.keys.get? candidate.code = some key ∧
        behavior ∈ key.behaviors ∧ behavior.mask = candidate.mask ∧
          behavior.character = some character ∧
            behavior.mask.locksCompatible locks = true := by
  obtain ⟨code, mask⟩ := candidate
  simp only [producers, ascendingKeys, Table.ascending, List.mem_flatMap,
    List.mem_mergeSort, List.mem_map, List.mem_filter, Bool.and_eq_true, Option.any_eq_true,
    Option.all_some, Candidate.mk.injEq, List.contains_iff_mem, List.mem_singleton, Prod.exists,
    Table.get?_eq_some_iff]
  constructor
  · rintro ⟨own, key, hkey, behavior, ⟨hmem, ⟨_, hcharacter, rfl⟩, hlocks⟩, rfl, rfl⟩
    exact ⟨key, behavior, hkey, hmem, rfl, hcharacter, hlocks⟩
  · rintro ⟨key, behavior, hkey, hmem, rfl, hcharacter, hlocks⟩
    exact ⟨code, key, hkey, behavior, ⟨hmem, ⟨_, hcharacter, rfl⟩, hlocks⟩, rfl, rfl⟩

theorem planModifiers_eq_find? (mask : MetaState) (held : List KeyCode) (locks : MetaState) :
    map.planModifiers code mask character held locks =
      (targets mask held).find? fun target =>
        map.character? code (MetaState.held target locks) = some character :=
  rfl

/-- The mask of the behavior that types a character leads to a target, whatever is held. -/
theorem exists_planModifiers {state : MetaState} {keys : List KeyCode}
    (hkeys : keys ⊆ ephemeralKeys)
    (hcharacter :
      map.character? code (MetaState.held keys state.lockBits) = some character)
    (held : List KeyCode) :
    ∃ candidate ∈ map.producers [character] (some state.lockBits), ∃ target,
      map.planModifiers candidate.code candidate.mask character held state.lockBits =
        some target := by
  obtain ⟨key, behavior, hkey, hfind, hown⟩ := character?_eq_some_iff.mp hcharacter
  have hmask := compatible_of_find? hfind
  have hlocks := (((MetaState.Shows.held hkeys state).compatible_iff _).mp hmask).2
  obtain ⟨target, htarget, hagrees, hwithin⟩ := exists_target_within hkeys hmask held
  refine ⟨⟨code, behavior.mask⟩, mem_producers.mpr
    ⟨key, behavior, hkey, List.mem_of_find?_eq_some hfind, rfl, hown, hlocks⟩, ?_⟩
  have htypes : map.character? code (MetaState.held target state.lockBits) =
      some character := character?_eq_some_iff.mpr
    ⟨key, behavior, hkey, find?_of_within hfind hagrees hwithin, hown⟩
  rw [← Option.isSome_iff_exists, planModifiers_eq_find?, List.find?_isSome]
  exact ⟨target, htarget, by simpa using htypes⟩

end KeyMap

namespace Synthesizer

open ModifierGroup (ephemeralKeys)

variable {synthesizer : Synthesizer} {character : CodePoint} {plan : TypingPlan}

theorem mem_candidates {candidate : Candidate} :
    candidate ∈ synthesizer.candidates character ↔
      candidate ∈ synthesizer.map.producers [character] (some synthesizer.locks) := by
  rw [candidates, KeyMap.reverseMatches_without_labels, List.mem_mergeSort]

theorem exists_candidate_of_plan? (hplan : synthesizer.plan? character = some plan) :
    ∃ candidate ∈ synthesizer.candidates character, candidate.code = plan.code ∧
      synthesizer.target? character candidate = some plan.target := by
  obtain ⟨candidate, hcandidate, htarget⟩ := List.exists_of_findSome?_eq_some hplan
  obtain ⟨target, hfound, rfl⟩ := Option.map_eq_some_iff.mp htarget
  exact ⟨candidate, hcandidate, rfl, hfound⟩

theorem character?_of_plan? (hplan : synthesizer.plan? character = some plan) :
    synthesizer.map.character? plan.code (MetaState.held plan.target synthesizer.locks) =
      some character := by
  obtain ⟨candidate, -, hcode, htarget⟩ := exists_candidate_of_plan? hplan
  rw [target?, KeyMap.planModifiers_eq_find?] at htarget
  rw [← hcode]
  simpa using List.find?_some htarget

theorem target_sublist_of_plan? (hplan : synthesizer.plan? character = some plan) :
    plan.target.Sublist ephemeralKeys := by
  obtain ⟨candidate, -, -, htarget⟩ := exists_candidate_of_plan? hplan
  rw [target?, KeyMap.planModifiers_eq_find?] at htarget
  exact KeyMap.sublist_ephemeralKeys_of_mem_targets (List.mem_of_find?_eq_some htarget)

/-- Whether there is a plan does not depend on the keys that are held. -/
theorem exists_plan?_iff {state : MetaState} (hlocks : synthesizer.locks = state.lockBits)
    (character : CodePoint) :
    (∃ plan, synthesizer.plan? character = some plan) ↔
      synthesizer.map.Typable state.lockBits character := by
  constructor
  · rintro ⟨plan, hplan⟩
    have htypes := character?_of_plan? hplan
    rw [hlocks] at htypes
    exact ⟨plan.code, plan.target, (target_sublist_of_plan? hplan).subset, htypes⟩
  · rintro ⟨code, keys, hkeys, htypes⟩
    obtain ⟨candidate, hcandidate, target, htarget⟩ :=
      KeyMap.exists_planModifiers hkeys htypes synthesizer.held
    rw [← hlocks, ← mem_candidates] at hcandidate
    rw [← Option.isSome_iff_exists, plan?, List.findSome?_isSome_iff]
    refine ⟨candidate, hcandidate, ?_⟩
    rw [Option.isSome_map, target?, hlocks, htarget]
    rfl

end Synthesizer

end KeyLayout
