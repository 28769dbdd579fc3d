import KeyLayout.Proofs.Typing.Run

namespace KeyLayout

/-! The keys that are down are kept for a behavior that answers while they are: they are the
first target of all.  Every target has its keys in their order, and just those groups that the
mask mentions are held as it asks. -/

/-- The first key has its place before the second one. -/
def ModifierKey.Before (first second : KeyCode) : Prop :=
  ∃ place later, rank? first = some place ∧ rank? second = some later ∧ place < later

namespace ModifierGroup

variable {held : List KeyCode}

theorem pairwise_before_ephemeralKeys : ephemeralKeys.Pairwise ModifierKey.Before := by
  have hplaces : ephemeralKeys.Pairwise fun first second =>
      (ModifierKey.rank? first).any (fun place =>
        (ModifierKey.rank? second).any fun later => decide (place < later)) = true := by
    decide
  refine hplaces.imp fun {first second} hbefore => ?_
  obtain ⟨place, hplace, hlater⟩ := (Option.any_eq_true ..).mp hbefore
  obtain ⟨later, hsecond, hlt⟩ := (Option.any_eq_true ..).mp hlater
  exact ⟨place, later, hplace, hsecond, of_decide_eq_true hlt⟩

/-- The keys that are down, group by group, are all of them. -/
theorem perm_flatMap_down (hheld : held ⊆ ephemeralKeys) (hnodup : held.Nodup) :
    (ephemeral.flatMap fun group => group.down held).Perm held := by
  rw [flatMap_down_eq_filter, List.perm_ext_iff_of_nodup (nodup_ephemeralKeys.filter _) hnodup]
  intro code
  rw [List.mem_filter, List.contains_iff_mem]
  exact and_iff_right_of_imp fun hcode => hheld hcode

end ModifierGroup

namespace KeyMap

open ModifierGroup (ephemeral ephemeralKeys)

variable {map : KeyMap} {code : KeyCode} {mask state : MetaState} {character : CodePoint}
  {held target : List KeyCode} {group : ModifierGroup}

theorem head?_targets (hheld : held ⊆ ephemeralKeys)
    (hmask : mask.compatible (MetaState.held held state.lockBits) = true) :
    (targets mask held).head? = some (ephemeral.flatMap fun group => group.down held) := by
  obtain ⟨hadmits, -⟩ := ((MetaState.Shows.held hheld state).compatible_iff mask).mp hmask
  refine head?_choices fun group hgroup => ?_
  rw [ModifierGroup.options_eq_ways (ModifierGroup.mem_ephemeral.mp hgroup)]
  apply ModifierGroup.head?_ways_of_admits group _ _ (ModifierGroup.down_mem_sublists ..)
  rw [ModifierGroup.grip_down]
  exact hadmits group hgroup

/-- Keys that are down and do are the target that is found. -/
theorem planModifiers_eq_flatMap_down (hheld : held ⊆ ephemeralKeys) (hnodup : held.Nodup)
    (hmask : mask.compatible (MetaState.held held state.lockBits) = true)
    (hcharacter :
      map.character? code (MetaState.held held state.lockBits) = some character) :
    map.planModifiers code mask character held state.lockBits =
      some (ephemeral.flatMap fun group => group.down held) := by
  have hperm := ModifierGroup.perm_flatMap_down hheld hnodup
  have hshows := MetaState.Shows.held (fun code hcode => hheld (hperm.subset hcode)) state
  have hsame := (hshows.congr fun code _ => hperm.mem_iff).behavior?_eq
    (MetaState.Shows.held hheld state) map code
  have hdoes : map.character? code (MetaState.held
      (ephemeral.flatMap fun group => group.down held) state.lockBits) = some character := by
    rw [character?, hsame]
    exact hcharacter
  obtain ⟨others, htargets⟩ := List.head?_eq_some_iff.mp (head?_targets hheld hmask)
  rw [planModifiers_eq_find?, htargets]
  exact List.find?_cons_of_pos (by simpa using hdoes)

/-- A group that the mask does not mention has no key in a target. -/
theorem down_eq_nil_of_mem_targets (htarget : target ∈ targets mask held)
    (hhold : group.isLock = false) (hmask : (group.sides mask).isEmpty = true) :
    group.down target = [] := by
  have hoption := (eq_flatMap_down_of_mem_targets htarget).1 group
    (ModifierGroup.mem_ephemeral.mpr hhold)
  simpa [ModifierGroup.options, hmask] using hoption

/-- A target holds every group as the mask asks. -/
theorem compatible_of_mem_targets (htarget : target ∈ targets mask held)
    (hhold : group.isLock = false) (state : MetaState) :
    group.compatible mask (MetaState.held target state.lockBits) = true := by
  have hoption := (eq_flatMap_down_of_mem_targets htarget).1 group
    (ModifierGroup.mem_ephemeral.mpr hhold)
  rw [ModifierGroup.options_eq_ways hhold] at hoption
  have hshows := MetaState.Shows.held (sublist_ephemeralKeys_of_mem_targets htarget).subset state
  rw [hshows.compatible_group hhold, ← ModifierGroup.grip_down]
  exact ModifierGroup.admits_of_mem_ways group _ _ (ModifierGroup.down_mem_sublists ..) _ hoption

/-- Keys that are down stay when they do the job, and whichever keys are chosen are in
order, belong to groups that the mask mentions and hold every group as it asks. -/
theorem planModifiers_keeps (map : KeyMap) (code : KeyCode) (mask state : MetaState)
    (character : CodePoint) (held : List KeyCode) :
    (held ⊆ ephemeralKeys → held.Nodup →
      mask.compatible (MetaState.held held state.lockBits) = true →
      map.character? code (MetaState.held held state.lockBits) = some character →
      ∃ target, map.planModifiers code mask character held state.lockBits = some target ∧
        target.Perm held ∧ target.Pairwise ModifierKey.Before) ∧
    ∀ target, map.planModifiers code mask character held state.lockBits = some target →
      target.Pairwise ModifierKey.Before ∧
        (∀ key ∈ target, ∃ group : ModifierGroup, group.isLock = false ∧
          key ∈ group.keys ∧ (group.sides mask).isEmpty = false) ∧
        ∀ group : ModifierGroup, group.isLock = false →
          group.compatible mask (MetaState.held target state.lockBits) = true := by
  refine ⟨fun hheld hnodup hmask hcharacter => ?_, fun target hplan => ?_⟩
  · refine ⟨_, planModifiers_eq_flatMap_down hheld hnodup hmask hcharacter,
      ModifierGroup.perm_flatMap_down hheld hnodup, ?_⟩
    rw [ModifierGroup.flatMap_down_eq_filter]
    exact ModifierGroup.pairwise_before_ephemeralKeys.filter _
  · rw [planModifiers_eq_find?] at hplan
    have htarget := List.mem_of_find?_eq_some hplan
    have hsublist := sublist_ephemeralKeys_of_mem_targets htarget
    refine ⟨ModifierGroup.pairwise_before_ephemeralKeys.sublist hsublist,
      fun key hkey => ?_, fun group hhold => compatible_of_mem_targets htarget hhold state⟩
    obtain ⟨group, hgroup, hown⟩ := ModifierGroup.mem_ephemeralKeys.mp (hsublist.subset hkey)
    have hhold := ModifierGroup.mem_ephemeral.mp hgroup
    refine ⟨group, hhold, hown, Bool.eq_false_iff.mpr fun hmask => ?_⟩
    have hdown := ModifierGroup.mem_down.mpr ⟨hown, hkey⟩
    rw [down_eq_nil_of_mem_targets htarget hhold hmask] at hdown
    contradiction

theorem planModifiers_keeps_shifts :
    ∃ target, oneKey.planModifiers 29 1 'A' [60, 59] (MetaState.lockBits 0) = some target ∧
      target.Perm [60, 59] ∧ target.Pairwise ModifierKey.Before ∧
        ∀ group : ModifierGroup, group.isLock = false →
          group.compatible 1 (MetaState.held target (MetaState.lockBits 0)) = true := by
  obtain ⟨hkept, hany⟩ := planModifiers_keeps oneKey 29 1 0 'A' [60, 59]
  obtain ⟨target, hplan, hperm, hbefore⟩ :=
    hkept (by decide) (by decide) (by decide) (by decide)
  exact ⟨target, hplan, hperm, hbefore, (hany target hplan).2.2⟩

end KeyMap

end KeyLayout
