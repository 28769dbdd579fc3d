import KeyLayout.Proofs.KeyMap.Lookup
import KeyLayout.Proofs.KeyMap.Validity
import KeyLayout.Proofs.Modifier.Stripping

namespace KeyLayout.KeyMap

/-! A behavior that replaces its key, or gives it a fallback, takes all modifiers from the
state.  The fallback of a key without modifiers leaves the state as it is. -/

variable {map : KeyMap} {code fallback replacement : KeyCode} {state : MetaState}
  {key : Key} {behavior : Behavior}

theorem clearGroups_of_behavior? (hbehavior : map.behavior? code state = some behavior) :
    state.clearGroups behavior.mask = state.withoutModifiers := by
  obtain ⟨key, -, hfind⟩ := behavior?_eq_some_iff.mp hbehavior
  exact MetaState.clearGroups_of_compatible (compatible_of_find? hfind)

theorem applyBehavior_eq (map : KeyMap) (code : KeyCode) (state : MetaState) :
    map.applyBehavior code state =
      ((map.behavior? code state).bind (·.replacement)).elim (code, state)
        fun replacement => (replacement, state.withoutModifiers) := by
  rw [applyBehavior]
  cases hbehavior : map.behavior? code state with
  | none => rfl
  | some behavior =>
      have hclear := clearGroups_of_behavior? hbehavior
      obtain ⟨mask, character, fallback, replacement⟩ := behavior
      cases replacement with
      | none => rfl
      | some replacement => exact congrArg (replacement, ·) hclear

/-- The fallback of the key without modifiers, which comes last if there is one. -/
def plainFallback? (map : KeyMap) (code : KeyCode) : Option KeyCode :=
  (map.keys.get? code).bind fun key =>
    (key.behaviors.getLast?.filter (·.mask = 0)).bind (·.fallback)

theorem plainFallback?_eq_some_iff :
    map.plainFallback? code = some fallback ↔
      ∃ key behavior, map.keys.get? code = some key ∧
        key.behaviors.getLast? = some behavior ∧ behavior.mask = 0 ∧
          behavior.fallback = some fallback := by
  simp only [plainFallback?, Option.bind_eq_some_iff, Option.filter_eq_some_iff,
    decide_eq_true_eq]
  constructor
  · rintro ⟨key, hkey, behavior, ⟨hlast, hmask⟩, hfallback⟩
    exact ⟨key, behavior, hkey, hlast, hmask, hfallback⟩
  · rintro ⟨key, behavior, hkey, hlast, hmask, hfallback⟩
    exact ⟨key, hkey, behavior, ⟨hlast, hmask⟩, hfallback⟩

theorem fallbackAction?_eq (map : KeyMap) (code : KeyCode) (state : MetaState) :
    map.fallbackAction? code state =
      (((map.behavior? code state).bind (·.fallback)).map
          (FallbackAction.mk · state.withoutModifiers)).or
        ((map.plainFallback? code).map (FallbackAction.mk · state)) := by
  rw [fallbackAction?, plainFallback?, Option.map_bind, Option.map_bind]
  congr 1
  · cases hbehavior : map.behavior? code state with
    | none => rfl
    | some behavior =>
        rw [Option.bind_some, Option.bind_some, clearGroups_of_behavior? hbehavior]
        rfl
  · refine congrArg _ (funext fun key => ?_)
    rw [Function.comp_apply, Option.map_bind]
    rfl

/-- Where no modifier is held, the behavior without modifiers is the one that answers. -/
theorem Valid.behavior?_of_plainFallback? (hmap : map.Valid) (hstate : state.hasModifier = false)
    (hplain : map.plainFallback? code = some fallback) :
    (map.behavior? code state).bind (·.fallback) = some fallback := by
  obtain ⟨key, behavior, hkey, hlast, hmask, hfallback⟩ := plainFallback?_eq_some_iff.mp hplain
  have hvalid : key.Valid := (hmap.keys _ (Table.get?_eq_some_iff.mp hkey)).2
  have hfind : Behavior.find? key.behaviors state = Behavior.find? key.behaviors 0 := by
    simp only [Behavior.find?, MetaState.compatible_of_not_hasModifier hstate]
  have hbehavior : map.behavior? code state = some behavior := by
    refine behavior?_eq_some_iff.mpr ⟨key, hkey, ?_⟩
    rw [hfind, hvalid.find?_zero (List.mem_of_mem_getLast? hlast) hmask]
  rw [hbehavior, Option.bind_some, hfallback]

/-- Whatever replaces the key, or is its fallback under some modifiers, comes without any
modifier, locks included: a mask that agrees with the state mentions just the groups that
are held.  Else there is no fallback, or that of a last behavior without modifiers, which
leaves the state as it is and in a valid map counts only while some modifier is held. -/
theorem firing_strips_modifiers (map : KeyMap) (code : KeyCode) (state : MetaState) :
    map.applyBehavior code state =
        ((map.behavior? code state).bind (·.replacement)).elim (code, state)
          (fun replacement => (replacement, state.withoutModifiers)) ∧
      (∀ fallback, (map.behavior? code state).bind (·.fallback) = some fallback →
        map.fallbackAction? code state = some ⟨fallback, state.withoutModifiers⟩) ∧
      ((map.behavior? code state).bind (·.fallback) = none →
        map.fallbackAction? code state = none ∨
          ∃ key behavior fallback, map.keys.get? code = some key ∧
            key.behaviors.getLast? = some behavior ∧ behavior.mask = 0 ∧
              behavior.fallback = some fallback ∧
                map.fallbackAction? code state = some ⟨fallback, state⟩ ∧
                  (map.Valid → state.hasModifier = true)) ∧
      ∀ mask : MetaState, mask.compatible state = true →
        ModifierGroup.within mask = ModifierGroup.within state ∧
          state.clearGroups mask = state.withoutModifiers := by
  refine ⟨applyBehavior_eq .., fun fallback hown => ?_, fun hnone => ?_, fun mask hmask =>
    ⟨MetaState.within_of_compatible hmask, MetaState.clearGroups_of_compatible hmask⟩⟩
  · rw [fallbackAction?_eq, hown]
    rfl
  · rw [fallbackAction?_eq, hnone, Option.map_none, Option.none_or]
    cases hplain : map.plainFallback? code with
    | none => exact .inl rfl
    | some fallback =>
        obtain ⟨key, behavior, hkey, hlast, hmask, hfallback⟩ :=
          plainFallback?_eq_some_iff.mp hplain
        refine .inr ⟨key, behavior, fallback, hkey, hlast, hmask, hfallback, rfl, fun hmap => ?_⟩
        rw [← Bool.not_eq_false]
        intro hstate
        rw [hmap.behavior?_of_plainFallback? hstate hplain] at hnone
        contradiction

/-- A back key alone, under a shift key that it does not know, and the state of a shift key
with a bit of no group. -/
theorem firing_strips_modifiers_back :
    (backOverlay.behavior? 4 0).bind (·.fallback) = some 3 ∧
      backOverlay.fallbackAction? 4 0 = some ⟨3, MetaState.withoutModifiers 0⟩ ∧
      (backOverlay.behavior? 4 1).bind (·.fallback) = none ∧
      backOverlay.fallbackAction? 4 1 = some ⟨3, 1⟩ ∧
      backOverlay.Valid ∧ MetaState.hasModifier 1 = true ∧
      MetaState.compatible 1 321 = true ∧
      MetaState.clearGroups 321 1 = MetaState.withoutModifiers 321 := by
  have hown : (backOverlay.behavior? 4 0).bind (·.fallback) = some 3 := by decide
  have hnone : (backOverlay.behavior? 4 1).bind (·.fallback) = none := by decide
  have hvalid : backOverlay.Valid := valid_of_ofText ofText_back
  have hmask : MetaState.compatible 1 321 = true := by decide
  have hplain : backOverlay.fallbackAction? 4 1 = some ⟨3, 1⟩ := by decide
  obtain ⟨-, hfallback, -, -⟩ := firing_strips_modifiers backOverlay 4 0
  obtain ⟨-, -, hlast, -⟩ := firing_strips_modifiers backOverlay 4 1
  obtain ⟨-, -, -, hclear⟩ := firing_strips_modifiers backOverlay 4 321
  rcases hlast hnone with hnot | ⟨_, _, _, -, -, -, -, -, hheld⟩
  · rw [hplain] at hnot
    contradiction
  · exact ⟨hown, hfallback 3 hown, hnone, hplain, hvalid, hheld hvalid, hmask,
      (hclear 1 hmask).2⟩

end KeyLayout.KeyMap
