import KeyLayout.Proofs.Modifier.Release
import Mathlib.Logic.Function.Iterate

namespace KeyLayout

/-! A run of presses and releases leaves every key as its own last step says, whatever
happens to other keys in between. -/

structure KeyStep where
  code : KeyCode
  down : Bool
  deriving DecidableEq

/-- What happens to one key during a run. -/
def KeyStep.ofKey (steps : List KeyStep) (code : KeyCode) : List KeyStep :=
  steps.filter (·.code = code)

namespace KeyStep

theorem ofKey_cons (step : KeyStep) (rest : List KeyStep) (code : KeyCode) :
    ofKey (step :: rest) code =
      if step.code = code then step :: ofKey rest code else ofKey rest code := by
  simp only [ofKey, List.filter_cons, decide_eq_true_eq]

/-- Steps of different keys may change places. -/
theorem ofKey_swap {first second : KeyStep} (hne : first.code ≠ second.code)
    (before after : List KeyStep) (code : KeyCode) :
    ofKey (before ++ first :: second :: after) code =
      ofKey (before ++ second :: first :: after) code := by
  rw [ofKey, ofKey, List.filter_append, List.filter_append]
  congr 1
  change ofKey (first :: second :: after) code = ofKey (second :: first :: after) code
  simp only [ofKey_cons]
  by_cases hfirst : first.code = code
  · have hsecond : second.code ≠ code := fun heq => hne (hfirst.trans heq.symm)
    simp only [hfirst, hsecond, if_true, if_false]
  · simp only [hfirst, if_false]

theorem ofKey_presses (keys : List KeyCode) (code : KeyCode) :
    ofKey (keys.map (⟨·, true⟩)) code = List.replicate (keys.count code) ⟨code, true⟩ := by
  induction keys with
  | nil => rfl
  | cons key rest ih =>
      rw [List.map_cons, ofKey_cons, ih]
      by_cases heq : key = code
      · simp [heq, List.replicate_succ]
      · simp [heq]

end KeyStep

namespace ModifierGroup

theorem genericBit_mem_bits (group : ModifierGroup) : group.genericBit ∈ group.bits := by
  cases group <;> decide

/-- The bits of a group are those of its keys and the one that they share. -/
theorem eq_genericBit_or_exists_key {group : ModifierGroup} {position : Nat}
    (hposition : position ∈ group.bits) :
    group.isPaired = true ∧ position = group.genericBit ∨
      ∃ key ∈ group.modifierKeys, key.bit = position := by
  revert position
  cases group <;> decide

theorem forall_ne_or_exists_key (group : ModifierGroup) (code : KeyCode) :
    (∀ own ∈ group.modifierKeys, own.code ≠ code) ∨
      ∃ own ∈ ModifierKey.all, own.group = group ∧ own.code = code := by
  by_cases hother : ∀ own ∈ group.modifierKeys, own.code ≠ code
  · exact .inl hother
  · push Not at hother
    obtain ⟨own, hmem, hcode⟩ := hother
    exact .inr ⟨own, ModifierKey.mem_all_of_mem hmem, ModifierKey.group_eq hmem, hcode⟩

theorem isLock_of_isPaired {group : ModifierGroup} (hpaired : group.isPaired = true) :
    group.isLock = false := by
  revert hpaired
  cases group <;> decide

end ModifierGroup

theorem ModifierKey.bit_mem_bits : ∀ key ∈ all, key.bit ∈ key.group.bits := by
  decide

theorem ModifierKey.bit_of_isLock : ∀ key ∈ all, key.group.isLock = true →
    key.bit = key.group.genericBit := by
  decide

namespace MetaState

variable {state first last : MetaState} {key : ModifierKey} {code : KeyCode} {down : Bool}
  {steps others : List KeyStep}

def updateAll (state : MetaState) (steps : List KeyStep) : MetaState :=
  steps.foldl (fun state step => state.update step.code step.down) state

/-- The generic bit of a pair is set exactly beside a side bit. -/
def Balanced (state : MetaState) : Prop :=
  ∀ group : ModifierGroup, group.isPaired = true →
    state.testBit group.genericBit = (group.sides state).isSided

theorem testBit_update_of_notMem {position : Nat}
    (hposition : ∀ key ∈ ModifierKey.all, key.code = code → position ∉ key.group.bits) :
    (state.update code down).testBit position = state.testBit position := by
  cases hmodifier : code.isModifier with
  | false => rw [update_of_not_isModifier hmodifier]
  | true =>
      obtain ⟨key, hkey, rfl⟩ := KeyCode.isModifier_iff.mp hmodifier
      have hoff := hposition key hkey rfl
      have hgeneric : key.group.genericBit ≠ position := fun heq =>
        hoff (heq ▸ key.group.genericBit_mem_bits)
      have hbit : key.bit ≠ position := fun heq =>
        hoff (heq ▸ ModifierKey.bit_mem_bits key hkey)
      cases hlock : key.group.isLock with
      | true =>
          simp only [update, ModifierKey.ofCode?_eq_some_iff.mpr ⟨hkey, rfl⟩, hlock, if_true]
          split
          · simp [hgeneric]
          · rfl
      | false =>
          cases down with
          | true => simp [testBit_update_down hkey hlock, hgeneric, hbit]
          | false => simp [testBit_update_up hkey hlock, hgeneric.symm, hbit.symm]

/-- A step of a key does not touch the bits of other groups. -/
theorem testBit_update_of_other {group : ModifierGroup} {position : Nat}
    (hposition : position ∈ group.bits) (hother : ∀ own ∈ group.modifierKeys, own.code ≠ code) :
    (state.update code down).testBit position = state.testBit position := by
  apply testBit_update_of_notMem
  intro own hown hcode hmem
  have hgroup := ModifierGroup.eq_of_mem_bits hmem hposition
  exact hother own (hgroup ▸ ModifierKey.mem_all_iff.mp hown) hcode

theorem keyBit_update (hkey : key ∈ ModifierKey.all) (hhold : key.group.isLock = false) :
    (state.update code down).testBit key.bit =
      if code = key.code then down else state.testBit key.bit := by
  rcases key.group.forall_ne_or_exists_key code with hother | ⟨own, hown, hgroup, rfl⟩
  · rw [testBit_update_of_other (ModifierKey.bit_mem_bits key hkey) hother,
      if_neg fun hcode => hother key (ModifierKey.mem_all_iff.mp hkey) hcode.symm]
  · have hownHold : own.group.isLock = false := hgroup ▸ hhold
    have hsame : own.code = key.code ↔ own = key :=
      ⟨ModifierKey.eq_of_code own hown key hkey, congrArg _⟩
    have hbit : own.bit = key.bit ↔ own = key :=
      ⟨ModifierKey.eq_of_bit own hown key hkey, congrArg _⟩
    have hgeneric : own.group.genericBit = key.bit → own = key := fun heq =>
      (ModifierKey.eq_of_bit_eq_genericBit hkey hown heq.symm).symm
    cases down with
    | true =>
        rw [testBit_update_down hown hownHold]
        by_cases heq : own = key
        · simp [heq]
        · simp [hsame, hbit, heq, mt hgeneric heq]
    | false =>
        rw [testBit_update_up hown hownHold]
        by_cases heq : own = key
        · subst own
          by_cases hshared : key.bit = key.group.genericBit
          · simp [hshared, ModifierKey.modifierKeys_of_bit_eq key hkey _ hshared]
          · simp [hshared]
        · rw [if_neg fun hshared => heq (hgeneric hshared.symm)]
          simp [hsame, heq, eq_comm (a := key.bit), hbit]

theorem lockBit_update (hkey : key ∈ ModifierKey.all) (hlock : key.group.isLock = true) :
    (state.update code down).testBit key.bit =
      (state.testBit key.bit ^^ (decide (code = key.code) && down)) := by
  by_cases hcode : code = key.code
  · subst hcode
    simp only [update, ModifierKey.ofCode?_eq_some_iff.mpr ⟨hkey, rfl⟩, hlock, if_true]
    cases down <;> simp [ModifierKey.bit_of_isLock key hkey hlock]
  · have hsingle : ∀ key ∈ ModifierKey.all, key.group.isLock = true →
        key.group.modifierKeys = [key] := by
      decide
    rw [testBit_update_of_other (ModifierKey.bit_mem_bits key hkey)]
    · simp [hcode]
    · simp [hsingle key hkey hlock, Ne.symm hcode]

theorem isSided_iff {group : ModifierGroup} (hpaired : group.isPaired = true) :
    (group.sides state).isSided = true ↔
      ∃ key ∈ group.modifierKeys, state.testBit key.bit = true := by
  rw [ModifierGroup.isSided_sides, hpaired, Bool.true_and, List.any_eq_true]

theorem Balanced.update (hbalanced : state.Balanced) (code : KeyCode) (down : Bool) :
    (state.update code down).Balanced := by
  intro group hpaired
  have hhold := ModifierGroup.isLock_of_isPaired hpaired
  have hkeyBit : ∀ key ∈ group.modifierKeys, (state.update code down).testBit key.bit =
      if code = key.code then down else state.testBit key.bit := fun key hmem =>
    keyBit_update (ModifierKey.mem_all_of_mem hmem) (ModifierKey.group_eq hmem ▸ hhold)
  rw [Bool.eq_iff_iff, isSided_iff hpaired]
  rcases group.forall_ne_or_exists_key code with hother | ⟨own, hown, rfl, rfl⟩
  · rw [testBit_update_of_other group.genericBit_mem_bits hother, hbalanced group hpaired,
      isSided_iff hpaired]
    refine exists_congr fun key => and_congr_right fun hmem => ?_
    rw [hkeyBit key hmem, if_neg (hother key hmem).symm]
  · cases down with
    | true =>
        have hmem := ModifierKey.mem_all_iff.mp hown
        have hgeneric : (state.update own.code true).testBit own.group.genericBit = true := by
          rw [testBit_update_down hown hhold]
          simp
        exact iff_of_true hgeneric ⟨own, hmem, by rw [hkeyBit own hmem, if_pos rfl]⟩
    | false =>
        -- the generic bit stays for the other side, which is the side that is left
        rw [testBit_update_up hown hhold, if_pos rfl, List.any_eq_true]
        refine exists_congr fun key => and_congr_right fun hkey => ?_
        have hcode : own.code = key.code ↔ key = own :=
          ⟨fun heq => (ModifierKey.eq_of_code own hown key (ModifierKey.mem_all_of_mem hkey)
            heq).symm, fun heq => heq ▸ rfl⟩
        rw [hkeyBit key hkey, Bool.and_eq_true, decide_eq_true_eq]
        by_cases heq : key = own
        · simp [heq]
        · simp [hcode, heq]

/-- The last state, as the first one and the steps between them determine it. -/
structure Reflects (last first : MetaState) (steps : List KeyStep) : Prop where
  moved : ∀ key ∈ ModifierKey.all, key.group.isLock = false →
    ∀ step ∈ (KeyStep.ofKey steps key.code).getLast?, last.testBit key.bit = step.down
  unmoved : ∀ key ∈ ModifierKey.all, key.group.isLock = false →
    KeyStep.ofKey steps key.code = [] → last.testBit key.bit = first.testBit key.bit
  balanced : last.Balanced
  /-- A lock is turned over as often as its key goes down. -/
  lock : ∀ key ∈ ModifierKey.all, key.group.isLock = true →
    last.testBit key.bit =
      Bool.not^[(KeyStep.ofKey steps key.code).countP (·.down)] (first.testBit key.bit)
  foreign : ∀ position, (∀ group ∈ ModifierGroup.all, position ∉ group.bits) →
    last.testBit position = first.testBit position

namespace Reflects

theorem nil (hbalanced : state.Balanced) : state.Reflects state [] where
  moved _ _ _ _ hstep := nomatch hstep
  unmoved _ _ _ _ := rfl
  balanced := hbalanced
  lock _ _ _ := rfl
  foreign _ _ := rfl

theorem cons {step : KeyStep} (hreflects : last.Reflects (first.update step.code step.down) steps) :
    last.Reflects first (step :: steps) where
  moved key hkey hhold own hown := by
    rw [KeyStep.ofKey_cons] at hown
    by_cases hcode : step.code = key.code
    · rw [if_pos hcode, List.getLast?_cons] at hown
      cases hlater : (KeyStep.ofKey steps key.code).getLast? with
      | none =>
          -- this is the last step of the key
          rw [hlater] at hown
          cases hown
          rw [hreflects.unmoved key hkey hhold (List.getLast?_eq_none_iff.mp hlater),
            keyBit_update hkey hhold, if_pos hcode]
          rfl
      | some later =>
          rw [hlater] at hown
          cases hown
          exact hreflects.moved key hkey hhold later hlater
    · rw [if_neg hcode] at hown
      exact hreflects.moved key hkey hhold own hown
  unmoved key hkey hhold hnone := by
    rw [KeyStep.ofKey_cons] at hnone
    by_cases hcode : step.code = key.code
    · rw [if_pos hcode] at hnone
      contradiction
    · rw [if_neg hcode] at hnone
      rw [hreflects.unmoved key hkey hhold hnone, keyBit_update hkey hhold, if_neg hcode]
  balanced := hreflects.balanced
  lock key hkey hlock := by
    rw [hreflects.lock key hkey hlock, lockBit_update hkey hlock, KeyStep.ofKey_cons]
    by_cases hcode : step.code = key.code
    · cases hdown : step.down <;> simp [hcode, hdown]
    · simp [hcode]
  foreign position hposition := by
    rw [hreflects.foreign position hposition,
      testBit_update_of_notMem fun key _ _ => hposition key.group key.group.mem_all]

/-- Only what happens to each key by itself counts. -/
theorem congr (hreflects : last.Reflects first steps)
    (hsteps : ∀ code, KeyStep.ofKey steps code = KeyStep.ofKey others code) :
    last.Reflects first others where
  moved key := hsteps key.code ▸ hreflects.moved key
  unmoved key := hsteps key.code ▸ hreflects.unmoved key
  balanced := hreflects.balanced
  lock key := hsteps key.code ▸ hreflects.lock key
  foreign := hreflects.foreign

theorem keyBit_eq {other : MetaState} (hreflects : last.Reflects first steps)
    (hother : other.Reflects first steps) (hkey : key ∈ ModifierKey.all) :
    last.testBit key.bit = other.testBit key.bit := by
  cases hlock : key.group.isLock with
  | true => rw [hreflects.lock key hkey hlock, hother.lock key hkey hlock]
  | false =>
      cases hsteps : (KeyStep.ofKey steps key.code).getLast? with
      | none =>
          have hnone := List.getLast?_eq_none_iff.mp hsteps
          rw [hreflects.unmoved key hkey hlock hnone, hother.unmoved key hkey hlock hnone]
      | some step =>
          rw [hreflects.moved key hkey hlock step hsteps, hother.moved key hkey hlock step hsteps]

/-- No other state is reflected by the same steps. -/
theorem unique {other : MetaState} (hreflects : last.Reflects first steps)
    (hother : other.Reflects first steps) : last = other := by
  apply eq_of_testBit
  intro position
  by_cases hforeign : ∀ group ∈ ModifierGroup.all, position ∉ group.bits
  · rw [hreflects.foreign position hforeign, hother.foreign position hforeign]
  · push Not at hforeign
    obtain ⟨group, -, hposition⟩ := hforeign
    rcases ModifierGroup.eq_genericBit_or_exists_key hposition with
      ⟨hpaired, rfl⟩ | ⟨key, hkey, rfl⟩
    · rw [Bool.eq_iff_iff, hreflects.balanced group hpaired, hother.balanced group hpaired,
        isSided_iff hpaired, isSided_iff hpaired]
      refine exists_congr fun key => and_congr_right fun hkey => ?_
      rw [hreflects.keyBit_eq hother (ModifierKey.mem_all_of_mem hkey)]
    · exact hreflects.keyBit_eq hother (ModifierKey.mem_all_of_mem hkey)

end Reflects

theorem updateAll_reflects (hbalanced : state.Balanced) (steps : List KeyStep) :
    (state.updateAll steps).Reflects state steps := by
  induction steps generalizing state with
  | nil => exact .nil hbalanced
  | cons step rest ih => exact (ih (hbalanced.update step.code step.down)).cons

theorem updateAll_congr (hbalanced : state.Balanced)
    (hsteps : ∀ code, KeyStep.ofKey steps code = KeyStep.ofKey others code) :
    state.updateAll steps = state.updateAll others :=
  ((updateAll_reflects hbalanced steps).congr hsteps).unique (updateAll_reflects hbalanced others)

theorem held_eq_updateAll (keys : List KeyCode) (state : MetaState) :
    held keys state = state.updateAll (keys.map (⟨·, true⟩)) := by
  rw [held, updateAll, List.foldl_map]

/-- A run of any length: what becomes of every bit, that steps of different keys may change
places, and that the order in which keys are held does not count. -/
theorem updateAll_balanced (hbalanced : state.Balanced) :
    (∀ steps, (state.updateAll steps).Reflects state steps) ∧
      (∀ before first second after, KeyStep.code first ≠ second.code →
        state.updateAll (before ++ first :: second :: after) =
          state.updateAll (before ++ second :: first :: after)) ∧
      ∀ keys others : List KeyCode, keys.Perm others → held keys state = held others state := by
  refine ⟨updateAll_reflects hbalanced, fun before first second after hne => ?_,
    fun keys others hperm => ?_⟩
  · exact updateAll_congr hbalanced (KeyStep.ofKey_swap hne before after)
  · rw [held_eq_updateAll, held_eq_updateAll]
    apply updateAll_congr hbalanced
    intro code
    rw [KeyStep.ofKey_presses, KeyStep.ofKey_presses, hperm.count_eq]

/-- Left shift is held; the right one joins it, and the left one is let go. -/
theorem updateAll_balanced_shift :
    Balanced 0x41 ∧
      (updateAll 0x41 [⟨60, true⟩, ⟨115, true⟩, ⟨59, false⟩]).Reflects 0x41
        [⟨60, true⟩, ⟨115, true⟩, ⟨59, false⟩] ∧
      updateAll 0x41 [⟨60, true⟩, ⟨115, true⟩, ⟨59, false⟩] =
        updateAll 0x41 [⟨60, true⟩, ⟨59, false⟩, ⟨115, true⟩] ∧
      held [57, 29, 57, 115] 0x41 = held [29, 57, 115, 57] 0x41 := by
  have hbalanced : Balanced 0x41 := by
    intro group
    cases group <;> decide
  obtain ⟨hreflects, hswap, hheld⟩ := updateAll_balanced hbalanced
  exact ⟨hbalanced, hreflects _, hswap [⟨60, true⟩] ⟨115, true⟩ ⟨59, false⟩ [] (by decide),
    hheld _ _ (by decide)⟩

end MetaState

end KeyLayout
