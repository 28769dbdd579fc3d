import KeyLayout.Proofs.Modifier.Restating
import KeyLayout.Proofs.Typing.Bookkeeping

namespace KeyLayout

/-! Typing starts from the keys and the locks that account for a meta state.  A state that
is written in words and read back has the same ones, and so has the state that a run has
reached: from there it may as well be started anew. -/

namespace ModifierGroup

theorem keysFor_grip (group : ModifierGroup) :
    ∀ down ∈ group.keys.sublists, group.keysFor (group.grip down) = down := by
  cases group <;> decide

/-- Keys in their order are made up of those of each group. -/
theorem flatMap_down {keys : List KeyCode} (hkeys : keys.Sublist ephemeralKeys) :
    (ephemeral.flatMap fun group => group.down keys) = keys := by
  have hsublist := hkeys.filter keys.contains
  rw [List.filter_eq_self.mpr fun code hcode => List.contains_iff_mem.mpr hcode] at hsublist
  have hsubset : ephemeralKeys.filter keys.contains ⊆ keys := fun code hcode =>
    List.contains_iff_mem.mp (List.mem_filter.mp hcode).2
  have hlength := ((nodup_ephemeralKeys.filter _).subperm hsubset).length_le
  rw [flatMap_down_eq_filter]
  exact (hsublist.eq_of_length_le hlength).symm

end ModifierGroup

namespace MetaState

open ModifierGroup (ephemeralKeys)

variable {state : MetaState} {keys : List KeyCode}

theorem heldKeys_held (hkeys : keys.Sublist ephemeralKeys) (state : MetaState) :
    (held keys state.lockBits).heldKeys = keys := by
  have hshows := Shows.held hkeys.subset state
  have hgroup : ∀ group ∈ ModifierGroup.ephemeral,
      (held keys state.lockBits).groupKeys group = group.down keys := by
    intro group hgroup
    calc (held keys state.lockBits).groupKeys group
      _ = group.keysFor (group.grip keys) :=
        group.keysFor_congr (hshows.sides_alike (ModifierGroup.mem_ephemeral.mp hgroup))
      _ = group.keysFor (group.grip (group.down keys)) := by rw [ModifierGroup.grip_down]
      _ = group.down keys := group.keysFor_grip _ (ModifierGroup.down_mem_sublists ..)
  calc (held keys state.lockBits).heldKeys
    _ = ModifierGroup.ephemeral.flatMap fun group => group.down keys := List.flatMap_congr hgroup
    _ = keys := ModifierGroup.flatMap_down hkeys

theorem lockBits_held (hkeys : keys ⊆ ephemeralKeys) (state : MetaState) :
    (held keys state.lockBits).lockBits = state.lockBits :=
  lockBits_congr fun group hlock => by
    rw [(Shows.held hkeys state).lockBit group hlock, testBit_lockBits_of_isLock state hlock]

end MetaState

namespace Synthesizer

variable {synthesizer : Synthesizer} {events : Array KeyEvent}

/-! The events so far have no influence on how a text is typed. -/

/-- The synthesizer with these events before its own. -/
def after (events : Array KeyEvent) (synthesizer : Synthesizer) : Synthesizer :=
  { synthesizer with events := events ++ synthesizer.events }

/-- What typing leads to, with these events before the others. -/
def outcomeAfter (events : Array KeyEvent) :
    Except Stopped Synthesizer → Except Stopped Synthesizer
  | .ok typed => .ok (typed.after events)
  | .error stopped => .error { stopped with reached := stopped.reached.after events }

theorem emit_after (synthesizer : Synthesizer) (code : KeyCode) (press : KeyPress) :
    (synthesizer.after events).emit code press = (synthesizer.emit code press).after events := by
  simp only [emit, after, Array.append_push]
  rfl

theorem press_after (code : KeyCode) :
    (synthesizer.after events).press code = (synthesizer.press code).after events :=
  emit_after { synthesizer with held := synthesizer.held ++ [code] } ..

theorem letGo_after (code : KeyCode) :
    (synthesizer.after events).letGo code = (synthesizer.letGo code).after events :=
  emit_after { synthesizer with
    held := synthesizer.held.erase code
    ephemeral := synthesizer.ephemeral.filter (· ≠ code) } ..

theorem letGoIf_after (onlyEphemeral : Bool) (code : KeyCode) :
    (synthesizer.after events).letGoIf onlyEphemeral code =
      (synthesizer.letGoIf onlyEphemeral code).after events := by
  rw [letGoIf, letGoIf, letGo_after, apply_ite (after events)]
  rfl

theorem pressEphemeral_after (code : KeyCode) :
    (synthesizer.after events).pressEphemeral code =
      (synthesizer.pressEphemeral code).after events := by
  rw [pressEphemeral, pressEphemeral, press_after, apply_ite (after events)]
  rfl

theorem releaseUnless_after (keep : List KeyCode) (onlyEphemeral : Bool) :
    (synthesizer.after events).releaseUnless keep onlyEphemeral =
      (synthesizer.releaseUnless keep onlyEphemeral).map (after events) := by
  rw [releaseUnless, releaseUnless]
  change (ModifierKey.sortForRelease synthesizer.held >>= _) = _
  cases ModifierKey.sortForRelease synthesizer.held with
  | error => rfl
  | ok keys =>
    refine congrArg Except.ok ?_
    exact List.foldl_hom (after events) fun _ _ => letGoIf_after ..

theorem hold_after (target : List KeyCode) :
    (synthesizer.after events).hold target =
      (synthesizer.hold target).map (after events) := by
  rw [hold, hold, releaseUnless_after]
  cases synthesizer.releaseUnless target false with
  | error => rfl
  | ok released =>
    refine congrArg Except.ok ?_
    exact List.foldl_hom (after events) fun _ _ => pressEphemeral_after ..

theorem tap_after (code : KeyCode) :
    (synthesizer.after events).tap code = (synthesizer.tap code).after events := by
  rw [tap, tap, emit_after, emit_after]

theorem strike_after (plan : TypingPlan) :
    (synthesizer.after events).strike plan = (synthesizer.strike plan).map (after events) := by
  rw [strike, strike, hold_after]
  cases synthesizer.hold plan.target with
  | error => rfl
  | ok held => exact congrArg Except.ok (tap_after ..)

theorem upcoming_after (next : Option CodePoint) :
    (synthesizer.after events).upcoming next = synthesizer.upcoming next :=
  rfl

theorem plan_after (text : Text) : (synthesizer.after events).plan text = synthesizer.plan text :=
  rfl

theorem typeCharacter_after (character : CodePoint) (next : Option CodePoint) :
    (synthesizer.after events).typeCharacter character next =
      outcomeAfter events (synthesizer.typeCharacter character next) := by
  rw [typeCharacter, typeCharacter, plan_after]
  cases synthesizer.plan [character] with
  | error => rfl
  | ok plan =>
    dsimp only
    rw [strike_after]
    cases synthesizer.strike plan with
    | error => rfl
    | ok struck =>
      dsimp only [Except.map]
      rw [upcoming_after]
      cases struck.upcoming next with
      | error => rfl
      | ok keep =>
        dsimp only
        rw [releaseUnless_after]
        cases struck.releaseUnless keep true with
        | error => rfl
        | ok released => rfl

theorem typeText_after (text : Text) :
    (synthesizer.after events).typeText text = outcomeAfter events (synthesizer.typeText text) := by
  induction text generalizing synthesizer with
  | nil => rfl
  | cons character rest ih =>
      rw [typeText, typeText, typeCharacter_after]
      cases synthesizer.typeCharacter character rest.head? with
      | error => rfl
      | ok typed => exact ih

section Run

variable {first last : Synthesizer} {text : Text} {strokes : List Stroke}

theorem Types.kept (htypes : first.Types text strokes last) (hconsistent : first.Consistent) :
    last.map = first.map ∧ last.device = first.device ∧ last.locks = first.locks := by
  induction htypes with
  | done => exact ⟨rfl, rfl, rfl⟩
  | strike hstrikes _ ih =>
      obtain ⟨hmap, hdevice, hlocks⟩ := ih (hstrikes.consistent_released hconsistent)
      exact ⟨hmap.trans (hstrikes.map_released hconsistent),
        hdevice.trans (hstrikes.device_released hconsistent),
        hlocks.trans (hstrikes.locks_released hconsistent)⟩

variable {map : KeyMap} {device : Int} {state : MetaState} {typed : Synthesizer}

/-- In the end no key is down but some that were so from the start. -/
theorem Types.held_sublist (htypes : (start map device state).Types text strokes typed) :
    typed.held.Sublist state.heldKeys := by
  have hconsistent := consistent_start map device state
  have hambient := htypes.ambient_eq hconsistent
  rw [ambient, ambient, htypes.ephemeral_eq_nil hconsistent fun _ => rfl] at hambient
  have hheld : typed.held = _ := (List.filter_eq_self.mpr fun _ _ => rfl).symm.trans hambient
  rw [hheld]
  exact List.filter_sublist.trans List.filter_sublist

/-- What a run has come to is a start from the state it has reached, but for the events. -/
theorem eq_after_start (htyped : (start map device state).typeText text = .ok typed) :
    typed = (start map device typed.state).after typed.events := by
  obtain ⟨strokes, htypes⟩ := typeText_eq_ok_iff.mp htyped
  have hconsistent := consistent_start map device state
  obtain ⟨hmap, hdevice, hlocks⟩ := htypes.kept hconsistent
  have hephemeral := htypes.ephemeral_eq_nil hconsistent fun _ => rfl
  have hsublist := htypes.held_sublist.trans (heldKeys_sublist state)
  have hstate : typed.state = MetaState.held typed.held state.lockBits := by
    rw [Synthesizer.state, hlocks]
    rfl
  have hheld : typed.held = typed.state.heldKeys := by
    rw [hstate, MetaState.heldKeys_held hsublist]
  have hlockBits : typed.locks = typed.state.lockBits := by
    rw [hstate, MetaState.lockBits_held hsublist.subset, hlocks]
    rfl
  have hevents : typed.events ++ (start map device typed.state).events = typed.events :=
    Array.append_empty
  calc typed
    _ = ⟨typed.map, typed.device, typed.locks, typed.held, typed.ephemeral, typed.events⟩ := rfl
    _ = (start map device typed.state).after typed.events := by
      rw [hmap, hdevice, hlockBits, hheld, hephemeral, after, hevents]
      rfl

end Run

/-- A typing can be taken up again.  After a text is typed no more is left than a start from
the meta state that was reached would have, and a second text is typed as from there. -/
theorem typeText_resumes {map : KeyMap} {device : Int} {state : MetaState} {first : Text}
    {typed : Synthesizer} (htyped : (start map device state).typeText first = .ok typed)
    (second : Text) :
    typed.held = (start map device typed.state).held ∧
    typed.locks = (start map device typed.state).locks ∧
    typed.ephemeral = (start map device typed.state).ephemeral ∧
    ((∃ events last, map.synthesize device second typed.state = .ok events ∧
        typed.typeText second = .ok last ∧
          last.events.toList = typed.events.toList ++ events) ∨
      ∃ character ∈ second, ∃ stopped,
        map.synthesize device second typed.state = .error (.unmappable ⟨[character]⟩) ∧
          typed.typeText second = .error stopped ∧
            stopped.error = .unmappable ⟨[character]⟩) := by
  have htypedAgain := eq_after_start htyped
  have hsecond : typed.typeText second =
      outcomeAfter typed.events ((start map device typed.state).typeText second) := by
    rw [← typeText_after, ← htypedAgain]
  refine ⟨(congrArg held htypedAgain :), (congrArg locks htypedAgain :),
    (congrArg ephemeral htypedAgain :), ?_⟩
  rw [hsecond, KeyMap.synthesize]
  cases hanew : (start map device typed.state).typeText second with
  | ok last => exact .inl ⟨_, _, rfl, rfl, Array.toList_append⟩
  | error stopped =>
      have herror : map.synthesize device second typed.state = .error stopped.error := by
        rw [KeyMap.synthesize, hanew]
      obtain ⟨character, hcharacter, hunmappable⟩ := KeyMap.exists_of_synthesize_eq_error herror
      exact .inr ⟨character, hcharacter, _, congrArg _ hunmappable, rfl, hunmappable⟩

theorem typeText_resumes_oneKey :
    ∃ typed, (start KeyMap.oneKey 0 0x41).typeText "aAa" = .ok typed ∧
      typed.held = (start KeyMap.oneKey 0 typed.state).held ∧
      typed.locks = (start KeyMap.oneKey 0 typed.state).locks ∧
      typed.ephemeral = (start KeyMap.oneKey 0 typed.state).ephemeral ∧
      ∃ events last, KeyMap.oneKey.synthesize 0 "aAa" typed.state = .ok events ∧
        typed.typeText "aAa" = .ok last ∧
          last.events.toList = typed.events.toList ++ events := by
  have hconsistent := consistent_start KeyMap.oneKey 0 0x41
  obtain ⟨typed, htyped⟩ := exists_typed hconsistent KeyMap.typable_oneKey
  obtain ⟨hheld, hlocks, hephemeral, hsecond⟩ := typeText_resumes htyped "aAa"
  refine ⟨typed, htyped, hheld, hlocks, hephemeral, hsecond.resolve_right ?_⟩
  rintro ⟨character, -, stopped, herror, -⟩
  obtain ⟨strokes, htypes⟩ := typeText_eq_ok_iff.mp htyped
  have hbits : typed.state.lockBits = MetaState.lockBits 0x41 :=
    hlocks.symm.trans (htypes.kept hconsistent).2.2
  obtain ⟨events, hevents⟩ := KeyMap.exists_synthesize 0 (hbits ▸ KeyMap.typable_oneKey)
  rw [hevents] at herror
  contradiction

end Synthesizer

/-- A meta state that is written in words and read back says the same: of every group the
sides that are held, either side only where none is, and nothing else.  No mask tells the
two states apart, they are written alike, and every text is typed alike from them. -/
theorem MetaState.parse_format_alike (state : MetaState) :
    ∃ restated, parse state.format = .ok restated ∧
      (∀ group : ModifierGroup,
        (group.sides restated).left = (group.sides state).left ∧
        (group.sides restated).right = (group.sides state).right ∧
        (group.sides restated).generic =
          ((group.sides state).generic && !(group.sides state).isSided)) ∧
      (∀ bit, restated.testBit bit = true → ∃ group : ModifierGroup, bit ∈ group.bits) ∧
      (∀ mask : MetaState, mask.compatible restated = mask.compatible state) ∧
      restated.format = state.format ∧
      ∀ (map : KeyMap) (device : Int) (text : Text),
        (∃ events, map.synthesize device text restated = .ok events ∧
          map.synthesize device text state = .ok events) ∨
        ∃ character ∈ text,
          map.synthesize device text restated = .error (.unmappable ⟨[character]⟩) ∧
            map.synthesize device text state = .error (.unmappable ⟨[character]⟩) := by
  refine ⟨state.restated, parse_format state, fun group => ?_, fun bit hbit => ?_,
    fun mask => compatible_restated mask state, format_restated state, fun map device text => ?_⟩
  · rw [sides_restated]
    exact ⟨rfl, rfl, rfl⟩
  · obtain ⟨group, -, hmem⟩ := ofModifiers_restated state bit hbit
    exact ⟨group, hmem⟩
  · have hstart : Synthesizer.start map device state.restated =
        Synthesizer.start map device state := by
      rw [Synthesizer.start, heldKeys_restated, lockBits_restated, ← Synthesizer.start]
    have hsame : map.synthesize device text state.restated =
        map.synthesize device text state := by
      rw [KeyMap.synthesize, hstart, ← KeyMap.synthesize]
    rw [hsame]
    cases hresult : map.synthesize device text state with
    | ok events => exact .inl ⟨events, rfl, rfl⟩
    | error error =>
        obtain ⟨character, hcharacter, rfl⟩ := KeyMap.exists_of_synthesize_eq_error hresult
        exact .inr ⟨character, hcharacter, rfl, rfl⟩

end KeyLayout
