import KeyLayout.Proofs.Grammar.Joining
import KeyLayout.Proofs.Modifier.Release
import KeyLayout.Proofs.Typing.LookAhead
import KeyLayout.Stream

namespace KeyLayout

/-! The key that is tapped is the one that has the character, whatever else it does.  It
may be a lock, which the tap then toggles, and a behavior that has a character may also
put another key in its place. -/

/-- The keys that toggle a lock. -/
def ModifierGroup.lockKeys : List KeyCode :=
  locks.flatMap keys

namespace ModifierGroup

theorem mem_lockKeys_iff {code : KeyCode} :
    code ∈ lockKeys ↔ ∃ key ∈ ModifierKey.all, key.group.isLock = true ∧ key.code = code := by
  simp only [lockKeys, List.mem_flatMap, mem_locks, mem_keys]
  constructor
  · rintro ⟨group, hlock, key, hkey, rfl⟩
    exact ⟨key, ModifierKey.mem_all_of_mem hkey, ModifierKey.group_eq hkey ▸ hlock, rfl⟩
  · rintro ⟨key, hkey, hlock, rfl⟩
    exact ⟨key.group, hlock, key, ModifierKey.mem_all_iff.mp hkey, rfl⟩

theorem notMem_lockKeys : ∀ code ∈ ephemeralKeys, code ∉ lockKeys := by
  decide

end ModifierGroup

namespace MetaState

open ModifierGroup (lockKeys mem_lockKeys_iff)

variable {state : MetaState} {code : KeyCode} {event : KeyEvent} {events : List KeyEvent}

theorem lockBits_update_of_notMem (hcode : code ∉ lockKeys) (down : Bool) :
    (state.update code down).lockBits = state.lockBits := by
  cases hmodifier : code.isModifier with
  | false => rw [update_of_not_isModifier hmodifier]
  | true =>
      obtain ⟨key, hkey, rfl⟩ := KeyCode.isModifier_iff.mp hmodifier
      have hhold : key.group.isLock = false := Bool.eq_false_iff.mpr fun hlock =>
        hcode (mem_lockKeys_iff.mpr ⟨key, hkey, hlock, rfl⟩)
      refine eq_of_testBit fun position => ?_
      rw [Bool.eq_iff_iff, testBit_lockBits, testBit_lockBits]
      refine and_congr_right ?_
      rintro ⟨group, hlock, rfl⟩
      rw [testBit_update_lock hkey hhold hlock]

theorem lockBits_update_up : (state.update code false).lockBits = state.lockBits := by
  by_cases hcode : code ∈ lockKeys
  · obtain ⟨key, hkey, hlock, rfl⟩ := mem_lockKeys_iff.mp hcode
    simp [update, ModifierKey.ofCode?_eq_some_iff.mpr ⟨hkey, rfl⟩, hlock]
  · exact lockBits_update_of_notMem hcode false

theorem lockBits_update_down_iff :
    (state.update code true).lockBits = state.lockBits ↔ code ∉ lockKeys := by
  refine ⟨fun hkept hcode => ?_, fun hcode => lockBits_update_of_notMem hcode true⟩
  obtain ⟨key, hkey, hlock, rfl⟩ := mem_lockKeys_iff.mp hcode
  have hbit := congrArg (testBit · key.group.genericBit) hkept
  simp only [testBit_lockBits_of_isLock _ hlock] at hbit
  simp [update, ModifierKey.ofCode?_eq_some_iff.mpr ⟨hkey, rfl⟩, hlock] at hbit

theorem lockBits_follow_iff :
    (state.follow event).lockBits = state.lockBits ↔
      (event.press = .pressed → event.code ∉ lockKeys) := by
  rw [follow]
  cases event.press with
  | repeated => simp
  | pressed => simp [lockBits_update_down_iff]
  | released => simp [lockBits_update_up]

/-- The locks stay as they are where events are tracked exactly if no lock key goes down. -/
theorem lockBits_track_iff :
    (∀ tracked ∈ state.track events, tracked.state.lockBits = state.lockBits) ↔
      ∀ event ∈ events, event.press = .pressed → event.code ∉ lockKeys := by
  induction events generalizing state with
  | nil => simp [track]
  | cons event rest ih =>
      rw [track, List.forall_mem_cons, List.forall_mem_cons, lockBits_follow_iff]
      refine and_congr_right fun hevent => ?_
      rw [← ih, lockBits_follow_iff.mpr hevent]

end MetaState

namespace Stroke

open ModifierGroup (lockKeys)

variable {stroke : Stroke} {character : CodePoint} {next : Option CodePoint}

/-- A stroke moves only keys that hold a modifier, and the key that it taps. -/
theorem Strikes.code_mem (hstrikes : stroke.Strikes character next)
    (hconsistent : stroke.start.Consistent) :
    ∀ event ∈ stroke.events,
      event.code ∈ ModifierGroup.ephemeralKeys ∨ event.code = stroke.plan.code := by
  have hopening := (hstrikes.moves_opening hconsistent).1.code_mem hconsistent
  have hclosing := (hstrikes.moves_closing hconsistent).1.code_mem
    (hstrikes.consistent_struck hconsistent)
  intro event hevent
  simp only [events, List.mem_append, List.mem_cons, List.not_mem_nil, or_false] at hevent
  obtain (hevent | hevent | hevent) | hevent := hevent
  · exact .inl (hopening event hevent)
  · exact .inr (hevent ▸ rfl)
  · exact .inr (hevent ▸ rfl)
  · exact .inl (hclosing event hevent)

theorem Strikes.code_notMem_lockKeys (hstrikes : stroke.Strikes character next)
    (hconsistent : stroke.start.Consistent) (hplan : stroke.plan.code ∉ lockKeys) :
    ∀ event ∈ stroke.events, event.code ∉ lockKeys := by
  intro event hevent
  rcases hstrikes.code_mem hconsistent event hevent with hcode | hcode
  · exact ModifierGroup.notMem_lockKeys _ hcode
  · exact hcode ▸ hplan

theorem exists_pressed (stroke : Stroke) :
    ∃ event ∈ stroke.events, event.press = .pressed ∧ event.code = stroke.plan.code :=
  ⟨⟨stroke.held.device, stroke.plan.code, .pressed, stroke.held.state⟩, by simp [events], rfl, rfl⟩

end Stroke

namespace Synthesizer

open ModifierGroup (lockKeys)

variable {first last : Synthesizer} {text : Text} {strokes : List Stroke}

theorem Types.code_notMem_lockKeys (htypes : first.Types text strokes last)
    (hconsistent : first.Consistent) (hplans : ∀ stroke ∈ strokes, stroke.plan.code ∉ lockKeys) :
    ∀ event ∈ strokes.flatMap Stroke.events, event.code ∉ lockKeys := by
  intro event hevent
  obtain ⟨stroke, hstroke, hmem⟩ := List.mem_flatMap.mp hevent
  exact htypes.forall_mem hconsistent
    (fun _ _ _ hstrikes hstart => hstrikes.code_notMem_lockKeys hstart) stroke hstroke
    (hplans stroke hstroke) event hmem

theorem plan_notMem_of_pressed (hpressed : ∀ event ∈ strokes.flatMap Stroke.events,
    event.press = .pressed → event.code ∉ lockKeys) :
    ∀ stroke ∈ strokes, stroke.plan.code ∉ lockKeys := by
  intro stroke hstroke
  obtain ⟨event, hevent, hpress, hcode⟩ := stroke.exists_pressed
  exact hcode ▸ hpressed event (List.mem_flatMap.mpr ⟨stroke, hstroke, hevent⟩) hpress

theorem Types.length_eq (htypes : first.Types text strokes last) :
    strokes.length = text.length := by
  induction htypes with
  | done => rfl
  | strike _ _ ih => rw [List.length_cons, List.length_cons, ih]

/-- Every key that is tapped has a character of the text. -/
theorem Types.exists_character (htypes : first.Types text strokes last)
    (hconsistent : first.Consistent) :
    ∀ stroke ∈ strokes, ∃ character ∈ text, ∃ state,
      first.map.character? stroke.plan.code state = some character := by
  induction htypes with
  | done => simp
  | strike hstrikes _ ih =>
      have hrest := ih (hstrikes.consistent_released hconsistent)
      rw [hstrikes.map_released hconsistent] at hrest
      refine List.forall_mem_cons.mpr ⟨?_, fun stroke hstroke => ?_⟩
      · exact ⟨_, List.mem_cons_self .., _, character?_of_plan? hstrikes.plan_eq⟩
      · obtain ⟨character, hcharacter, htypes⟩ := hrest stroke hstroke
        exact ⟨character, List.mem_cons_of_mem _ hcharacter, htypes⟩

end Synthesizer

namespace KeyMap

open ModifierGroup (lockKeys)

variable {map : KeyMap} {device : Int} {text : Text} {state : MetaState}
  {character : CodePoint} {code : KeyCode}

/-! A layout on which a lock has a character, and a key with a character is replaced. -/

def oddText : Text :=
  "key CAPS_LOCK \x7b : 'c' \x7d\nkey A \x7b : 'a' replace B \x7d\nkey B \x7b : 'b' \x7d"

def odd : KeyMap where
  name := "odd"
  keys := ⟨[(115, { behaviors := [{ character := some (.scalar 'c') }] }),
    (29, { behaviors := [{ character := some (.scalar 'a'), replacement := some 30 }] }),
    (30, { behaviors := [{ character := some (.scalar 'b') }] })], by decide⟩

def oddLines : List TokenLine :=
  [⟨1, [.word "key", .word "CAPS_LOCK", .punctuation .openBrace, .punctuation .colon,
      .literal "'c'", .punctuation .closeBrace]⟩,
    ⟨2, [.word "key", .word "A", .punctuation .openBrace, .punctuation .colon, .literal "'a'",
      .word "replace", .word "B", .punctuation .closeBrace]⟩,
    ⟨3, [.word "key", .word "B", .punctuation .openBrace, .punctuation .colon, .literal "'b'",
      .punctuation .closeBrace]⟩]

def oddItems : List Item :=
  [.block 115 [⟨[.mask 0], ⟨some (some (.scalar 'c')), none⟩⟩],
    .block 29 [⟨[.mask 0], ⟨some (some (.scalar 'a')), some ⟨.replacement, 30⟩⟩⟩],
    .block 30 [⟨[.mask 0], ⟨some (some (.scalar 'b')), none⟩⟩]]

theorem ofLabel?_capsLock : KeyCode.ofLabel? "CAPS_LOCK" = some 115 := by
  rw [KeyCode.ofLabel?, KeyCode.labels, List.map_toArray, List.findIdx?_toArray]
  decide +kernel

theorem ofLabel?_a : KeyCode.ofLabel? "A" = some 29 := by
  rw [KeyCode.ofLabel?, KeyCode.labels, List.map_toArray, List.findIdx?_toArray]
  decide +kernel

theorem ofLabel?_b : KeyCode.ofLabel? "B" = some 30 := by
  rw [KeyCode.ofLabel?, KeyCode.labels, List.map_toArray, List.findIdx?_toArray]
  decide +kernel

theorem ofText_odd : (ofText "odd" oddText .base).outcome = .ok odd := by
  have hc : Value.Derives [.literal "'c'"] ⟨some (some (.scalar 'c')), none⟩ :=
    derives_of_gives (.literal rfl)
  have ha : Value.Derives [.literal "'a'", .word "replace", .word "B"]
      ⟨some (some (.scalar 'a')), some ⟨.replacement, 30⟩⟩ :=
    @Value.Derives.parts _ [.character (some (.scalar 'a')), .target ⟨.replacement, 30⟩]
      (.cons (.character (.literal rfl)) (.cons (.replacement ofLabel?_b) .nil)) (by simp)
      (by decide) (by decide)
  have hb : Value.Derives [.literal "'b'"] ⟨some (some (.scalar 'b')), none⟩ :=
    derives_of_gives (.literal rfl)
  have hitems : Item.DerivesAll (Symbol.ofLines oddLines) oddItems :=
    .cons (.block ofLabel?_capsLock <| .braces <| .last (.bare hc)) <|
      .cons (.block ofLabel?_a <| .braces <| .last (.bare ha)) <|
        .cons (.block ofLabel?_b <| .braces <| .last (.bare hb)) .nil
  have hfitting : ∀ item ∈ oddItems, item.Fitting .base := by
    have hblock (value : Value) : Statement.Fitting [(.mask 0, value)] :=
      ⟨by simp, by simp, by simp⟩
    simp only [oddItems, List.forall_mem_cons]
    exact ⟨hblock _, hblock _, hblock _, by simp⟩
  have hpairs : oddItems.Pairwise fun first second => ¬first.Bars second := by
    simp [oddItems, Item.Bars]
  exact ofText_eq_ok_iff_typed.mpr ⟨oddLines, _, by with_unfolding_all rfl,
    ⟨oddItems, hitems, Draft.admitsAll_ofName_iff.mpr ⟨hfitting, hpairs⟩, rfl⟩, by decide +kernel⟩

theorem behavior?_odd {behavior : Behavior} (hbehavior : odd.behavior? code state = some behavior) :
    (code, behavior) ∈ [((115 : KeyCode), { character := some (.scalar 'c') }),
      (29, { character := some (.scalar 'a'), replacement := some 30 }),
      (30, { character := some (.scalar 'b') })] := by
  obtain ⟨key, hkey, hfind⟩ := Option.bind_eq_some_iff.mp hbehavior
  have hmem := List.mem_of_find?_eq_some hfind
  rw [Table.get?_eq_some_iff] at hkey
  simp only [odd, List.mem_cons, Prod.mk.injEq, List.not_mem_nil, or_false] at hkey ⊢
  obtain ⟨rfl, rfl⟩ | ⟨rfl, rfl⟩ | ⟨rfl, rfl⟩ := hkey <;>
    obtain rfl := List.mem_singleton.mp hmem <;> simp

theorem character?_odd (hcharacter : odd.character? code state = some character) :
    (code, character) ∈
      [((115 : KeyCode), CodePoint.scalar 'c'), (29, .scalar 'a'), (30, .scalar 'b')] := by
  obtain ⟨behavior, hbehavior, hown⟩ := Option.bind_eq_some_iff.mp hcharacter
  have hmem := behavior?_odd hbehavior
  simp only [List.mem_cons, Prod.mk.injEq, List.not_mem_nil, or_false] at hmem
  obtain ⟨rfl, rfl⟩ | ⟨rfl, rfl⟩ | ⟨rfl, rfl⟩ := hmem <;>
    obtain rfl := Option.some.inj hown <;> simp

theorem exists_plan_odd (htypable : odd.Typable (MetaState.lockBits 0) character) :
    ∃ plan, (Synthesizer.start odd 0 0).plan [character] = .ok plan := by
  have hlocks : (Synthesizer.start odd 0 0).locks = MetaState.lockBits 0 := rfl
  obtain ⟨plan, hplan⟩ := (Synthesizer.exists_plan?_iff hlocks character).mpr htypable
  exact ⟨plan, Synthesizer.plan_eq_ok_iff.mpr hplan⟩

/-- Typing leaves the locks alone exactly if no lock key is tapped: otherwise its events
name one, and the tracker toggles it.  No lock key is tapped that has no character of the
text. -/
theorem locks_synthesize {events : List KeyEvent}
    (hevents : map.synthesize device text state = .ok events) :
    ∃ strokes typed, (Synthesizer.start map device state).Types text strokes typed ∧
      typed.events.toList = events ∧
      ((∀ event ∈ events, event.code ∉ lockKeys) ↔
        ∀ stroke ∈ strokes, stroke.plan.code ∉ lockKeys) ∧
      ((∀ tracked ∈ state.track events, tracked.state.lockBits = state.lockBits) ↔
        ∀ stroke ∈ strokes, stroke.plan.code ∉ lockKeys) ∧
      ((∀ code ∈ lockKeys, ∀ key, map.keys.get? code = some key →
          ∀ behavior ∈ key.behaviors, ∀ character ∈ behavior.character, character ∉ text) →
        ∀ stroke ∈ strokes, stroke.plan.code ∉ lockKeys) := by
  obtain ⟨strokes, typed, htypes, rfl⟩ := synthesize_eq_ok_iff.mp hevents
  have hconsistent := Synthesizer.consistent_start map device state
  have hclear := htypes.code_notMem_lockKeys hconsistent
  refine ⟨strokes, typed, htypes, rfl, ?_, ?_, fun hnone stroke hstroke hlock => ?_⟩
  · rw [htypes.events_of_start]
    exact ⟨fun hall => Synthesizer.plan_notMem_of_pressed fun event hevent _ => hall event hevent,
      hclear⟩
  · rw [MetaState.lockBits_track_iff, htypes.events_of_start]
    exact ⟨Synthesizer.plan_notMem_of_pressed, fun hplans event hevent _ =>
      hclear hplans event hevent⟩
  · obtain ⟨character, hcharacter, own, htyped⟩ :=
      htypes.exists_character hconsistent stroke hstroke
    obtain ⟨key, behavior, hkey, hfind, hown⟩ := character?_eq_some_iff.mp htyped
    exact hnone _ hlock key hkey behavior (List.mem_of_find?_eq_some hfind) character hown
      hcharacter

theorem locks_synthesize_oneKey :
    ∃ events, oneKey.synthesize 0 "aAa" 0x41 = .ok events ∧
      (∀ event ∈ events, event.code ∉ lockKeys) ∧
      ∀ tracked ∈ MetaState.track 0x41 events,
        tracked.state.lockBits = MetaState.lockBits 0x41 := by
  obtain ⟨events, hevents⟩ := exists_synthesize 0 typable_oneKey
  obtain ⟨strokes, typed, -, -, hclear, htracked, hplans⟩ := locks_synthesize hevents
  have hnone : ∀ code ∈ lockKeys, oneKey.keys.get? code = none := by decide
  have hfree : ∀ stroke ∈ strokes, stroke.plan.code ∉ lockKeys := by
    refine hplans fun code hcode key hkey => ?_
    rw [hnone code hcode] at hkey
    contradiction
  exact ⟨events, hevents, hclear.mpr hfree, htracked.mpr hfree⟩

/-- A lock is toggled when it has a character that is typed. -/
theorem not_locks_synthesize :
    ¬∀ (name text : Text) (format : Format) (map : KeyMap) (device : Int) (typed : Text)
        (state : MetaState) (events : List KeyEvent),
      (ofText name text format).outcome = .ok map →
        map.synthesize device typed state = .ok events →
          (∀ event ∈ events, event.code ∉ lockKeys) ∧
            ∀ tracked ∈ state.track events, tracked.state.lockBits = state.lockBits := by
  intro hkeeps
  have htypable : ∀ character ∈ ([.scalar 'c'] : Text),
      odd.Typable (MetaState.lockBits 0) character :=
    List.forall_mem_singleton.mpr ⟨115, [], by decide, by decide⟩
  obtain ⟨events, hevents⟩ := exists_synthesize 0 htypable
  obtain ⟨hkept, -⟩ := hkeeps "odd" oddText .base odd 0 _ 0 events ofText_odd hevents
  obtain ⟨strokes, typed, htypes, rfl⟩ := synthesize_eq_ok_iff.mp hevents
  rw [htypes.events_of_start] at hkept
  obtain ⟨stroke, hstroke⟩ := List.exists_mem_of_length_pos
    (show 0 < strokes.length by rw [htypes.length_eq]; decide)
  obtain ⟨character, hcharacter, state, htyped⟩ :=
    htypes.exists_character (Synthesizer.consistent_start odd 0 0) stroke hstroke
  obtain rfl := List.mem_singleton.mp hcharacter
  have hcode : stroke.plan.code = 115 := by simpa using character?_odd htyped
  have hfree := Synthesizer.plan_notMem_of_pressed (fun event hevent _ => hkept event hevent)
    stroke hstroke
  exact hfree (hcode ▸ by decide)

/-- What is read from a press of the key once replaced keys are in place. -/
def readPress (map : KeyMap) (device : Int) (code : KeyCode) (state : MetaState) :
    List AnnotatedEvent :=
  (Section.applyAll map state [.keyBehavior] [⟨device, code, .pressed, state⟩]).map
    (KeyEvent.annotate map)

theorem characters_readPress {behavior : Behavior}
    (hbehavior : map.behavior? code state = some behavior) :
    (map.readPress device code state).map (·.character) =
      [match behavior.replacement with
        | none => behavior.character
        | some replacement => map.character? replacement (state.clearGroups behavior.mask)] := by
  obtain ⟨mask, own, fallback, replacement⟩ := behavior
  cases replacement with
  | none =>
      simp [readPress, Section.applyAll, Section.apply, KeyEvent.replaced, applyBehavior,
        KeyEvent.annotate, character?, hbehavior]
  | some replacement =>
      simp [readPress, Section.applyAll, Section.apply, KeyEvent.replaced, applyBehavior,
        KeyEvent.annotate, hbehavior]

/-- A plan taps a key whose behavior has the character.  The character is read from the
tap exactly if no other key takes the place of this one, or if that key has it as well. -/
theorem readPress_plan {synthesizer : Synthesizer} {plan : TypingPlan}
    (hplan : synthesizer.plan [character] = .ok plan) :
    ∃ behavior, synthesizer.map.behavior? plan.code
        (MetaState.held plan.target synthesizer.locks) = some behavior ∧
      behavior.character = some character ∧
      ∀ device, (synthesizer.map.readPress device plan.code
          (MetaState.held plan.target synthesizer.locks)).map (·.character) = [some character] ↔
        ∀ replacement ∈ behavior.replacement, synthesizer.map.character? replacement
          ((MetaState.held plan.target synthesizer.locks).clearGroups behavior.mask) =
            some character := by
  have htypes := Synthesizer.character?_of_plan? (Synthesizer.plan_eq_ok_iff.mp hplan)
  obtain ⟨behavior, hbehavior, hown⟩ := Option.bind_eq_some_iff.mp htypes
  refine ⟨behavior, hbehavior, hown, fun device => ?_⟩
  rw [characters_readPress hbehavior]
  cases behavior.replacement with
  | none => simp [hown]
  | some replacement => simp

theorem readPress_plan_odd :
    ∃ plan, (Synthesizer.start odd 0 0).plan [.scalar 'b'] = .ok plan ∧
      (odd.readPress 0 plan.code (MetaState.held plan.target (MetaState.lockBits 0))).map
        (·.character) = [some (.scalar 'b')] := by
  have htypable : odd.Typable (MetaState.lockBits 0) (.scalar 'b') :=
    ⟨30, [], by decide, by decide⟩
  obtain ⟨plan, hplan⟩ := exists_plan_odd htypable
  obtain ⟨behavior, hbehavior, hown, hread⟩ := readPress_plan hplan
  have hnone : behavior.replacement = none := by
    have hmem := behavior?_odd hbehavior
    simp only [List.mem_cons, Prod.mk.injEq, List.not_mem_nil, or_false] at hmem
    obtain ⟨-, rfl⟩ | ⟨-, rfl⟩ | ⟨-, rfl⟩ := hmem <;> simp_all
  refine ⟨plan, hplan, (hread 0).mpr fun replacement hreplacement => ?_⟩
  rw [hnone] at hreplacement
  contradiction

/-- A key that is planned for its character is replaced by one with another. -/
theorem not_readPress_plan :
    ¬∀ (name text : Text) (format : Format) (synthesizer : Synthesizer) (character : CodePoint)
        (plan : TypingPlan) (device : Int),
      (ofText name text format).outcome = .ok synthesizer.map →
        (∃ state : MetaState, synthesizer.locks = state.lockBits) →
          synthesizer.held ⊆ ModifierGroup.ephemeralKeys →
            synthesizer.plan [character] = .ok plan → plan.code.isModifier = false →
              (synthesizer.map.readPress device plan.code
                (MetaState.held plan.target synthesizer.locks)).map (·.character) =
                  [some character] := by
  intro hread
  have htypable : odd.Typable (MetaState.lockBits 0) (.scalar 'a') :=
    ⟨29, [], by decide, by decide⟩
  obtain ⟨plan, hplan⟩ := exists_plan_odd htypable
  have htyped := Synthesizer.character?_of_plan? (Synthesizer.plan_eq_ok_iff.mp hplan)
  obtain ⟨behavior, hbehavior, hown⟩ := Option.bind_eq_some_iff.mp htyped
  have hcode : plan.code = 29 := by simpa using character?_odd htyped
  obtain rfl : behavior = { character := some (.scalar 'a'), replacement := some 30 } := by
    simpa [hcode] using behavior?_odd hbehavior
  have hpress := hread "odd" oddText .base (.start odd 0 0) (.scalar 'a') plan 0 ofText_odd
    ⟨0, rfl⟩ (by decide) hplan (hcode ▸ by decide)
  rw [characters_readPress hbehavior] at hpress
  -- what is read is a character of the key that takes the place of the planned one
  have hother := character?_odd (List.singleton_inj.mp hpress)
  simp at hother

end KeyMap

end KeyLayout
