import KeyLayout.Proofs.Stream
import KeyLayout.Proofs.Typing.Run

namespace KeyLayout

/-! What a text was typed as is read back from its events.  The tracked meta state need
not equal the one of the synthesizer, but it shows the same keys and locks, and no mask
tells the two apart. -/

namespace MetaState

open ModifierGroup (ephemeral ephemeralKeys)

/-- Every pair of keys that is held is held on a side. -/
def SidesNamed (state : MetaState) : Prop :=
  ∀ group : ModifierGroup, group.isPaired = true → state.testBit group.genericBit = true →
    (group.sides state).isSided = true

variable {state : MetaState} {group : ModifierGroup}

theorem contains_groupKeys (hhold : group.isLock = false) (hsided : state.SidesNamed) :
    ∀ key ∈ group.modifierKeys,
      (state.groupKeys group).contains key.code = state.testBit key.bit := by
  have hgroup := hsided group
  intro key hkey
  cases group <;>
    simp_all [groupKeys, ModifierGroup.sides, ModifierGroup.sideBits?, Sides.isSided,
      Sides.isEmpty, ModifierGroup.modifierKeys, ModifierGroup.isPaired, ModifierGroup.keys,
      ModifierGroup.isLock, ModifierGroup.genericBit]
  all_goals
    rcases hkey with rfl | rfl <;> split <;> grind

theorem mem_heldKeys (state : MetaState) {code : KeyCode} (hgroup : group ∈ ephemeral)
    (hcode : code ∈ group.keys) :
    code ∈ state.heldKeys ↔ code ∈ state.groupKeys group := by
  constructor
  · intro hmem
    obtain ⟨other, -, hother⟩ := List.mem_flatMap.mp hmem
    have hkeys := (Synthesizer.groupKeys_sublist state other).subset hother
    exact ModifierGroup.eq_of_mem_keys hkeys hcode ▸ hother
  · exact fun hmem => List.mem_flatMap.mpr ⟨group, hgroup, hmem⟩

/-- The keys that account for a state are those that it shows. -/
theorem Shows.heldKeys (hsided : state.SidesNamed) :
    state.Shows state.heldKeys state.lockBits where
  keyBit key hkey hhold := by
    have hmem := ModifierKey.mem_all_iff.mp hkey
    have hcode := mem_heldKeys state (ModifierGroup.mem_ephemeral.mpr hhold)
      (ModifierGroup.mem_keys.mpr ⟨key, hmem, rfl⟩)
    rw [← contains_groupKeys hhold hsided key hmem, Bool.eq_iff_iff]
    simpa using hcode.symm
  genericBit group hhold hbit := by
    have hkey : ∃ key ∈ group.modifierKeys, state.testBit key.bit = true := by
      cases hpaired : group.isPaired with
      | true =>
          have hsides := hsided group hpaired hbit
          rw [ModifierGroup.isSided_sides, hpaired, Bool.true_and] at hsides
          exact List.any_eq_true.mp hsides
      | false =>
          cases group <;>
            simp_all [ModifierGroup.isPaired, ModifierGroup.sideBits?,
              ModifierGroup.modifierKeys, ModifierGroup.genericBit]
    obtain ⟨key, hkey, hdown⟩ := hkey
    have hcode := ModifierGroup.mem_keys.mpr ⟨key, hkey, rfl⟩
    rw [← contains_groupKeys hhold hsided key hkey, List.contains_iff_mem] at hdown
    exact ⟨key.code, hcode,
      (mem_heldKeys state (ModifierGroup.mem_ephemeral.mpr hhold) hcode).mpr hdown⟩
  lockBit group hlock := (testBit_lockBits_of_isLock state hlock).symm

end MetaState

namespace KeyMap

/-- No modifier key does anything but modify, and no key is replaced that types. -/
structure Replayable (map : KeyMap) : Prop where
  keys_eq_none : ∀ key ∈ ModifierKey.all, map.keys.get? key.code = none
  replacement_eq_none : ∀ code key, map.keys.get? code = some key →
    ∀ behavior ∈ key.behaviors, behavior.character = none ∨ behavior.replacement = none

def typedCharacters (map : KeyMap) (state : MetaState) (events : List KeyEvent) :
    List (Option CodePoint) :=
  ((map.keystream state events).filter (!·.isModifier)).map (·.character)

section

variable {map : KeyMap} {state : MetaState} {event : KeyEvent}

theorem isPress_replaced (map : KeyMap) (event : KeyEvent) :
    (event.replaced map).isPress = event.isPress :=
  rfl

theorem typedCharacters_of_isPress_eq_false (hpress : event.isPress = false)
    (rest : List KeyEvent) :
    map.typedCharacters state (event :: rest) =
      map.typedCharacters (state.follow event) rest := by
  have hfollowed : ({ event with state := state.follow event } : KeyEvent).isPress = false :=
    hpress
  rw [typedCharacters, keystream_cons, List.map_singleton, List.filter_cons,
    isPress_replaced, hfollowed]
  rfl

theorem replaced_of_behavior?_eq_none (hnone : map.behavior? event.code event.state = none) :
    event.replaced map = event := by
  rw [KeyEvent.replaced, applyBehavior, hnone]

theorem typedCharacters_of_modifier (hmap : map.Replayable)
    (hmodifier : event.code.isModifier = true) (rest : List KeyEvent) :
    map.typedCharacters state (event :: rest) =
      map.typedCharacters (state.follow event) rest := by
  cases hpress : event.isPress with
  | false => exact typedCharacters_of_isPress_eq_false hpress rest
  | true =>
      obtain ⟨key, hall, hcode⟩ := KeyCode.isModifier_iff.mp hmodifier
      have hnone : map.behavior? event.code (state.follow event) = none := by
        rw [behavior?, ← hcode, hmap.keys_eq_none key hall]
        rfl
      rw [typedCharacters, keystream_cons, List.map_singleton,
        replaced_of_behavior?_eq_none hnone]
      simp [typedCharacters, List.filter_cons, KeyEvent.annotate, hmodifier]

/-- A tapped key that types leaves the state alone and is read back as it is. -/
theorem typedCharacters_tap (hmap : map.Replayable) {code : KeyCode} {character : CodePoint}
    (hcharacter : map.character? code state = some character) (device : Int)
    (shown : MetaState) (rest : List KeyEvent) :
    map.typedCharacters state
        (⟨device, code, .pressed, shown⟩ :: ⟨device, code, .released, shown⟩ :: rest) =
      some character :: map.typedCharacters state rest := by
  obtain ⟨key, behavior, hkey, hfind, hown⟩ := character?_eq_some_iff.mp hcharacter
  have hmodifier := isModifier_eq_false_of_character? hmap.keys_eq_none hcharacter
  have hfollow : ∀ press, state.follow ⟨device, code, press, shown⟩ = state := by
    intro press
    cases press <;> simp [MetaState.follow, MetaState.update_of_not_isModifier hmodifier]
  have hreplaced : map.applyBehavior code state = (code, state) := by
    have hnone := (hmap.replacement_eq_none code key hkey behavior
      (List.mem_of_find?_eq_some hfind)).resolve_left (by rw [hown]; simp)
    obtain ⟨mask, own, fallback, replacement⟩ := behavior
    obtain rfl : replacement = none := hnone
    rw [applyBehavior, behavior?, hkey, Option.bind_some, hfind]
  have hrelease : map.typedCharacters state (⟨device, code, .released, shown⟩ :: rest) =
      map.typedCharacters state rest := by
    rw [typedCharacters_of_isPress_eq_false rfl, hfollow]
  rw [← hrelease]
  simp only [typedCharacters]
  rw [keystream_cons, hfollow]
  simp [KeyEvent.replaced, hreplaced, KeyEvent.isPress, KeyEvent.annotate, hmodifier,
    hcharacter]

end

end KeyMap

namespace Synthesizer

variable {first second : Synthesizer} {tracked : MetaState} {events : List KeyEvent}

/-- The tracked state follows the moves of the synthesizer, and nothing is read. -/
theorem Moves.replay (hmoves : Moves first events second) (hmap : first.map.Replayable)
    (hconsistent : first.Consistent) (htracked : tracked.Shows first.held first.locks) :
    ∃ reached : MetaState, reached.Shows second.held second.locks ∧
      ∀ rest, first.map.typedCharacters tracked (events ++ rest) =
        first.map.typedCharacters reached rest := by
  induction hmoves generalizing tracked with
  | done => exact ⟨tracked, htracked, fun rest => rfl⟩
  | @press synthesizer last code events hcode hup hrest ih =>
      obtain ⟨key, hkey, hhold, rfl⟩ := ModifierGroup.exists_key_of_mem_ephemeralKeys hcode
      obtain ⟨reached, hreached, hread⟩ :=
        ih hmap (hconsistent.pressNew hcode hup) (htracked.press hkey hhold)
      refine ⟨reached, hreached, fun rest => ?_⟩
      rw [List.cons_append, KeyMap.typedCharacters_of_modifier hmap]
      · exact hread rest
      · exact KeyCode.isModifier_iff.mpr ⟨key, hkey, rfl⟩
  | @letGo synthesizer last code events hdown hrest ih =>
      obtain ⟨key, hkey, hhold, rfl⟩ :=
        ModifierGroup.exists_key_of_mem_ephemeralKeys (hconsistent.held_subset hdown)
      obtain ⟨reached, hreached, hread⟩ :=
        ih hmap (hconsistent.letGo _) (htracked.letGo hkey hhold hconsistent.nodup)
      refine ⟨reached, hreached, fun rest => ?_⟩
      rw [List.cons_append, KeyMap.typedCharacters_of_modifier hmap]
      · exact hread rest
      · exact KeyCode.isModifier_iff.mpr ⟨key, hkey, rfl⟩

theorem character?_of_strikes {stroke : Stroke} {character : CodePoint}
    {next : Option CodePoint} (hstrikes : stroke.Strikes character next)
    (hconsistent : stroke.start.Consistent)
    (htracked : tracked.Shows stroke.held.held stroke.held.locks) :
    stroke.start.map.character? stroke.plan.code tracked = some character := by
  obtain ⟨events, hmoves, -, hheld⟩ := hstrikes.moves_held hconsistent
  obtain ⟨state, hlocks⟩ := hconsistent.locks_eq
  have hplanned := character?_of_plan? hstrikes.plan_eq
  rw [hlocks] at hplanned
  rw [hmoves.locks_eq, hlocks] at htracked
  have hshows := MetaState.Shows.held hstrikes.target_sublist.subset state
  rw [KeyMap.character?, (htracked.congr fun code _ => hheld code).behavior?_eq hshows]
  exact hplanned

theorem Types.replay {start last : Synthesizer} {text : Text} {strokes : List Stroke}
    (htypes : start.Types text strokes last) (hmap : start.map.Replayable)
    (hconsistent : start.Consistent) (htracked : tracked.Shows start.held start.locks) :
    ∃ events, last.events.toList = start.events.toList ++ events ∧
      start.map.typedCharacters tracked events = text.map some := by
  induction htypes generalizing tracked with
  | done => exact ⟨[], by simp, rfl⟩
  | @strike stroke character rest strokes last hstrikes hrest ih =>
      obtain ⟨opening, hopening, -⟩ := hstrikes.moves_held hconsistent
      obtain ⟨closing, hclosing, -⟩ := hstrikes.moves_released hconsistent
      obtain ⟨held, hheld, hreadOpening⟩ := hopening.replay hmap hconsistent htracked
      have hstruckMap : stroke.struck.map = stroke.start.map := hopening.map_eq
      obtain ⟨released, hreleased, hreadClosing⟩ :=
        hclosing.replay (hstruckMap ▸ hmap) (hstrikes.consistent_struck hconsistent) hheld
      obtain ⟨events, hevents, hread⟩ := ih (hstrikes.map_released hconsistent ▸ hmap)
        (hstrikes.consistent_released hconsistent) hreleased
      rw [hstruckMap] at hreadClosing
      rw [hstrikes.map_released hconsistent] at hread
      refine ⟨opening ++ (⟨stroke.held.device, stroke.plan.code, .pressed, stroke.held.state⟩ ::
        ⟨stroke.held.device, stroke.plan.code, .released, stroke.held.state⟩ ::
          (closing ++ events)), ?_, ?_⟩
      · rw [hevents, hclosing.events_eq, Stroke.struck, events_tap, Array.toList_push,
          Array.toList_push, hopening.events_eq]
        simp
      · rw [hreadOpening, KeyMap.typedCharacters_tap hmap
          (character?_of_strikes hstrikes hconsistent hheld), hreadClosing, hread]
        rfl

end Synthesizer

namespace KeyMap

/-- The characters that are read back from the events of a text are the text. -/
theorem typedCharacters_synthesize {map : KeyMap} {device : Int} {text : Text}
    {state : MetaState} {events : List KeyEvent}
    (hkeys : ∀ key ∈ ModifierKey.all, map.keys.get? key.code = none)
    (hreplacement : ∀ code key, map.keys.get? code = some key →
      ∀ behavior ∈ key.behaviors, behavior.character = none ∨ behavior.replacement = none)
    (hsided : ∀ group : ModifierGroup, group.isPaired = true →
      state.testBit group.genericBit = true → (group.sides state).isSided = true)
    (hevents : map.synthesize device text state = .ok events) :
    ((map.keystream state events).filter (!·.isModifier)).map (·.character) =
      text.map some := by
  obtain ⟨strokes, typed, htypes, rfl⟩ := synthesize_eq_ok_iff.mp hevents
  obtain ⟨events, heq, hread⟩ := htypes.replay ⟨hkeys, hreplacement⟩
    (Synthesizer.consistent_start map device state) (MetaState.Shows.heldKeys hsided)
  rw [heq]
  exact hread

theorem typedCharacters_synthesize_oneKey :
    ∃ events, oneKey.synthesize 0 "aAa" 0x41 = .ok events ∧
      ((oneKey.keystream 0x41 events).filter (!·.isModifier)).map (·.character) =
        (Text.ofString "aAa").map some := by
  obtain ⟨events, hevents⟩ := exists_synthesize 0 typable_oneKey
  refine ⟨events, hevents, typedCharacters_synthesize ?_ ?_ ?_ hevents⟩
  · decide
  · intro code key hkey
    rw [Table.get?_eq_some_iff] at hkey
    obtain ⟨rfl, rfl⟩ : code = 29 ∧ key = _ := by simpa [oneKey] using hkey
    decide
  · intro group
    cases group <;> decide

end KeyMap

end KeyLayout
