import KeyLayout.Proofs.Modifier.Runs
import KeyLayout.Stream
import Mathlib.Data.List.Infix

namespace KeyLayout

/-! A stream is read in one pass.  Every press shows what its key does under the modifiers
that the presses and releases up to it have left, and nothing else counts. -/

/-- The steps of keys among events; a repeated event is none. -/
def KeyEvent.steps (events : List KeyEvent) : List KeyStep :=
  (events.filter (·.press ≠ .repeated)).map fun event => ⟨event.code, event.isPress⟩

namespace MetaState

variable {state : MetaState} {event : KeyEvent}

theorem follow_eq_updateAll (state : MetaState) (event : KeyEvent) :
    state.follow event = state.updateAll (KeyEvent.steps [event]) := by
  cases hpress : event.press <;>
    simp [follow, updateAll, KeyEvent.steps, KeyEvent.isPress, hpress]

theorem foldl_follow (state : MetaState) (events : List KeyEvent) :
    events.foldl follow state = state.updateAll (KeyEvent.steps events) := by
  induction events generalizing state with
  | nil => rfl
  | cons event rest ih =>
      have hsteps : KeyEvent.steps (event :: rest) =
          KeyEvent.steps [event] ++ KeyEvent.steps rest := by
        rw [← List.singleton_append]
        simp only [KeyEvent.steps, List.filter_append, List.map_append]
      rw [List.foldl_cons, ih, follow_eq_updateAll, hsteps, updateAll, updateAll, updateAll,
        List.foldl_append]

end MetaState

namespace KeyMap

variable {map : KeyMap} {state : MetaState} {event : KeyEvent} {events fewer : List KeyEvent}

/-- What the map gives for a press at a meta state. -/
def readPressed (map : KeyMap) (state : MetaState) (event : KeyEvent) : AnnotatedEvent :=
  let (code, own) := map.applyBehavior event.code state
  { device := event.device
    code := code
    press := .pressed
    state := own
    character := map.character? code own
    fallback := map.fallbackAction? code own
    isModifier := code.isModifier }

theorem keystream_cons (event : KeyEvent) (rest : List KeyEvent) :
    map.keystream state (event :: rest) =
      (([{ event with state := state.follow event }].map (KeyEvent.replaced map)).filter
        KeyEvent.isPress).map (KeyEvent.annotate map) ++
          map.keystream (state.follow event) rest := by
  simp only [keystream, Section.applyAll, List.foldl_cons, List.foldl_nil, Section.apply,
    MetaState.track, List.map_cons, List.map_nil, List.filter_cons, List.filter_nil]
  split <;> simp

theorem keystream_singleton (event : KeyEvent) :
    map.keystream state [event] =
      if event.isPress then [map.readPressed (state.follow event) event] else [] := by
  have hnil : map.keystream (state.follow event) [] = [] := rfl
  rw [keystream_cons, hnil, List.append_nil, List.map_singleton]
  obtain ⟨device, code, press, shown⟩ := event
  cases press <;> rfl

theorem keystream_cons_eq (event : KeyEvent) (rest : List KeyEvent) :
    map.keystream state (event :: rest) =
      map.keystream state [event] ++ map.keystream (state.follow event) rest := by
  have hnil : map.keystream (state.follow event) [] = [] := rfl
  rw [keystream_cons, keystream_cons, hnil, List.append_nil]

theorem keystream_append (before after : List KeyEvent) :
    map.keystream state (before ++ after) =
      map.keystream state before ++ map.keystream (before.foldl MetaState.follow state) after := by
  induction before generalizing state with
  | nil => rfl
  | cons event rest ih =>
      rw [List.cons_append, keystream_cons_eq, ih, keystream_cons_eq event rest,
        List.append_assoc, List.foldl_cons]

/-- What the last event of a history shows, if it is a press. -/
def shown? (map : KeyMap) (state : MetaState) (history : List KeyEvent) :
    Option AnnotatedEvent :=
  (history.getLast?.filter (·.isPress)).map
    (map.readPressed (state.updateAll (KeyEvent.steps history)))

theorem keystream_eq_filterMap_inits (state : MetaState) (events : List KeyEvent) :
    map.keystream state events = events.inits.filterMap (map.shown? state) := by
  induction events using List.reverseRecOn with
  | nil => rfl
  | append_singleton before event ih =>
      have hinits : (before ++ [event]).inits = before.inits ++ [before ++ [event]] := by
        rw [List.inits_append]
        rfl
      have hstate : (before.foldl MetaState.follow state).follow event =
          state.updateAll (KeyEvent.steps (before ++ [event])) := by
        rw [← MetaState.foldl_follow, List.foldl_append]
        rfl
      rw [hinits, List.filterMap_append, keystream_append, ih, keystream_singleton, hstate]
      congr 1
      cases hpress : event.isPress <;> simp [shown?, hpress]

end KeyMap

/-- Some repeated events and some releases of keys that are no modifiers are left out, and
the meta states that the other events carry may be any. -/
inductive KeyEvent.Thins : List KeyEvent → List KeyEvent → Prop
  | nil : Thins [] []
  | keep {event : KeyEvent} {rest fewer : List KeyEvent} (shown : MetaState)
      (hrest : Thins rest fewer) : Thins (event :: rest) ({ event with state := shown } :: fewer)
  | dropRepeated {event : KeyEvent} {rest fewer : List KeyEvent}
      (hpress : event.press = .repeated) (hrest : Thins rest fewer) : Thins (event :: rest) fewer
  | dropRelease {event : KeyEvent} {rest fewer : List KeyEvent}
      (hpress : event.press = .released) (hplain : event.code.isModifier = false)
      (hrest : Thins rest fewer) : Thins (event :: rest) fewer

/-- The key of a device code; the scan code is asked only if the usage code has none. -/
inductive KeyMap.Knows (map : KeyMap) (event : RawKeyEvent) : KeyCode → Prop
  | usage {device : DeviceCode} {code : KeyCode} (hdevice : event.usage = some device)
      (hcode : map.usageCodes.get? device = some code) : Knows map event code
  | scan {device : DeviceCode} {code : KeyCode}
      (husage : ∀ usage ∈ event.usage, map.usageCodes.get? usage = none)
      (hdevice : event.scan = some device) (hcode : map.scanCodes.get? device = some code) :
      Knows map event code

/-- One hop to the key that takes the place of another. -/
inductive KeyMap.Hops (map : KeyMap) (code : KeyCode) : KeyCode → Prop
  | hop {target : KeyCode} (htarget : map.remapping.get? code = some target) : Hops map code target
  | stay (hnone : map.remapping.get? code = none) : Hops map code code

namespace KeyMap

variable {map : KeyMap} {state : MetaState} {events fewer : List KeyEvent}

theorem keystream_of_idle {event : KeyEvent} (hpress : event.isPress = false)
    (hfollow : state.follow event = state) (rest : List KeyEvent) :
    map.keystream state (event :: rest) = map.keystream state rest := by
  rw [keystream_cons_eq, keystream_singleton, hpress, hfollow]
  rfl

theorem keystream_of_thins (hthins : KeyEvent.Thins events fewer) :
    map.keystream state events = map.keystream state fewer := by
  induction hthins generalizing state with
  | nil => rfl
  | @keep event rest fewer shown hrest ih =>
      rw [keystream_cons_eq, keystream_singleton, ih,
        keystream_cons_eq { event with state := shown }, keystream_singleton]
      rfl
  | @dropRepeated event rest fewer hpress hrest ih =>
      rw [← ih]
      apply keystream_of_idle
      · simp [KeyEvent.isPress, hpress]
      · rw [MetaState.follow, hpress]
  | @dropRelease event rest fewer hpress hplain hrest ih =>
      rw [← ih]
      apply keystream_of_idle
      · simp [KeyEvent.isPress, hpress]
      · rw [MetaState.follow, hpress]
        exact MetaState.update_of_not_isModifier hplain false

theorem knows_iff {event : RawKeyEvent} {code : KeyCode} :
    map.Knows event code ↔ map.deviceKey? event.scan event.usage = some code := by
  constructor
  · intro hknows
    cases hknows with
    | usage hdevice hcode => simp [deviceKey?, hdevice, hcode]
    | scan husage hdevice hcode =>
        have hnone : event.usage.bind map.usageCodes.get? = none :=
          Option.bind_eq_none_iff.mpr husage
        simp [deviceKey?, hnone, hdevice, hcode]
  · intro hkey
    rcases Option.or_eq_some_iff.mp hkey with husage | ⟨hnone, hscan⟩
    · obtain ⟨device, hdevice, hcode⟩ := Option.bind_eq_some_iff.mp husage
      exact .usage hdevice hcode
    · obtain ⟨device, hdevice, hcode⟩ := Option.bind_eq_some_iff.mp hscan
      exact .scan (Option.bind_eq_none_iff.mp hnone) hdevice hcode

theorem hops_iff {code target : KeyCode} :
    map.Hops code target ↔ map.applyRemapping code = target := by
  rw [applyRemapping]
  constructor
  · intro hhops
    cases hhops with
    | hop htarget => rw [htarget, Option.getD_some]
    | stay hnone => rw [hnone, Option.getD_none]
  · rintro rfl
    cases hfound : map.remapping.get? code with
    | none => exact .stay hfound
    | some target => exact .hop hfound

theorem resolve?_eq_some_iff {event : RawKeyEvent} {resolved : KeyEvent} :
    map.resolve? event = some resolved ↔
      ∃ code target, map.Knows event code ∧ map.Hops code target ∧
        resolved = { device := event.device, code := target, press := event.press } := by
  simp only [resolve?, Option.map_eq_some_iff, knows_iff, hops_iff]
  constructor
  · rintro ⟨code, hcode, rfl⟩
    exact ⟨code, _, hcode, rfl, rfl⟩
  · rintro ⟨code, target, hcode, rfl, rfl⟩
    exact ⟨code, hcode, rfl⟩

/-- The stream of a map is one pass over the events.  What is left out of the pass does not
change it, and raw events enter it as the events that they stand for. -/
theorem keystream_folds (map : KeyMap) (state : MetaState) :
    (∀ events, map.keystream state events = events.inits.filterMap (map.shown? state)) ∧
      (∀ events fewer, KeyEvent.Thins events fewer →
        map.keystream state events = map.keystream state fewer) ∧
      (∀ events, map.rawKeystream state events =
        map.keystream state (events.filterMap map.resolve?)) ∧
      ∀ event resolved, map.resolve? event = some resolved ↔
        ∃ code target, map.Knows event code ∧ map.Hops code target ∧
          resolved = { device := event.device, code := target, press := event.press } :=
  ⟨keystream_eq_filterMap_inits state, fun _ _ => keystream_of_thins, fun _ => rfl,
    fun _ _ => resolve?_eq_some_iff⟩

/-- Shift is let go while its key is down, and the release of the shift counts. -/
def shifted : List KeyEvent :=
  [⟨1, 59, .pressed, 0⟩, ⟨1, 30, .pressed, 0⟩, ⟨1, 30, .repeated, 0⟩, ⟨1, 59, .released, 0⟩,
    ⟨1, 30, .released, 0⟩, ⟨1, 30, .pressed, 0⟩]

def twoCases : KeyMap where
  name := []
  keys := ⟨[(30, { behaviors := [
    { mask := 1, character := some (.scalar 'B') }, { character := some (.scalar 'b') }] })],
    by decide⟩

theorem keystream_folds_shifted :
    KeyEvent.Thins shifted
        [⟨1, 59, .pressed, 0⟩, ⟨1, 30, .pressed, 0x41⟩, ⟨1, 59, .released, 9⟩,
          ⟨1, 30, .pressed, 0⟩] ∧
      twoCases.keystream 0 shifted =
        twoCases.keystream 0 [⟨1, 59, .pressed, 0⟩, ⟨1, 30, .pressed, 0x41⟩,
          ⟨1, 59, .released, 9⟩, ⟨1, 30, .pressed, 0⟩] ∧
      (twoCases.keystream 0 shifted).map (·.character) =
        [none, some (.scalar 'B'), some (.scalar 'b')] := by
  have hthins : KeyEvent.Thins shifted
      [⟨1, 59, .pressed, 0⟩, ⟨1, 30, .pressed, 0x41⟩, ⟨1, 59, .released, 9⟩,
        ⟨1, 30, .pressed, 0⟩] :=
    .keep 0 (.keep 0x41 (.dropRepeated rfl (.keep 9 (.dropRelease rfl rfl (.keep 0 .nil)))))
  exact ⟨hthins, (keystream_folds twoCases 0).2.1 _ _ hthins, by decide⟩

end KeyMap

end KeyLayout
