import KeyLayout.Event
import KeyLayout.KeyMap.Remapping
import KeyLayout.KeyMap.Lookup
import KeyLayout.Modifier.Tracking

namespace KeyLayout

/-! From events to characters.  Every section turns a list of events into another. -/

namespace KeyMap

/-- The key event of a raw event, unless the map knows neither of its codes. -/
def resolve? (map : KeyMap) (event : RawKeyEvent) : Option KeyEvent :=
  (map.deviceKey? event.scan event.usage).map fun code =>
    { device := event.device, code := map.applyRemapping code, press := event.press }

def resolveAll (map : KeyMap) (events : List RawKeyEvent) : List KeyEvent :=
  events.filterMap map.resolve?

end KeyMap

/-- Repeated events change no modifier. -/
def MetaState.follow (state : MetaState) (event : KeyEvent) : MetaState :=
  match event.press with
  | .repeated => state
  | .pressed => state.update event.code true
  | .released => state.update event.code false

/-- Every event with the meta state after it. -/
def MetaState.track (state : MetaState) : List KeyEvent → List KeyEvent
  | [] => []
  | event :: rest =>
      { event with state := state.follow event } :: track (state.follow event) rest

namespace KeyEvent

/-- The event with the key and state that the map puts in their place. -/
def replaced (map : KeyMap) (event : KeyEvent) : KeyEvent :=
  let (code, state) := map.applyBehavior event.code event.state
  { event with code := code, state := state }

def isPress (event : KeyEvent) : Bool :=
  event.press = .pressed

def annotate (map : KeyMap) (event : KeyEvent) : AnnotatedEvent where
  toKeyEvent := event
  character := map.character? event.code event.state
  fallback := map.fallbackAction? event.code event.state
  isModifier := event.code.isModifier

end KeyEvent

/-- The sections that may stand in a stream of key events. -/
inductive Section where
  | modifierTracking
  | keyBehavior
  | onlyPresses
  deriving DecidableEq

def Section.apply (map : KeyMap) (state : MetaState) (events : List KeyEvent) :
    Section → List KeyEvent
  | .modifierTracking => state.track events
  | .keyBehavior => events.map (KeyEvent.replaced map)
  | .onlyPresses => events.filter KeyEvent.isPress

def Section.applyAll (map : KeyMap) (state : MetaState) (sections : List Section)
    (events : List KeyEvent) : List KeyEvent :=
  sections.foldl (fun events step => step.apply map state events) events

namespace KeyMap

/-- The presses, with the characters and fallbacks of their keys. -/
def keystream (map : KeyMap) (state : MetaState) (events : List KeyEvent) :
    List AnnotatedEvent :=
  (Section.applyAll map state [.modifierTracking, .keyBehavior, .onlyPresses] events).map
    (KeyEvent.annotate map)

def rawKeystream (map : KeyMap) (state : MetaState) (events : List RawKeyEvent) :
    List AnnotatedEvent :=
  map.keystream state (map.resolveAll events)

end KeyMap

end KeyLayout
