import KeyLayout.Event
import KeyLayout.Note
import KeyLayout.Typing.Plan

namespace KeyLayout

/-! Typing a text as a person would: modifiers are pressed only when a character needs
them, and kept down while the next one needs them too.  Locks are never toggled. -/

/-- A text that no key types; more or less than one character is never typed. -/
structure Unmappable where
  text : Text

def Unmappable.message (error : Unmappable) : Text :=
  Text.join ["No key produces the character ", Text.quote error.text]

inductive TypingError where
  | unmappable (error : Unmappable)
  | notAModifier (error : NotAModifier)

def TypingError.message : TypingError → Text
  | .unmappable error => error.message
  | .notAModifier error => error.message

/-- The key to tap for a character, and the modifier keys to hold meanwhile. -/
structure TypingPlan where
  code : KeyCode
  target : List KeyCode
  deriving DecidableEq

/-- The keys that are down, those of them that were pressed here and not found down, and
the events so far. -/
structure Synthesizer where
  map : KeyMap
  device : Int
  locks : MetaState
  held : List KeyCode
  ephemeral : List KeyCode := []
  events : Array KeyEvent := #[]
  deriving DecidableEq

/-- The failure of a typing and the state in which it stopped. -/
structure Stopped where
  reached : Synthesizer
  error : TypingError

/-- A key that is to be released and is not down. -/
structure NotHeld where
  code : KeyCode

def NotHeld.message (_ : NotHeld) : Text := "list.remove(x): x not in list"

namespace Synthesizer

def start (map : KeyMap) (device : Int) (state : MetaState) : Synthesizer where
  map := map
  device := device
  locks := state.lockBits
  held := state.heldKeys

def state (synthesizer : Synthesizer) : MetaState :=
  MetaState.held synthesizer.held synthesizer.locks

def candidates (synthesizer : Synthesizer) (character : CodePoint) : List Candidate :=
  synthesizer.map.reverseMatches [character] synthesizer.state (some synthesizer.locks) false

def target? (synthesizer : Synthesizer) (character : CodePoint) (candidate : Candidate) :
    Option (List KeyCode) :=
  synthesizer.map.planModifiers candidate.code candidate.mask character synthesizer.held
    synthesizer.locks

/-- The best candidate that no other behavior hides under any choice of modifiers. -/
def plan? (synthesizer : Synthesizer) (character : CodePoint) : Option TypingPlan :=
  (synthesizer.candidates character).findSome? fun candidate =>
    (synthesizer.target? character candidate).map fun target => ⟨candidate.code, target⟩

def plan (synthesizer : Synthesizer) (text : Text) : Except Unmappable TypingPlan :=
  match text with
  | [character] =>
      match synthesizer.plan? character with
      | some plan => .ok plan
      | none => .error ⟨text⟩
  | _ => .error ⟨text⟩

def emit (synthesizer : Synthesizer) (code : KeyCode) (press : KeyPress) : Synthesizer :=
  { synthesizer with
    events := synthesizer.events.push
      { device := synthesizer.device, code := code, press := press, state := synthesizer.state } }

def press (synthesizer : Synthesizer) (code : KeyCode) : Synthesizer :=
  { synthesizer with held := synthesizer.held ++ [code] }.emit code .pressed

/-- The first of the presses of the key is taken back. -/
def letGo (synthesizer : Synthesizer) (code : KeyCode) : Synthesizer :=
  { synthesizer with
    held := synthesizer.held.erase code
    ephemeral := synthesizer.ephemeral.filter (· ≠ code) }.emit code .released

def release (synthesizer : Synthesizer) (code : KeyCode) : Except NotHeld Synthesizer :=
  if code ∈ synthesizer.held then .ok (synthesizer.letGo code) else .error ⟨code⟩

/-- The key let go, unless only ephemeral keys may be and it is none.  The first release
of a key ends its being ephemeral, so that its other presses stay. -/
def letGoIf (onlyEphemeral : Bool) (synthesizer : Synthesizer) (code : KeyCode) :
    Synthesizer :=
  if onlyEphemeral && !synthesizer.ephemeral.contains code then synthesizer
  else synthesizer.letGo code

/-- Releases the held keys that need not be kept, last pressed group first. -/
def releaseUnless (synthesizer : Synthesizer) (keep : List KeyCode) (onlyEphemeral : Bool) :
    Except NotAModifier Synthesizer := do
  let keys ← ModifierKey.sortForRelease synthesizer.held
  return (keys.filter (!keep.contains ·)).foldl (letGoIf onlyEphemeral) synthesizer

def pressEphemeral (synthesizer : Synthesizer) (code : KeyCode) : Synthesizer :=
  if code ∈ synthesizer.held then
    synthesizer
  else
    let pressed := synthesizer.press code
    { pressed with ephemeral := pressed.ephemeral.insert code }

/-- Afterwards exactly the keys of the target are down. -/
def hold (synthesizer : Synthesizer) (target : List KeyCode) :
    Except NotAModifier Synthesizer := do
  let released ← synthesizer.releaseUnless target false
  return target.foldl pressEphemeral released

def tap (synthesizer : Synthesizer) (code : KeyCode) : Synthesizer :=
  (synthesizer.emit code .pressed).emit code .released

/-- The modifier keys that the next character will need, none if there is no next. -/
def upcoming (synthesizer : Synthesizer) : Option CodePoint → Except Unmappable (List KeyCode)
  | none => .ok []
  | some next => return (← synthesizer.plan [next]).target

/-- The synthesizer after the target is held and the key is tapped. -/
def strike (synthesizer : Synthesizer) (plan : TypingPlan) :
    Except NotAModifier Synthesizer := do
  return (← synthesizer.hold plan.target).tap plan.code

def typeCharacter (synthesizer : Synthesizer) (character : CodePoint)
    (next : Option CodePoint) : Except Stopped Synthesizer :=
  match synthesizer.plan [character] with
  | .error error => .error ⟨synthesizer, .unmappable error⟩
  | .ok plan =>
      match synthesizer.strike plan with
      | .error error => .error ⟨synthesizer, .notAModifier error⟩
      | .ok struck =>
          match struck.upcoming next with
          | .error error => .error ⟨struck, .unmappable error⟩
          | .ok keep =>
              match struck.releaseUnless keep true with
              | .error error => .error ⟨struck, .notAModifier error⟩
              | .ok released => .ok released

def typeText (synthesizer : Synthesizer) : Text → Except Stopped Synthesizer
  | [] => .ok synthesizer
  | character :: rest =>
      match synthesizer.typeCharacter character rest.head? with
      | .error stopped => .error stopped
      | .ok typed => typed.typeText rest

/-- The candidates that were tried in vain before a plan was found. -/
def shadowedNotes (synthesizer : Synthesizer) (character : CodePoint) : List Note :=
  ((synthesizer.candidates character).takeWhile fun candidate =>
    (synthesizer.target? character candidate).isNone).map fun candidate =>
      .shadowed character candidate.mask candidate.code

def characterNotes (synthesizer : Synthesizer) (character : CodePoint)
    (next : Option CodePoint) : List Note :=
  synthesizer.shadowedNotes character ++
    match synthesizer.plan? character with
    | none => []
    | some plan =>
        .chosen character plan.code plan.target ::
          match synthesizer.strike plan, next with
          | .ok struck, some next => struck.shadowedNotes next
          | _, _ => []

/-- What is noted while the text is typed. -/
def typingNotes (synthesizer : Synthesizer) : Text → List Note
  | [] => []
  | character :: rest =>
      synthesizer.characterNotes character rest.head? ++
        match synthesizer.typeCharacter character rest.head? with
        | .error _ => []
        | .ok typed => typed.typingNotes rest

end Synthesizer

/-- The events that type the text, starting from the meta state. -/
def KeyMap.synthesize (map : KeyMap) (device : Int) (text : Text) (state : MetaState) :
    Except TypingError (List KeyEvent) :=
  match (Synthesizer.start map device state).typeText text with
  | .ok typed => .ok typed.events.toList
  | .error stopped => .error stopped.error

end KeyLayout
