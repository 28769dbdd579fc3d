import KeyLayout.Tool.Transcript

namespace KeyLayout

/-! The tool that prints the events by which a text is typed. -/

/-- One layout file, or the layouts that a settings file names. -/
inductive LayoutChoice where
  | layout (path : Path)
  | settings (path : Path)
  | unnamedSettings
  deriving DecidableEq

structure TypeRequest where
  choice : LayoutChoice
  text : Text
  deviceId : Option Int := none
  metaState : Given Text := .absent
  verbose : Bool := false
  deriving DecidableEq

namespace TypeRequest

def usage : Usage where
  options := [.help, .settings, .metaState, .deviceId, .verbose]
  operands := [.optional, .one]

/-- Either a layout file or a settings file is to be given. -/
def choice? (layout : Option Text) (settings : Given Text) : Option LayoutChoice :=
  match layout, settings with
  | some layout, .absent => some (.layout (.ofText layout))
  | none, .value settings => some (.settings (.ofText settings))
  | none, .blank => some .unnamedSettings
  | _, _ => none

/-- No argument at all for the text means the empty text. -/
def ofArguments (arguments : List Text) : Except Dismissal TypeRequest :=
  match usage.invocation arguments with
  | .error dismissal => .error dismissal
  | .ok invocation =>
      match invocation.operands with
      | [layout, text] =>
          match choice? layout.head? (invocation.given .settings) with
          | none => .error .misuse
          | some choice =>
              .ok {
                choice := choice
                text := text.flatten
                deviceId := (invocation.given .deviceId).value?.bind Numeral.decimalInteger?
                metaState := invocation.given .metaState
                verbose := invocation.has .verbose }
      | _ => .error .misuse

/-- Where typing starts. -/
structure Start where
  map : KeyMap
  deviceId : Int
  state : MetaState

variable {m : Type → Type} [Monad m]

def startOf (files : Files m) : LayoutChoice → Session m ToolError Start
  | .unnamedSettings => throw .noSettings
  | .layout path => do
      let map ← (KeyMap.ofFile files path .base).mapError .load
      return ⟨map, 0, 0⟩
  | .settings path => do
      let settings ← (Settings.load files path).mapError .settings
      let map ← (KeyMap.configured (settings.directories.read files) settings).mapError .load
      let state ← Session.ofExcept (settings.initialState.mapError .combination)
      return ⟨map, settings.deviceId, state⟩

/-- What the request says wins over the settings. -/
def overridden (request : TypeRequest) (start : Start) : Except ToolError Start :=
  let device := request.deviceId.getD start.deviceId
  match request.metaState with
  | .absent => .ok { start with deviceId := device }
  | .blank => .error .noMetaState
  | .value text =>
      match MetaState.parse text with
      | .error fault => .error (.combination fault)
      | .ok state => .ok { start with deviceId := device, state := state }

def eventLine (event : KeyEvent) : Text :=
  Transcript.lineOf (Text.join [event.press.name.padRight 8, " ",
    (KeyCode.label event.code).padRight 16, " ", MetaState.format event.state])

/-- The events of the text, with what was noted while it was typed. -/
def typed (start : Start) (text : Text) : Report ToolError (List KeyEvent) where
  notes := (Synthesizer.start start.map start.deviceId start.state).typingNotes text
  outcome := (start.map.synthesize start.deviceId text start.state).mapError .typing

def eventLines (files : Files m) (request : TypeRequest) : Session m ToolError Text := do
  let start ← startOf files request.choice
  let start ← Session.ofExcept (request.overridden start)
  let events ← Session.ofReport (typed start request.text)
  return events.flatMap eventLine

def run (files : Files m) (request : TypeRequest) : m (Except ToolError Transcript) := do
  let report ← (eventLines files request).report
  return Transcript.ofReport request.verbose ToolError.isExpected report

end TypeRequest

end KeyLayout
