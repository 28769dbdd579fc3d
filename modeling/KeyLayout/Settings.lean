import KeyLayout.Files.Tree
import KeyLayout.Json.Reader
import KeyLayout.Json.Writer
import KeyLayout.KeyCode
import KeyLayout.Modifier.Combination
import KeyLayout.Session
import KeyLayout.Table

namespace KeyLayout

/-! Settings: which layouts to load, which keys to remap, and where typing starts. -/

structure Settings where
  keymapPaths : List Path
  baseLayout : Text
  overlayLayouts : List Text := []
  remapping : Table KeyCode KeyCode := .empty
  deviceId : Int := 0
  metaState : Text := "base"
  deriving DecidableEq

inductive SettingsError where
  | json (error : JsonError)
  /-- The document is no object. -/
  | notObject
  /-- A field is missing or cannot be converted. -/
  | invalid
  | read (error : ReadError)

def SettingsError.message : SettingsError → Text
  | .json error => error.message
  | .notObject => "The settings are not an object"
  | .invalid => "The settings lack a field or have an unfit one"
  | .read error => error.message

/-- The file is missing or malformed, rather than unfit for settings. -/
def SettingsError.isExpected : SettingsError → Bool
  | .json error => error.isExpected
  | .read _ => true
  | .notObject | .invalid => false

namespace Json

/-- The items that a value can be taken apart into. -/
def items? : Json → Option (List Json)
  | .array items => some items
  | .text content => some (content.map fun point => .text [point])
  | .object members => some (members.map fun member => .text member.1)
  | _ => none

/-- The integer that a number, a truth value or a numeral stands for. -/
def integer? : Json → Option Int
  | .int value => some value
  | .float value => value.truncate?
  | .bool value => some (if value then 1 else 0)
  | .text content => Numeral.decimalInteger? content
  | _ => none

def path? : Json → Option Path
  | .text content => some (.ofText content)
  | _ => none

def keyCode? : Json → Option KeyCode
  | .text label => KeyCode.ofLabel? label
  | _ => none

def keyCodes? : Json → Option (Table KeyCode KeyCode)
  | .object members => do
      let entries ← members.mapM fun (label, target) =>
        return (← KeyCode.ofLabel? label, ← target.keyCode?)
      return .ofList entries
  | _ => none

end Json

namespace Settings

def keymapPathsField : Text := "keymap_paths"
def baseLayoutField : Text := "base_layout"
def overlayLayoutsField : Text := "overlay_layouts"
def remappingField : Text := "key_remapping"
def deviceIdField : Text := "device_id"
def metaStateField : Text := "meta_state"

/-- A field that may be absent, but not be of another kind. -/
def optionalField {α : Type} (members : List (Text × Json)) (name : Text)
    (convert : Json → Option α) (default : α) : Option α :=
  match members.lookup name with
  | some value => convert value
  | none => some default

def ofMembers? (members : List (Text × Json)) : Option Settings := do
  let paths ← (← (← members.lookup keymapPathsField).items?).mapM Json.path?
  let base ← members.lookup baseLayoutField
  let overlays ← optionalField members overlayLayoutsField
    (fun value => value.items?.map (·.map Json.toText)) []
  let remapping ← optionalField members remappingField Json.keyCodes? .empty
  let device ← optionalField members deviceIdField Json.integer? 0
  let state ← optionalField members metaStateField (fun value => some value.toText) "base"
  return {
    keymapPaths := paths
    baseLayout := base.toText
    overlayLayouts := overlays
    remapping := remapping
    deviceId := device
    metaState := state }

def ofText (text : Text) : Except SettingsError Settings :=
  match Json.ofText text with
  | .error error => .error (.json error)
  | .ok (.object members) =>
      match ofMembers? members with
      | some settings => .ok settings
      | none => .error .invalid
  | .ok _ => .error .notObject

def load {m : Type → Type} [Monad m] (files : Files m) (path : Path) :
    Session m SettingsError Settings := do
  let text ← (Session.readText files path).mapError .read
  Session.ofExcept (ofText text)

def toJson (settings : Settings) : Json :=
  .object [
    (keymapPathsField, .array (settings.keymapPaths.map fun path => .text path.toText)),
    (baseLayoutField, .text settings.baseLayout),
    (overlayLayoutsField, .array (settings.overlayLayouts.map .text)),
    (remappingField, .object (settings.remapping.entries.map fun (source, target) =>
      (source.label, .text target.label))),
    (deviceIdField, .int settings.deviceId),
    (metaStateField, .text settings.metaState)]

def toText (settings : Settings) : Text :=
  settings.toJson.write 0

/-- The written form, which is all ASCII. -/
def toBytes (settings : Settings) : List UInt8 :=
  settings.toText.map fun point => UInt8.ofNat point.toNat

/-- The tree with the settings in the file at the path. -/
def save (settings : Settings) (tree : FileTree) (path : Path) : Except OpenError FileTree :=
  tree.write path settings.toBytes

def initialState (settings : Settings) : Except CombinationFault MetaState :=
  MetaState.parse settings.metaState

def withInitialState (settings : Settings) (state : MetaState) : Settings :=
  { settings with metaState := state.format }

end Settings

end KeyLayout
