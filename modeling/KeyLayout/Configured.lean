import KeyLayout.KeyMap.Overlay
import KeyLayout.KeyMap.Remapping
import KeyLayout.Settings

namespace KeyLayout

/-! The key map that settings describe: the base layout, remapped, under its overlays. -/

inductive LoadError where
  | source (error : SourceError)
  | parse (error : ParseError)
  | remapping (error : RemappingOutOfRange)

def LoadError.message : LoadError → Text
  | .source error => error.message
  | .parse error => error.message
  | .remapping error => error.message

variable {m : Type → Type} [Monad m]

/-- How layouts are read by their names. -/
abbrev LayoutReader (m : Type → Type) := Text → Session m SourceError Text

namespace KeyMap

def load (read : LayoutReader m) (name : Text) (format : Format) :
    Session m LoadError KeyMap := do
  let text ← (read name).mapError .source
  (Session.ofReport (KeyMap.ofText name text format)).mapError .parse

/-- The map of one layout file, which is named by its path. -/
def ofFile (files : Files m) (path : Path) (format : Format) : Session m LoadError KeyMap :=
  load (fun _ => (Session.readText files path).mapError .read) path.toText format

def withRemapping (map : KeyMap) (remapping : Table KeyCode KeyCode) :
    Except RemappingOutOfRange KeyMap :=
  remapping.entries.foldlM (fun map entry => map.addRemapping entry.1 entry.2) map

def addOverlay (read : LayoutReader m) (map : KeyMap) (name : Text) :
    Session m LoadError KeyMap := do
  let overlay ← load read name .overlay
  Session.note (.combined overlay.name map.name)
  return map.combine overlay

def configured (read : LayoutReader m) (settings : Settings) :
    Session m LoadError KeyMap := do
  let base ← load read settings.baseLayout .base
  let remapped ←
    Session.ofExcept ((base.withRemapping settings.remapping).mapError .remapping)
  settings.overlayLayouts.foldlM (addOverlay read) remapped

end KeyMap

/-- The directories in which the layouts of settings are looked up. -/
def Settings.directories (settings : Settings) : LayoutDirectories :=
  ⟨settings.keymapPaths⟩

end KeyLayout
