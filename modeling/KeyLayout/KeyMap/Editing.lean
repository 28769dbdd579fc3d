import KeyLayout.KeyMap.Overlay
import KeyLayout.KeyMap.Remapping

namespace KeyLayout

/-! Changing a loaded key map in place.  A fault does not take back what was changed
before it. -/

inductive Edit where
  | remap (source target : KeyCode)
  | combine (overlay : KeyMap)
  /-- The source as it is at this time. -/
  | clear (source : Text → Except SourceError Text)

inductive EditError where
  | remapping (error : RemappingOutOfRange)
  | clearing (error : ClearError)

abbrev Editing := ExceptT EditError (StateM KeyMap)

namespace Editing

/-- The fields of another map, copied one after the other. -/
def adopt (other : KeyMap) : Editing Unit := do
  modify fun map => { map with name := other.name }
  modify fun map => { map with type := other.type }
  modify fun map => { map with keys := other.keys }
  modify fun map => { map with scanCodes := other.scanCodes }
  modify fun map => { map with usageCodes := other.usageCodes }
  modify fun map => { map with remapping := other.remapping }
  modify fun map => { map with overlaid := other.overlaid }

def remap (source target : KeyCode) : Editing Unit :=
  if source.InRange ∧ target.InRange then
    modify fun map => { map with remapping := map.remapping.insert source target }
  else
    throw (.remapping ⟨source, target⟩)

def combine (overlay : KeyMap) : Editing Unit := do
  modify fun map => { map with keys := map.keys.override overlay.keys }
  modify fun map => { map with scanCodes := map.scanCodes.override overlay.scanCodes }
  modify fun map => { map with usageCodes := map.usageCodes.override overlay.usageCodes }
  modify fun map => { map with remapping := map.remapping.override overlay.remapping }
  modify fun map => { map with overlaid := true }

def reload (source : Text → Except SourceError Text) (name : Text) : Editing Unit :=
  match source name with
  | .error error =>
      throw (.clearing (if error.isUnavailable then .unavailable name else .source error))
  | .ok text =>
      match (KeyMap.ofText name text .base).outcome with
      | .error error => throw (.clearing (.parse error))
      | .ok reloaded => adopt reloaded

def clear (source : Text → Except SourceError Text) : Editing Unit := do
  let map ← get
  if map.overlaid then
    reload source map.name

end Editing

namespace Edit

def perform : Edit → Editing Unit
  | .remap source target => Editing.remap source target
  | .combine overlay => Editing.combine overlay
  | .clear source => Editing.clear source

/-- How the edit ends on a map, and the map that it leaves. -/
def result (edit : Edit) (map : KeyMap) : Except EditError Unit × KeyMap :=
  edit.perform.run.run map

/-- The map that the edit leaves, whether it fails or not. -/
def after (map : KeyMap) (edit : Edit) : KeyMap :=
  (edit.result map).2

end Edit

def KeyMap.edited (map : KeyMap) (edits : List Edit) : KeyMap :=
  edits.foldl Edit.after map

end KeyLayout
