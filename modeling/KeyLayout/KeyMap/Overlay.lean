import KeyLayout.Grammar.Reading
import KeyLayout.Source

namespace KeyLayout

/-! Overlays are written over a key map, and taken off by reading its layout anew. -/

/-- The overlay's entries win; its type and name do not count. -/
def KeyMap.combine (map overlay : KeyMap) : KeyMap :=
  { map with
    keys := map.keys.override overlay.keys
    scanCodes := map.scanCodes.override overlay.scanCodes
    usageCodes := map.usageCodes.override overlay.usageCodes
    remapping := map.remapping.override overlay.remapping
    overlaid := true }

inductive ClearError where
  | unavailable (name : Text)
  | source (error : SourceError)
  | parse (error : ParseError)

def ClearError.unavailableMessage (name : Text) : Text :=
  Text.join ["Cannot reload key map source ", Text.quote name]

/-- The map as its layout describes it now.  Without an overlay it stays as it is. -/
def KeyMap.clearOverlay (map : KeyMap) (source : Text → Except SourceError Text) :
    Report ClearError KeyMap :=
  if map.overlaid then
    match source map.name with
    | .error error =>
        .fail (if error.isUnavailable then .unavailable map.name else .source error)
    | .ok text => do
        let reloaded ← (KeyMap.ofText map.name text .base).mapError .parse
        Report.tell [.cleared map.name]
        return reloaded
  else
    return map

end KeyLayout
