import KeyLayout.Behavior.Basic
import KeyLayout.KeyboardType
import KeyLayout.Table

namespace KeyLayout

/-! A key map: what every key does, which key a device code stands for, and which key
acts as another. -/

structure KeyMap where
  name : Text
  type : KeyboardType := .unknown
  keys : Table KeyCode Key := .empty
  scanCodes : Table DeviceCode KeyCode := .empty
  usageCodes : Table DeviceCode KeyCode := .empty
  remapping : Table KeyCode KeyCode := .empty
  overlaid : Bool := false
  deriving DecidableEq

/-- Equal but for the order of the tables. -/
def KeyMap.agrees (first second : KeyMap) : Bool :=
  first.name = second.name && first.type = second.type &&
    first.keys.agrees second.keys && first.scanCodes.agrees second.scanCodes &&
    first.usageCodes.agrees second.usageCodes &&
    first.remapping.agrees second.remapping && first.overlaid = second.overlaid

end KeyLayout
