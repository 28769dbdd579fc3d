import KeyLayout.KeyMap.Basic

namespace KeyLayout

/-! From device codes to key codes, and from key codes to the ones that replace them. -/

structure RemappingOutOfRange where
  source : KeyCode
  target : KeyCode

def RemappingOutOfRange.message (error : RemappingOutOfRange) : Text :=
  match Numeral.write? error.source, Numeral.write? error.target with
  | some source, some target => Text.join ["Key codes out of range: ", source, " -> ", target]
  | _, _ => Numeral.tooLong

namespace KeyMap

/-- The key of a device code; the usage code is asked first. -/
def deviceKey? (map : KeyMap) (scan usage : Option DeviceCode) : Option KeyCode :=
  (usage.bind map.usageCodes.get?).or (scan.bind map.scanCodes.get?)

def addRemapping (map : KeyMap) (source target : KeyCode) :
    Except RemappingOutOfRange KeyMap :=
  if source.InRange ∧ target.InRange then
    .ok { map with remapping := map.remapping.insert source target }
  else
    .error ⟨source, target⟩

/-- One hop only, so that cycles do no harm. -/
def applyRemapping (map : KeyMap) (code : KeyCode) : KeyCode :=
  (map.remapping.get? code).getD code

end KeyMap

end KeyLayout
