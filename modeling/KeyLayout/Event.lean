import KeyLayout.Behavior.Basic

namespace KeyLayout

/-! Key events: as a device reports them, with their key codes, and with what their keys
produce. -/

/-- As a device reports it, before a key map turns it into a key code. -/
structure RawKeyEvent where
  device : Int
  press : KeyPress
  scan : Option DeviceCode := none
  usage : Option DeviceCode := none
  deriving DecidableEq

/-- The meta state is the one after the event took effect. -/
structure KeyEvent where
  device : Int
  code : KeyCode
  press : KeyPress
  state : MetaState := 0
  deriving DecidableEq

structure AnnotatedEvent extends KeyEvent where
  character : Option CodePoint
  fallback : Option FallbackAction
  isModifier : Bool
  deriving DecidableEq

end KeyLayout
