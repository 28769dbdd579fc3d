import KeyLayout.Modifier.Group

namespace KeyLayout

/-! What one key of a layout does. -/

/-- What a key does under the modifiers of its mask: insert a character, let another
key be reported when nobody handles this one, or act as another key outright. -/
structure Behavior where
  mask : MetaState := 0
  character : Option CodePoint := none
  fallback : Option KeyCode := none
  replacement : Option KeyCode := none
  deriving DecidableEq

/-- The character on the cap, the character on a dialing pad, and the behaviors, most
specific mask first. -/
structure Key where
  label : Option CodePoint := none
  number : Option CodePoint := none
  behaviors : List Behavior := []
  deriving DecidableEq

structure FallbackAction where
  code : KeyCode
  state : MetaState
  deriving DecidableEq

end KeyLayout
