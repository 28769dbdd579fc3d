import KeyLayout.Modifier.Group

namespace KeyLayout

/-! How meta states follow modifier keys, and which keys account for a meta state. -/

namespace MetaState

/-- The state after a key goes down or up.  A held key sets its bit and the generic bit
of its group; the generic bit stays until neither side is held.  Lock keys toggle. -/
def update (state : MetaState) (code : KeyCode) (down : Bool) : MetaState :=
  match ModifierKey.ofCode? code with
  | none => state
  | some key =>
      let generic := key.group.genericBit
      if key.group.isLock then
        if down then state.flipBit generic else state
      else if down then
        (state.setBit key.bit).setBit generic
      else
        let rest := (state.clearBit key.bit).clearBit generic
        if (key.group.sides rest).isSided then rest.setBit generic else rest

/-- The state when these keys are held on top of the locks. -/
def held (keys : List KeyCode) (locks : MetaState) : MetaState :=
  keys.foldl (fun state code => state.update code true) locks

/-- The keys of a group that account for its bits; the left one if no side is set. -/
def groupKeys (state : MetaState) (group : ModifierGroup) : List KeyCode :=
  let sides := group.sides state
  if group.isPaired && sides.isSided then
    (group.keys.zip [sides.left, sides.right]).filterMap fun (code, set) =>
      if set then some code else none
  else if sides.isEmpty then
    []
  else
    group.keys.take 1

/-- The keys that account for the held, not locked, modifiers of a state. -/
def heldKeys (state : MetaState) : List KeyCode :=
  ModifierGroup.ephemeral.flatMap state.groupKeys

end MetaState

/-- A key without a place in the order of the modifier keys. -/
structure NotAModifier where
  code : KeyCode

def NotAModifier.message (error : NotAModifier) : Text :=
  Text.ofInt error.code

namespace ModifierKey

def inOrder (first second : KeyCode) : Bool :=
  (rank? first).getD 0 ≤ (rank? second).getD 0

/-- The keys in the order in which they are pressed. -/
def sort (keys : List KeyCode) : Except NotAModifier (List KeyCode) :=
  match keys.find? (!·.isModifier) with
  | some code => .error ⟨code⟩
  | none => .ok (keys.mergeSort inOrder)

/-- The keys in the order in which they are released; equal ones keep their places. -/
def sortForRelease (keys : List KeyCode) : Except NotAModifier (List KeyCode) :=
  match keys.find? (!·.isModifier) with
  | some code => .error ⟨code⟩
  | none => .ok (keys.mergeSort fun first second => inOrder second first)

end ModifierKey

end KeyLayout
