import KeyLayout.KeyCode
import KeyLayout.Modifier.MetaState

namespace KeyLayout

/-! Modifier groups.  Each owns a generic bit and, when its keys come in pairs, a left
and a right bit.  Their order is the order in which modifier keys are pressed. -/

inductive ModifierGroup where
  | shift
  | alt
  | ctrl
  | metaKey
  | sym
  | function
  | capsLock
  | numLock
  | scrollLock
  deriving DecidableEq

/-- A modifier key, its group, and the bit that it sets while it is held. -/
structure ModifierKey where
  code : KeyCode
  group : ModifierGroup
  bit : Nat
  deriving DecidableEq

/-- The bits of one group that are set in a meta state. -/
structure Sides where
  generic : Bool
  left : Bool
  right : Bool
  deriving DecidableEq

namespace Sides

def isEmpty (sides : Sides) : Bool :=
  !sides.generic && !sides.left && !sides.right

def isSided (sides : Sides) : Bool :=
  sides.left || sides.right

/-- How many particular sides are named. -/
def count (sides : Sides) : Nat :=
  sides.left.toNat + sides.right.toNat

end Sides

namespace ModifierGroup

def all : List ModifierGroup :=
  [.shift, .alt, .ctrl, .metaKey, .sym, .function, .capsLock, .numLock, .scrollLock]

def name : ModifierGroup → Text
  | .shift => "SHIFT"
  | .alt => "ALT"
  | .ctrl => "CTRL"
  | .metaKey => "META"
  | .sym => "SYM"
  | .function => "FUNCTION"
  | .capsLock => "CAPS_LOCK"
  | .numLock => "NUM_LOCK"
  | .scrollLock => "SCROLL_LOCK"

def ofName? (name : Text) : Option ModifierGroup :=
  all.find? (·.name == name)

def genericBit : ModifierGroup → Nat
  | .shift => 0
  | .alt => 1
  | .sym => 2
  | .function => 3
  | .ctrl => 12
  | .metaKey => 16
  | .capsLock => 20
  | .numLock => 21
  | .scrollLock => 22

/-- The keys of a group, the left one of a pair first.  A key without a partner sets
the generic bit. -/
def modifierKeys : ModifierGroup → List ModifierKey
  | .shift => [⟨59, .shift, 6⟩, ⟨60, .shift, 7⟩]
  | .alt => [⟨57, .alt, 4⟩, ⟨58, .alt, 5⟩]
  | .ctrl => [⟨113, .ctrl, 13⟩, ⟨114, .ctrl, 14⟩]
  | .metaKey => [⟨117, .metaKey, 17⟩, ⟨118, .metaKey, 18⟩]
  | .sym => [⟨63, .sym, 2⟩]
  | .function => [⟨119, .function, 3⟩]
  | .capsLock => [⟨115, .capsLock, 20⟩]
  | .numLock => [⟨143, .numLock, 21⟩]
  | .scrollLock => [⟨116, .scrollLock, 22⟩]

def keys (group : ModifierGroup) : List KeyCode :=
  group.modifierKeys.map (·.code)

def isLock : ModifierGroup → Bool
  | .capsLock | .numLock | .scrollLock => true
  | _ => false

/-- The left and right bit of a group whose keys come in pairs. -/
def sideBits? (group : ModifierGroup) : Option (Nat × Nat) :=
  match group.modifierKeys with
  | [left, right] => some (left.bit, right.bit)
  | _ => none

def isPaired (group : ModifierGroup) : Bool :=
  group.sideBits?.isSome

def bits (group : ModifierGroup) : List Nat :=
  match group.sideBits? with
  | some (left, right) => [group.genericBit, left, right]
  | none => [group.genericBit]

def sides (group : ModifierGroup) (state : MetaState) : Sides where
  generic := state.testBit group.genericBit
  left := group.sideBits?.any fun bits => state.testBit bits.1
  right := group.sideBits?.any fun bits => state.testBit bits.2

/-- The bit that a key of the group sets, if it is one of its keys. -/
def keyBit? (group : ModifierGroup) (code : KeyCode) : Option Nat :=
  (group.modifierKeys.find? (·.code = code)).map (·.bit)

def locks : List ModifierGroup :=
  all.filter isLock

/-- The groups that hold only while a key is down. -/
def ephemeral : List ModifierGroup :=
  all.filter (!·.isLock)

/-- The groups of which some bit is set in a meta state. -/
def within (state : MetaState) : List ModifierGroup :=
  all.filter fun group => group.bits.any state.testBit

end ModifierGroup

/-- A key code asked of a group to which it does not belong. -/
structure ForeignKey where
  group : ModifierGroup
  code : KeyCode

def ForeignKey.message (foreign : ForeignKey) : Text :=
  match Numeral.write? foreign.code with
  | some code => Text.join [code, " is not a key of the ", foreign.group.name, " group"]
  | none => Numeral.tooLong

def ModifierGroup.keyBit (group : ModifierGroup) (code : KeyCode) : Except ForeignKey Nat :=
  match group.keyBit? code with
  | some bit => .ok bit
  | none => .error ⟨group, code⟩

namespace ModifierKey

/-- All modifier keys in the order in which they are pressed. -/
def all : List ModifierKey :=
  ModifierGroup.all.flatMap ModifierGroup.modifierKeys

def ofCode? (code : KeyCode) : Option ModifierKey :=
  all.find? (·.code = code)

/-- The place of a key in the order in which modifier keys are pressed. -/
def rank? (code : KeyCode) : Option Nat :=
  all.findIdx? (·.code = code)

end ModifierKey

def KeyCode.isModifier (code : KeyCode) : Bool :=
  (ModifierKey.ofCode? code).isSome

/-- The state with the bits of every group that the mask touches clear. -/
def MetaState.clearGroups (state mask : MetaState) : MetaState :=
  (ModifierGroup.within mask).foldl (fun rest group => rest.clearBits group.bits) state

def MetaState.hasModifier (state : MetaState) : Bool :=
  !(ModifierGroup.within state).isEmpty

/-- What is left of a state when only its lock bits are kept. -/
def MetaState.lockBits (state : MetaState) : MetaState :=
  MetaState.setBits 0 ((ModifierGroup.locks.map ModifierGroup.genericBit).filter state.testBit)

end KeyLayout
