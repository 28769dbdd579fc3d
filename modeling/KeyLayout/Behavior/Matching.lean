import KeyLayout.Behavior.Basic
import KeyLayout.Text.Digit

namespace KeyLayout

/-! Which behavior of a key answers a meta state: the most specific one whose mask
agrees with the state on every modifier group. -/

/-- A group that the mask mentions is held, on the side that it names, and any other
group is not.  A state with the generic bit alone is on either side. -/
def ModifierGroup.compatible (group : ModifierGroup) (mask state : MetaState) : Bool :=
  let wanted := group.sides mask
  let held := group.sides state
  if wanted.isEmpty then
    held.isEmpty
  else
    !held.isEmpty &&
      (!held.isSided || ((!wanted.left || held.left) && (!wanted.right || held.right)))

namespace MetaState

def compatible (mask state : MetaState) : Bool :=
  ModifierGroup.all.all fun group => group.compatible mask state

/-- The mask and the state agree on every lock. -/
def locksCompatible (mask state : MetaState) : Bool :=
  ModifierGroup.locks.all fun group => group.compatible mask state

end MetaState

/-- How particular a mask is: the groups it mentions, then the sides it names, then its
bits. -/
structure Specificity where
  groups : Nat
  sided : Nat
  bits : Nat
  deriving DecidableEq

namespace Specificity

def ofMask (mask : MetaState) : Specificity where
  groups := (ModifierGroup.all.filter fun group => !(group.sides mask).isEmpty).length
  sided := ModifierGroup.all.foldl (fun total group => total + (group.sides mask).count) 0
  bits := mask.bitCount

def atLeast (first second : Specificity) : Bool :=
  first.groups > second.groups ||
    (first.groups = second.groups &&
      (first.sided > second.sided ||
        (first.sided = second.sided && first.bits ≥ second.bits)))

end Specificity

namespace Behavior

def precedes (first second : Behavior) : Bool :=
  (Specificity.ofMask first.mask).atLeast (Specificity.ofMask second.mask)

/-- Most specific first; equally specific ones keep their order. -/
def sort (behaviors : List Behavior) : List Behavior :=
  behaviors.mergeSort precedes

def find? (behaviors : List Behavior) (state : MetaState) : Option Behavior :=
  behaviors.find? fun behavior => behavior.mask.compatible state

/-- Goes through the behaviors for one of the characters, beside the one found so far: the
first that has one and answers the state decides, and otherwise the last that has one. -/
def search (characters : List CodePoint) (state : MetaState) (found : Option CodePoint) :
    List Behavior → Option CodePoint
  | [] => found
  | behavior :: rest =>
      if behavior.character.any characters.contains then
        if behavior.mask.compatible state then behavior.character
        else search characters state behavior.character rest
      else search characters state found rest

def dialingSymbols : Text :=
  "()#*-+,.':;/"

/-- A dialing pad character, least specific first: a digit, else a dialing symbol. -/
def dialingCharacter? (behaviors : List Behavior) : Option CodePoint :=
  let characters := behaviors.reverse.filterMap (·.character)
  (characters.find? CodePoint.isAsciiDigit).or (characters.find? dialingSymbols.contains)

end Behavior

end KeyLayout
