import KeyLayout.Modifier.Group
import KeyLayout.Text.Quoted

namespace KeyLayout

/-! Modifier combinations in words: names joined by plus signs. -/

inductive CombinationFault where
  | unknown (name : Text)
  | repeated (name combination : Text)

def CombinationFault.message : CombinationFault → Text
  | .unknown name => Text.join ["Unknown modifier ", Text.quote name]
  | .repeated name combination =>
      Text.join ["Duplicate modifier ", Text.quote name, " in combination ",
        Text.quote combination]

/-- What the group is called when no side is meant. -/
def ModifierGroup.word : ModifierGroup → Text
  | .shift => "shift"
  | .alt => "alt"
  | .ctrl => "ctrl"
  | .metaKey => "meta"
  | .sym => "sym"
  | .function => "fn"
  | .capsLock => "capslock"
  | .numLock => "numlock"
  | .scrollLock => "scrolllock"

def ModifierGroup.leftWord (group : ModifierGroup) : Text :=
  "l" ++ group.word

def ModifierGroup.rightWord (group : ModifierGroup) : Text :=
  "r" ++ group.word

namespace MetaState

/-- Every name of a modifier and the bit that it stands for. -/
def bitNames : List (Text × Nat) :=
  (ModifierGroup.all.flatMap fun group =>
    (group.word, group.genericBit) ::
      match group.sideBits? with
      | some (left, right) => [(group.leftWord, left), (group.rightWord, right)]
      | none => []) ++
  [(Text.ofString "super", ModifierGroup.genericBit .metaKey)]

def bitNamed? (name : Text) : Option Nat :=
  bitNames.lookup name

/-- The texts that stand for no modifier at all. -/
def emptyNames : List Text :=
  ["", "0", "base"]

def parse (text : Text) : Except CombinationFault MetaState :=
  if emptyNames.contains text then
    .ok 0
  else
    (Text.splitOn (.scalar '+') text).foldlM (fun (combined : MetaState) name =>
      match bitNamed? name with
      | none => .error (.unknown name)
      | some bit =>
          if combined.testBit bit then .error (.repeated name text)
          else .ok (combined.setBit bit)) 0

/-- The names of the group's bits; the generic one only when no side is set. -/
def groupWords (state : MetaState) (group : ModifierGroup) : List Text :=
  let sides := group.sides state
  if sides.isSided then
    (if sides.left then [group.leftWord] else []) ++
      (if sides.right then [group.rightWord] else [])
  else if sides.generic then
    [group.word]
  else
    []

def format (state : MetaState) : Text :=
  match ModifierGroup.all.flatMap state.groupWords with
  | [] => "base"
  | words => Text.joinWith "+" words

end MetaState

end KeyLayout
