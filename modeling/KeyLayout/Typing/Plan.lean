import KeyLayout.KeyMap.Reverse
import KeyLayout.Modifier.Tracking

namespace KeyLayout

/-! Which modifier keys to hold while a key types a character.  Keys that are already
down are kept where they do the job. -/

namespace ModifierGroup

/-- The keys of the sides that are asked for. -/
def sideKeys (group : ModifierGroup) (wanted : Sides) : List KeyCode :=
  (group.keys.zip [wanted.left, wanted.right]).filterMap fun (code, asked) =>
    if asked then some code else none

/-- The ways to hold the group as the mask asks, best first: the keys that are down, if
they will do; then the sides that are named, or else either key alone, the left one
first. -/
def options (group : ModifierGroup) (mask : MetaState) (held : List KeyCode) :
    List (List KeyCode) :=
  let wanted := group.sides mask
  if wanted.isEmpty then
    [[]]
  else
    let down := group.keys.filter held.contains
    let kept :=
      if !down.isEmpty && group.compatible mask (MetaState.held down 0) then [down] else []
    let pressed :=
      if group.isPaired && wanted.isSided then [group.sideKeys wanted]
      else group.keys.map ([·])
    (kept ++ pressed).eraseDups

end ModifierGroup

namespace KeyMap

/-- Every way to take one option of each list, the last list varying first. -/
def choices : List (List (List KeyCode)) → List (List KeyCode)
  | [] => [[]]
  | options :: rest => options.flatMap fun option => (choices rest).map (option ++ ·)

/-- The first choice of modifier keys under which the key types the character. -/
def planModifiers (map : KeyMap) (code : KeyCode) (mask : MetaState) (character : CodePoint)
    (held : List KeyCode) (locks : MetaState) : Option (List KeyCode) :=
  (choices (ModifierGroup.ephemeral.map fun group => group.options mask held)).find?
    fun target => map.character? code (MetaState.held target locks) = some character

end KeyMap

end KeyLayout
