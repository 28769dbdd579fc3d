import KeyLayout.KeyMap.Lookup

namespace KeyLayout

/-! From characters back to keys and masks. -/

/-- A key and the mask of one of its behaviors. -/
structure Candidate where
  code : KeyCode
  mask : MetaState
  deriving DecidableEq

namespace Candidate

/-- The mask that is preferred comes first, then masks with fewer bits. -/
def precedes (preferred : MetaState) (first second : Candidate) : Bool :=
  let other (candidate : Candidate) : Nat := if candidate.mask = preferred then 0 else 1
  other first < other second ||
    (other first = other second && first.mask.bitCount ≤ second.mask.bitCount)

end Candidate

namespace KeyMap

/-- The behaviors that produce one of the characters, in ascending order of their keys;
with locks, only those that agree with them. -/
def producers (map : KeyMap) (characters : List CodePoint) (locks : Option MetaState) :
    List Candidate :=
  map.ascendingKeys.flatMap fun (code, key) =>
    (key.behaviors.filter fun behavior =>
      behavior.character.any characters.contains &&
        locks.all behavior.mask.locksCompatible).map fun behavior => ⟨code, behavior.mask⟩

/-- The keys with one of the characters as label or number; they need no modifiers. -/
def labelled (map : KeyMap) (characters : List CodePoint) : List Candidate :=
  (map.ascendingKeys.filter fun (_, key) =>
    key.label.any characters.contains || key.number.any characters.contains).map
      fun (code, _) => ⟨code, 0⟩

/-- Best first.  Labels and numbers count only when no behavior does. -/
def reverseMatches (map : KeyMap) (characters : List CodePoint) (preferred : MetaState)
    (locks : Option MetaState) (includeLabels : Bool) : List Candidate :=
  match map.producers characters locks with
  | [] => if includeLabels then map.labelled characters else []
  | found => found.mergeSort (Candidate.precedes preferred)

def reverseMatch? (map : KeyMap) (characters : List CodePoint) (preferred : MetaState)
    (locks : Option MetaState) (includeLabels : Bool) : Option Candidate :=
  (map.reverseMatches characters preferred locks includeLabels).head?

end KeyMap

end KeyLayout
