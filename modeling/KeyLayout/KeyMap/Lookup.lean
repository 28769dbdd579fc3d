import KeyLayout.Behavior.Matching
import KeyLayout.KeyMap.Basic

namespace KeyLayout.KeyMap

/-! What keys produce under a meta state. -/

def behavior? (map : KeyMap) (code : KeyCode) (state : MetaState) : Option Behavior :=
  (map.keys.get? code).bind fun key => Behavior.find? key.behaviors state

def character? (map : KeyMap) (code : KeyCode) (state : MetaState) : Option CodePoint :=
  (map.behavior? code state).bind (·.character)

def label? (map : KeyMap) (code : KeyCode) : Option CodePoint :=
  (map.keys.get? code).bind (·.label)

def number? (map : KeyMap) (code : KeyCode) : Option CodePoint :=
  (map.keys.get? code).bind (·.number)

/-- What to report when nobody handles the key: the fallback of its behavior, without
the modifiers that led to it, or else the fallback of the key without modifiers. -/
def fallbackAction? (map : KeyMap) (code : KeyCode) (state : MetaState) :
    Option FallbackAction :=
  let own := (map.behavior? code state).bind fun behavior =>
    behavior.fallback.map fun fallback =>
      FallbackAction.mk fallback (state.clearGroups behavior.mask)
  let plain := (map.keys.get? code).bind fun key =>
    (key.behaviors.getLast?.filter (·.mask = 0)).bind fun behavior =>
      behavior.fallback.map fun fallback => FallbackAction.mk fallback state
  own.or plain

/-- The key and state that take the place of these, if a behavior replaces the key. -/
def applyBehavior (map : KeyMap) (code : KeyCode) (state : MetaState) :
    KeyCode × MetaState :=
  match map.behavior? code state with
  | some { mask := mask, replacement := some replacement, .. } =>
      (replacement, state.clearGroups mask)
  | _ => (code, state)

/-- The character of the set that the key can produce. -/
def match? (map : KeyMap) (code : KeyCode) (characters : List CodePoint)
    (state : MetaState) : Option CodePoint :=
  (map.keys.get? code).bind fun key => Behavior.search characters state none key.behaviors

/-- The key codes of the map in ascending order, with their keys. -/
def ascendingKeys (map : KeyMap) : List (KeyCode × Key) :=
  map.keys.ascending

/-- Every character that some behavior produces, once, in ascending order. -/
def characters (map : KeyMap) : List CodePoint :=
  ((map.keys.entries.flatMap fun entry =>
    entry.2.behaviors.filterMap (·.character)).eraseDups).mergeSort
      fun first second => first.toNat ≤ second.toNat

end KeyLayout.KeyMap
