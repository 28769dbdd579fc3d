import KeyLayout.KeyMap.Lookup

namespace KeyLayout

/-! The behavior that answers a state is the first one of the key whose mask agrees with
it, and its character is the character of the key. -/

namespace Behavior

variable {behavior : Behavior} {characters : List CodePoint}

/-- The character of the behavior is one of these. -/
def Produces (behavior : Behavior) (characters : List CodePoint) : Prop :=
  ∃ character ∈ characters, behavior.character = some character

theorem any_character_eq_true_iff :
    behavior.character.any characters.contains = true ↔ behavior.Produces characters := by
  simp only [Option.any_eq_true, List.contains_iff_mem]
  constructor
  · rintro ⟨character, hcharacter, hmem⟩
    exact ⟨character, hmem, hcharacter⟩
  · rintro ⟨character, hmem, hcharacter⟩
    exact ⟨character, hcharacter, hmem⟩

end Behavior

namespace KeyMap

variable {map : KeyMap} {code : KeyCode} {state : MetaState} {behavior : Behavior}
  {character : CodePoint}

theorem behavior?_eq_some_iff :
    map.behavior? code state = some behavior ↔
      ∃ key, map.keys.get? code = some key ∧
        Behavior.find? key.behaviors state = some behavior := by
  rw [behavior?, Option.bind_eq_some_iff]

theorem character?_eq_some_iff :
    map.character? code state = some character ↔
      ∃ key behavior, map.keys.get? code = some key ∧
        Behavior.find? key.behaviors state = some behavior ∧
          behavior.character = some character := by
  simp only [character?, Option.bind_eq_some_iff, behavior?_eq_some_iff]
  constructor
  · rintro ⟨behavior, ⟨key, hkey, hfind⟩, hcharacter⟩
    exact ⟨key, behavior, hkey, hfind, hcharacter⟩
  · rintro ⟨key, behavior, hkey, hfind, hcharacter⟩
    exact ⟨behavior, ⟨key, hkey, hfind⟩, hcharacter⟩

theorem compatible_of_find? {behaviors : List Behavior}
    (hfind : Behavior.find? behaviors state = some behavior) :
    behavior.mask.compatible state = true := by
  rw [Behavior.find?] at hfind
  simpa using List.find?_some hfind

end KeyMap

end KeyLayout
