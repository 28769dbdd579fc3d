import KeyLayout.Proofs.Behavior.Sorting
import KeyLayout.Proofs.KeyMap.Lookup
import KeyLayout.Proofs.KeyMap.Validity

namespace KeyLayout

/-! Looking for one of some characters on a key finds the one that the key types, if it is
among them. -/

namespace Behavior

variable {characters : List CodePoint} {state : MetaState} {found : Option CodePoint}
  {behavior : Behavior} {behaviors ahead behind : List Behavior}

theorem Produces.ne_none (hproduces : behavior.Produces characters) :
    behavior.character ≠ none := by
  obtain ⟨character, -, hcharacter⟩ := hproduces
  rw [hcharacter]
  exact Option.some_ne_none character

/-! One step of the search, for each of the three ways that it may go. -/

theorem search_cons_of_not_produces (hproduces : ¬ behavior.Produces characters) :
    search characters state found (behavior :: behaviors) =
      search characters state found behaviors := by
  rw [search, if_neg (mt any_character_eq_true_iff.mp hproduces)]

theorem search_cons_of_compatible (hproduces : behavior.Produces characters)
    (hmask : behavior.mask.compatible state = true) :
    search characters state found (behavior :: behaviors) = behavior.character := by
  rw [search, if_pos (any_character_eq_true_iff.mpr hproduces), if_pos hmask]

theorem search_cons_of_not_compatible (hproduces : behavior.Produces characters)
    (hmask : behavior.mask.compatible state = false) :
    search characters state found (behavior :: behaviors) =
      search characters state behavior.character behaviors := by
  rw [search, if_pos (any_character_eq_true_iff.mpr hproduces),
    if_neg (Bool.eq_false_iff.mp hmask)]

theorem search_eq_none_iff :
    search characters state found behaviors = none ↔
      found = none ∧ ∀ behavior ∈ behaviors, ¬ behavior.Produces characters := by
  induction behaviors generalizing found with
  | nil => simp [search]
  | cons behavior behaviors ih =>
      rw [List.forall_mem_cons]
      by_cases hproduces : behavior.Produces characters
      · have hsome := hproduces.ne_none
        cases hmask : behavior.mask.compatible state with
        | true => simp [search_cons_of_compatible hproduces hmask, hsome, hproduces]
        | false => simp [search_cons_of_not_compatible hproduces hmask, ih, hsome, hproduces]
      · simp [search_cons_of_not_produces hproduces, ih, hproduces]

theorem search_of_none (hnone : ∀ behavior ∈ behaviors, ¬ behavior.Produces characters) :
    search characters state found behaviors = found := by
  induction behaviors with
  | nil => rfl
  | cons behavior behaviors ih =>
      obtain ⟨hfirst, hrest⟩ := List.forall_mem_cons.mp hnone
      rw [search_cons_of_not_produces hfirst, ih hrest]

/-- The search goes on behind behaviors of which none ends it. -/
theorem search_append (hahead : ∀ behavior ∈ ahead, behavior.Produces characters →
      behavior.mask.compatible state = false) :
    search characters state found (ahead ++ behaviors) =
      search characters state (search characters state found ahead) behaviors := by
  induction ahead generalizing found with
  | nil => rfl
  | cons behavior ahead ih =>
      obtain ⟨hfirst, hrest⟩ := List.forall_mem_cons.mp hahead
      rw [List.cons_append]
      by_cases hproduces : behavior.Produces characters
      · have hmask := hfirst hproduces
        rw [search_cons_of_not_compatible hproduces hmask, ih hrest,
          search_cons_of_not_compatible hproduces hmask]
      · rw [search_cons_of_not_produces hproduces, ih hrest,
          search_cons_of_not_produces hproduces]

theorem search_of_first (hahead : ∀ other ∈ ahead, other.Produces characters →
      other.mask.compatible state = false)
    (hproduces : behavior.Produces characters)
    (hmask : behavior.mask.compatible state = true) :
    search characters state found (ahead ++ behavior :: behind) = behavior.character := by
  rw [search_append hahead, search_cons_of_compatible hproduces hmask]

theorem search_of_last (hnone : ∀ other ∈ ahead ++ behavior :: behind,
      other.Produces characters → other.mask.compatible state = false)
    (hproduces : behavior.Produces characters)
    (hbehind : ∀ other ∈ behind, ¬ other.Produces characters) :
    search characters state found (ahead ++ behavior :: behind) = behavior.character := by
  obtain ⟨hahead, hrest⟩ := List.forall_mem_append.mp hnone
  have hmask := (List.forall_mem_cons.mp hrest).1 hproduces
  rw [search_append hahead, search_cons_of_not_compatible hproduces hmask,
    search_of_none hbehind]

end Behavior

namespace KeyMap

variable {map : KeyMap} {code : KeyCode} {characters : List CodePoint} {state : MetaState}
  {character : CodePoint} {behavior other : Behavior} {ahead behind : List Behavior}

/-- The behaviors of a key; a key that the map lacks has none. -/
def behaviors (map : KeyMap) (code : KeyCode) : List Behavior :=
  ((map.keys.get? code).map (·.behaviors)).getD []

theorem behaviors_of_get? {key : Key} (hkey : map.keys.get? code = some key) :
    map.behaviors code = key.behaviors := by
  rw [behaviors, hkey]
  rfl

theorem match?_eq_search (map : KeyMap) (code : KeyCode) (characters : List CodePoint)
    (state : MetaState) :
    map.match? code characters state =
      Behavior.search characters state none (map.behaviors code) := by
  rw [match?, behaviors]
  cases map.keys.get? code <;> rfl

theorem match?_of_character? (hcharacter : map.character? code state = some character)
    (hmem : character ∈ characters) :
    map.match? code characters state = some character := by
  obtain ⟨key, behavior, hkey, hfind, hown⟩ := character?_eq_some_iff.mp hcharacter
  obtain ⟨hmask, ahead, behind, heq, hahead⟩ := List.find?_eq_some_iff_append.mp hfind
  rw [match?_eq_search, behaviors_of_get? hkey, heq, ← hown]
  refine Behavior.search_of_first (fun other hother _ => ?_) ⟨character, hmem, hown⟩ hmask
  simpa using hahead other hother

/-- In a valid map no behavior behind another one is more specific. -/
theorem Valid.specificity_le (hmap : map.Valid)
    (hbehaviors : map.behaviors code = ahead ++ behavior :: behind) (hother : other ∈ ahead) :
    behavior.specificity ≤ other.specificity := by
  cases hkey : map.keys.get? code with
  | none => simp [behaviors, hkey] at hbehaviors
  | some key =>
      have hsorted := (hmap.keys _ (Table.get?_eq_some_iff.mp hkey)).2.sorted
      rw [← behaviors_of_get? hkey, hbehaviors, List.pairwise_append] at hsorted
      exact Behavior.precedes_iff.mp (hsorted.2.2 other hother behavior (List.mem_cons_self ..))

/-- None of the characters is found on a key if no behavior produces one of them.  The one
that the key types in the state is found if it is among them; else that of the first behavior
which produces one and agrees with the state; else that of the last one which produces one,
and in a valid map no such behavior is less specific. -/
theorem match?_characterized (map : KeyMap) (code : KeyCode) (characters : List CodePoint)
    (state : MetaState) :
    (map.match? code characters state = none ↔
        ∀ behavior ∈ map.behaviors code, ¬ behavior.Produces characters) ∧
      (∀ character ∈ characters, map.character? code state = some character →
        map.match? code characters state = some character) ∧
      ∀ ahead behavior behind, map.behaviors code = ahead ++ behavior :: behind →
        behavior.Produces characters →
          ((∀ other ∈ ahead, other.Produces characters →
              other.mask.compatible state = false) →
            behavior.mask.compatible state = true →
              map.match? code characters state = behavior.character) ∧
          ((∀ other ∈ map.behaviors code, other.Produces characters →
              other.mask.compatible state = false) →
            (∀ other ∈ behind, ¬ other.Produces characters) →
              map.match? code characters state = behavior.character ∧
                (map.Valid → ∀ other ∈ map.behaviors code, other.Produces characters →
                  behavior.specificity ≤ other.specificity)) := by
  refine ⟨?_, fun character hmem hcharacter => match?_of_character? hcharacter hmem, ?_⟩
  · rw [match?_eq_search, Behavior.search_eq_none_iff]
    exact and_iff_right rfl
  · intro ahead behavior behind hbehaviors hproduces
    rw [match?_eq_search, hbehaviors]
    refine ⟨fun hahead hmask => Behavior.search_of_first hahead hproduces hmask,
      fun hnone hbehind => ⟨Behavior.search_of_last hnone hproduces hbehind, ?_⟩⟩
    intro hmap other hother hown
    rcases List.mem_append.mp hother with hother | hother
    · exact hmap.specificity_le hbehaviors hother
    · rcases List.mem_cons.mp hother with rfl | hother
      · exact le_refl _
      · exact absurd hown (hbehind other hother)

/-- A back key is found for its letter where it types the letter, and also while a shift key
that it does not know is held. -/
theorem match?_characterized_back :
    backOverlay.character? 4 0 = some (.scalar 'b') ∧
      backOverlay.match? 4 [.scalar 'b', .scalar 'c'] 0 = some (.scalar 'b') ∧
      backOverlay.character? 4 1 = none ∧ backOverlay.Valid ∧
      backOverlay.match? 4 [.scalar 'b', .scalar 'c'] 1 = some (.scalar 'b') ∧
      backOverlay.match? 4 [.scalar 'c'] 0 = none := by
  have htyped : backOverlay.character? 4 0 = some (.scalar 'b') := by decide
  have hbehaviors : backOverlay.behaviors 4 =
      [] ++ { character := some (.scalar 'b'), fallback := some 3 } :: [] := by decide
  have hmask : MetaState.compatible 0 1 = false := by decide
  have hletter : ¬∃ character ∈ [CodePoint.scalar 'c'],
      some (CodePoint.scalar 'b') = some character := by decide
  obtain ⟨-, hmatch, -⟩ := match?_characterized backOverlay 4 [.scalar 'b', .scalar 'c'] 0
  obtain ⟨-, -, hsplit⟩ := match?_characterized backOverlay 4 [.scalar 'b', .scalar 'c'] 1
  obtain ⟨hnone, -, -⟩ := match?_characterized backOverlay 4 [.scalar 'c'] 0
  obtain ⟨-, hlast⟩ := hsplit _ _ _ hbehaviors ⟨.scalar 'b', by decide, rfl⟩
  rw [hbehaviors] at hlast hnone
  obtain ⟨hfound, -⟩ := hlast (List.forall_mem_singleton.mpr fun _ => hmask) (by simp)
  exact ⟨htyped, hmatch _ (by decide) htyped, by decide, valid_of_ofText ofText_back, hfound,
    hnone.mpr (List.forall_mem_singleton.mpr hletter)⟩

end KeyMap

end KeyLayout
