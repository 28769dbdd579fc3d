import KeyLayout.Typing.Plan
import Mathlib.Data.List.Basic
import Mathlib.Logic.Function.Basic

namespace KeyLayout.KeyMap

/-! Choosing one option of every group, and which choice is the first that does. -/

variable {groups : List ModifierGroup} {options : ModifierGroup → List (List KeyCode)}

theorem flatMap_update_of_notMem {group : ModifierGroup} (hgroup : group ∉ groups)
    (pick : ModifierGroup → List KeyCode) (option : List KeyCode) :
    groups.flatMap (Function.update pick group option) = groups.flatMap pick := by
  refine List.flatMap_congr fun other hother => Function.update_of_ne ?_ _ _
  exact fun heq => hgroup (heq ▸ hother)

theorem flatMap_mem_choices {pick : ModifierGroup → List KeyCode}
    (hpick : ∀ group ∈ groups, pick group ∈ options group) :
    groups.flatMap pick ∈ choices (groups.map options) := by
  induction groups with
  | nil => simp [choices]
  | cons group rest ih =>
      simp only [List.map_cons, choices, List.mem_flatMap, List.mem_map, List.flatMap_cons]
      exact ⟨pick group, hpick group (List.mem_cons_self ..), rest.flatMap pick,
        ih fun other hother => hpick other (List.mem_cons_of_mem _ hother), rfl⟩

/-- The first choice is made up of the first options. -/
theorem head?_choices {pick : ModifierGroup → List KeyCode}
    (hpick : ∀ group ∈ groups, (options group).head? = some (pick group)) :
    (choices (groups.map options)).head? = some (groups.flatMap pick) := by
  induction groups with
  | nil => rfl
  | cons group rest ih =>
      obtain ⟨hgroup, hrest⟩ := List.forall_mem_cons.mp hpick
      obtain ⟨others, hothers⟩ := List.head?_eq_some_iff.mp hgroup
      obtain ⟨tails, htails⟩ := List.head?_eq_some_iff.mp (ih hrest)
      rw [List.map_cons, choices, hothers, htails, List.flatMap_cons, List.map_cons,
        List.cons_append, List.head?_cons, List.flatMap_cons]

theorem exists_pick_of_mem_choices (hnodup : groups.Nodup) {target : List KeyCode}
    (htarget : target ∈ choices (groups.map options)) :
    ∃ pick : ModifierGroup → List KeyCode,
      (∀ group ∈ groups, pick group ∈ options group) ∧ target = groups.flatMap pick := by
  induction groups generalizing target with
  | nil => exact ⟨fun _ => [], by simp, by simpa [choices] using htarget⟩
  | cons group rest ih =>
      obtain ⟨hgroup, hrest⟩ := List.nodup_cons.mp hnodup
      simp only [List.map_cons, choices, List.mem_flatMap, List.mem_map] at htarget
      obtain ⟨option, hoption, tail, htail, rfl⟩ := htarget
      obtain ⟨pick, hpick, rfl⟩ := ih hrest htail
      refine ⟨Function.update pick group option, ?_, ?_⟩
      · intro other hother
        by_cases heq : other = group
        · subst other
          simpa using hoption
        · rw [Function.update_of_ne heq]
          exact hpick other (List.mem_of_ne_of_mem heq hother)
      · rw [List.flatMap_cons, flatMap_update_of_notMem hgroup, Function.update_self]

theorem choices_subset {fewer : ModifierGroup → List (List KeyCode)}
    (hsub : ∀ group ∈ groups, fewer group ⊆ options group) :
    choices (groups.map fewer) ⊆ choices (groups.map options) := by
  induction groups with
  | nil => exact List.Subset.refl _
  | cons group rest ih =>
      intro target htarget
      simp only [List.map_cons, choices, List.mem_flatMap, List.mem_map] at htarget ⊢
      obtain ⟨option, hoption, tail, htail, rfl⟩ := htarget
      exact ⟨option, hsub group (List.mem_cons_self ..) hoption, tail,
        ih (fun other hother => hsub other (List.mem_cons_of_mem _ hother)) htail, rfl⟩

/-- The picked options together do, and where any of them follows others of its group,
none of these leads to a choice that does. -/
inductive Leads : (List KeyCode → Bool) → List (List (List KeyCode)) →
    List (List KeyCode) → Prop
  | nil {does : List KeyCode → Bool} (hdoes : does [] = true) : Leads does [] []
  | cons {does : List KeyCode → Bool} {options : List (List KeyCode)}
      {rest : List (List (List KeyCode))} {pick : List KeyCode}
      {picks : List (List KeyCode)} (hpick : pick ∈ options)
      (hahead : ∀ option ∈ options.takeWhile (· ≠ pick), ∀ tail ∈ choices rest,
        does (option ++ tail) = false)
      (hrest : Leads (fun tail => does (pick ++ tail)) rest picks) :
      Leads does (options :: rest) (pick :: picks)

theorem takeWhile_ne_append_cons {ahead behind : List (List KeyCode)} {pick : List KeyCode}
    (hahead : pick ∉ ahead) : (ahead ++ pick :: behind).takeWhile (· ≠ pick) = ahead := by
  rw [List.takeWhile_append_of_pos]
  · simp
  · intro option hoption
    have hne : option ≠ pick := fun heq => hahead (heq ▸ hoption)
    simpa using hne

theorem find?_choices_eq_some_iff {does : List KeyCode → Bool}
    {lists : List (List (List KeyCode))} {target : List KeyCode} :
    (choices lists).find? does = some target ↔
      ∃ picks, Leads does lists picks ∧ target = picks.flatten := by
  induction lists generalizing does target with
  | nil =>
      cases hdoes : does [] with
      | false =>
          simp only [choices, List.find?_cons, hdoes, List.find?_nil, reduceCtorEq, false_iff]
          rintro ⟨picks, hleads, -⟩
          cases hleads with
          | nil htrue => rw [hdoes] at htrue; contradiction
      | true =>
          simp only [choices, List.find?_cons, hdoes, Option.some.injEq]
          constructor
          · rintro rfl
            exact ⟨[], .nil hdoes, rfl⟩
          · rintro ⟨picks, hleads, rfl⟩
            cases hleads
            rfl
  | cons options rest ih =>
      have hoption : ∀ option,
          ((choices rest).map (option ++ ·)).find? does = none ↔
            ∀ tail ∈ choices rest, does (option ++ tail) = false := by
        simp
      simp only [choices, List.find?_flatMap, List.findSome?_eq_some_iff]
      constructor
      · rintro ⟨ahead, pick, behind, rfl, hpick, hahead⟩
        have hnot : pick ∉ ahead := by
          intro hmem
          rw [hahead pick hmem] at hpick
          contradiction
        rw [List.find?_map, Option.map_eq_some_iff] at hpick
        obtain ⟨tail, htail, rfl⟩ := hpick
        obtain ⟨picks, hleads, rfl⟩ := ih.mp htail
        refine ⟨pick :: picks, .cons (by simp) ?_ hleads, rfl⟩
        rw [takeWhile_ne_append_cons hnot]
        exact fun option hmem => (hoption option).mp (hahead option hmem)
      · rintro ⟨picks, hleads, rfl⟩
        cases hleads with
        | @cons _ _ _ pick picks hpick hahead hrest =>
            obtain ⟨ahead, behind, rfl, hnot⟩ := List.eq_append_cons_of_mem hpick
            rw [takeWhile_ne_append_cons hnot] at hahead
            refine ⟨ahead, pick, behind, rfl, ?_, fun option hmem =>
              (hoption option).mpr (hahead option hmem)⟩
            rw [List.find?_map, Option.map_eq_some_iff]
            exact ⟨picks.flatten, ih.mpr ⟨picks, hrest, rfl⟩, rfl⟩

/-- A choice stays the first that does when options go, as long as its own stay and no
other gets ahead of them. -/
theorem Leads.narrow {fewer : ModifierGroup → List (List KeyCode)}
    {does : List KeyCode → Bool} {picks : List (List KeyCode)}
    (hleads : Leads does (groups.map options) picks)
    (hsub : ∀ group ∈ groups, fewer group ⊆ options group)
    (hpicks : ∀ group ∈ groups, ∀ pick ∈ picks, pick ∈ options group →
      pick ∈ fewer group ∧
        (fewer group).takeWhile (· ≠ pick) ⊆ (options group).takeWhile (· ≠ pick)) :
    Leads does (groups.map fewer) picks := by
  induction groups generalizing does picks with
  | nil => simpa using hleads
  | cons group rest ih =>
      cases hleads with
      | @cons _ _ _ pick picks hpick hahead hrest =>
          have hsubRest : ∀ other ∈ rest, fewer other ⊆ options other :=
            fun other hother => hsub other (List.mem_cons_of_mem _ hother)
          obtain ⟨hmem, hfewer⟩ := hpicks group (List.mem_cons_self ..) pick
            (List.mem_cons_self ..) hpick
          refine .cons hmem (fun option hoption tail htail => ?_) ?_
          · exact hahead option (hfewer hoption) tail (choices_subset hsubRest htail)
          · exact ih hrest hsubRest fun other hother pick hpick =>
              hpicks other (List.mem_cons_of_mem _ hother) pick (List.mem_cons_of_mem _ hpick)

end KeyLayout.KeyMap
