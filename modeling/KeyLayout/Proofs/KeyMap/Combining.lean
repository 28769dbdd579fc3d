import KeyLayout.KeyMap.Bytes
import KeyLayout.Proofs.Grammar.Joining
import Mathlib.Logic.Function.Basic

namespace KeyLayout.KeyMap

/-! Overlays may be combined with one another before they are combined with a map, an
overlay need not be combined twice, and overlays that have nothing in common may be
combined in any order. -/

variable {first second third : KeyMap}

theorem combine_assoc (first second third : KeyMap) :
    (first.combine second).combine third = first.combine (second.combine third) := by
  simp only [combine, Table.override_assoc]

theorem combine_combine (first second : KeyMap) :
    (first.combine second).combine second = first.combine second := by
  simp only [combine, Table.override_override]

/-- A map takes any number of overlays like the one overlay that they make up. -/
theorem foldl_combine (overlays : List KeyMap) (first second : KeyMap) :
    overlays.foldl combine (first.combine second) =
      first.combine (overlays.foldl combine second) := by
  induction overlays generalizing second with
  | nil => rfl
  | cons overlay rest ih => rw [List.foldl_cons, List.foldl_cons, combine_assoc, ih]

theorem Apart.combine_comm (hapart : second.Apart third)
    (hremapping : second.remapping.Disjoint third.remapping) (first : KeyMap) :
    ((first.combine second).combine third).agrees ((first.combine third).combine second) =
      true := by
  simp only [agrees, combine, decide_true, Bool.true_and, hapart.keys.override_comm,
    hapart.scanCodes.override_comm, hapart.usageCodes.override_comm, hremapping.override_comm]

section InPlace

variable {ι : Type} [DecidableEq ι] {target overlay : ι}

/-- The map under one reference changes, in view of all maps as they are at this time. -/
def changeAt (target : ι) (change : (ι → KeyMap) → KeyMap → KeyMap) : StateM (ι → KeyMap) Unit :=
  modify fun maps => Function.update maps target (change maps (maps target))

/-- A map is combined in place, table by table, with an overlay that is looked up each time. -/
def combineAt (target overlay : ι) : StateM (ι → KeyMap) Unit := do
  changeAt target fun maps map => { map with keys := map.keys.override (maps overlay).keys }
  changeAt target fun maps map =>
    { map with scanCodes := map.scanCodes.override (maps overlay).scanCodes }
  changeAt target fun maps map =>
    { map with usageCodes := map.usageCodes.override (maps overlay).usageCodes }
  changeAt target fun maps map =>
    { map with remapping := map.remapping.override (maps overlay).remapping }
  changeAt target fun _ map => { map with overlaid := true }

theorem run_combineAt (target overlay : ι) (maps : ι → KeyMap) :
    (combineAt target overlay).run maps =
      ((), Function.update maps target ((maps target).combine (maps overlay))) := by
  -- each of the five changes reads the maps as the changes before it leave them
  have hrun : (combineAt target overlay).run maps = ((), _) := rfl
  rw [hrun]
  by_cases heq : overlay = target
  · subst overlay
    simp only [Function.update_self, Function.update_idem, combine]
  · simp only [Function.update_self, Function.update_of_ne heq, Function.update_idem, combine]

end InPlace

/-- Overlays may be put together first and combined later, with the same tables in the same
order and so the same bytes; a second time they change nothing, and two of them that are
apart may change places but for the order of the tables.  In place, the map that takes an
overlay is the only one that changes. -/
theorem combine_assoc_idempotent_comm (first second third : KeyMap) :
    (first.combine second).combine third = first.combine (second.combine third) ∧
      ((first.combine second).combine third).toBytes =
        (first.combine (second.combine third)).toBytes ∧
      (∀ overlays : List KeyMap, overlays.foldl combine (first.combine second) =
        first.combine (overlays.foldl combine second)) ∧
      (first.combine second).combine second = first.combine second ∧
      (second.Apart third → second.remapping.Disjoint third.remapping →
        ((first.combine second).combine third).agrees ((first.combine third).combine second) =
          true) ∧
      ∀ {ι : Type} [DecidableEq ι] (target overlay : ι) (maps : ι → KeyMap),
        ∃ after, (combineAt target overlay).run maps = ((), after) ∧
          after target = (maps target).combine (maps overlay) ∧
            ∀ other, other ≠ target → after other = maps other := by
  have hassoc := combine_assoc first second third
  refine ⟨hassoc, congrArg toBytes hassoc, fun overlays => foldl_combine overlays first second,
    combine_combine first second, fun hapart hremapping => hapart.combine_comm hremapping first,
    fun target overlay maps => ⟨_, run_combineAt target overlay maps, ?_, ?_⟩⟩
  · exact Function.update_self ..
  · exact fun other hother => Function.update_of_ne hother ..

/-- An overlay that changes the label of the only key of the pad. -/
def homeOverlay : KeyMap where
  name := "pad"
  type := .overlay
  keys := ⟨[(3, { label := some (.scalar 'h') })], by decide⟩
  remapping := ⟨[(3, 4)], by decide⟩

/-- The two overlays of the pad may change places, and stay as they are in place. -/
theorem combine_assoc_idempotent_comm_pad :
    backOverlay.Apart homeOverlay ∧ backOverlay.remapping.Disjoint homeOverlay.remapping ∧
      ((pad.combine backOverlay).combine homeOverlay).agrees
        ((pad.combine homeOverlay).combine backOverlay) = true ∧
      ∃ after, (combineAt false true).run (fun place => if place then homeOverlay else pad) =
          ((), after) ∧ after true = homeOverlay := by
  have hapart : backOverlay.Apart homeOverlay := ⟨by decide, by decide, by decide⟩
  have hremapping : backOverlay.remapping.Disjoint homeOverlay.remapping := by decide
  obtain ⟨-, -, -, -, hcomm, hplace⟩ := combine_assoc_idempotent_comm pad backOverlay homeOverlay
  obtain ⟨after, hrun, -, hother⟩ :=
    hplace false true fun place => if place then homeOverlay else pad
  exact ⟨hapart, hremapping, hcomm hapart hremapping, after, hrun, hother true (by decide)⟩

end KeyLayout.KeyMap
