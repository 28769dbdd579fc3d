import KeyLayout.Proofs.KeyMap.Editing

namespace KeyLayout

/-! Taking overlays off again.  The layout is read anew, so that what was there before the
overlays comes back if the layout says it; remappings are not part of a layout. -/

namespace KeyMap

variable {map base : KeyMap} {name text : Text} {source : Text → Except SourceError Text}
  {codes : List (KeyCode × KeyCode)} {overlays : List KeyMap}

/-- The map with these codes remapped, one after the other. -/
def remapped (map : KeyMap) (codes : List (KeyCode × KeyCode)) : KeyMap :=
  map.edited (codes.map fun (source, target) => .remap source target)

def overlaidWith (map : KeyMap) (overlays : List KeyMap) : KeyMap :=
  map.edited (overlays.map .combine)

theorem after_remap {source target : KeyCode} (hrange : source.InRange ∧ target.InRange) :
    (Edit.remap source target).after map =
      { map with remapping := map.remapping.insert source target } := by
  rw [Edit.after, Edit.result_eq_of_outcome, Edit.outcome, addRemapping, if_pos hrange]
  rfl

theorem remapped_eq (hcodes : ∀ pair ∈ codes, pair.1.InRange ∧ pair.2.InRange) :
    map.remapped codes = { map with
      remapping := codes.foldl (fun table pair => table.insert pair.1 pair.2) map.remapping } := by
  induction codes generalizing map with
  | nil => rfl
  | cons pair rest ih =>
      obtain ⟨hpair, hrest⟩ := List.forall_mem_cons.mp hcodes
      change ((Edit.remap pair.1 pair.2).after map).remapped rest = _
      rw [after_remap hpair, ih hrest]
      rfl

theorem name_overlaidWith : (map.overlaidWith overlays).name = map.name := by
  induction overlays generalizing map with
  | nil => rfl
  | cons overlay rest ih =>
      change ((map.combine overlay).overlaidWith rest).name = (map.combine overlay).name
      exact ih

theorem overlaid_overlaidWith (hoverlays : overlays ≠ []) :
    (map.overlaidWith overlays).overlaid = true := by
  -- it is the last overlay that leaves the flag set
  obtain ⟨others, overlay, rfl⟩ := (List.eq_nil_or_concat overlays).resolve_left hoverlays
  rw [overlaidWith, List.concat_eq_append, List.map_append, edited, List.foldl_append]
  rfl

theorem remapping_of_ofText {format : Format} (hmap : (ofText name text format).outcome = .ok map) :
    map.remapping = .empty := by
  obtain ⟨lines, draft, -, hdraft, rfl⟩ := ofText_eq_ok_iff_typed.mp hmap
  exact hdraft.map_eq.2.1

/-- A clear leaves the map that the layout describes. -/
theorem result_clear_of_text (hoverlaid : map.overlaid = true)
    (hsource : source map.name = .ok text)
    (hbase : (ofText map.name text .base).outcome = .ok base) :
    (Edit.clear source).result map = (.ok (), base) := by
  rw [Edit.result_eq_of_outcome, Edit.outcome_clear_of_text hoverlaid hsource, hbase]
  rfl

/-- Overlays that are cleared leave every field as it was before them, apart from the
remapping, which is empty afterwards; so all is as before exactly if nothing was remapped. -/
theorem result_clear_overlaidWith (hsource : source name = .ok text)
    (hbase : (ofText name text .base).outcome = .ok base)
    (hcodes : ∀ pair ∈ codes, pair.1.InRange ∧ pair.2.InRange) (hoverlays : overlays ≠ []) :
    (Edit.clear source).result ((base.remapped codes).overlaidWith overlays) =
        (.ok (), { base.remapped codes with remapping := .empty }) ∧
      ((Edit.clear source).after ((base.remapped codes).overlaidWith overlays) =
          base.remapped codes ↔
        codes = []) := by
  have hremapped : base.remapped codes = _ := remapped_eq hcodes
  have hempty := remapping_of_ofText hbase
  have hname : ((base.remapped codes).overlaidWith overlays).name = name := by
    rw [name_overlaidWith, hremapped, ← name_of_ofText hbase]
  have hresult := result_clear_of_text (overlaid_overlaidWith hoverlays)
    (hname.symm ▸ hsource) (hname.symm ▸ hbase)
  have hkept : { base.remapped codes with remapping := .empty } = base := by
    rw [hremapped, ← hempty]
  refine ⟨by rw [hresult, hkept], ?_⟩
  rw [Edit.after, hresult]
  constructor
  · intro hsame
    have hnone := congrArg KeyMap.remapping hsame
    rw [hremapped, hempty] at hnone
    exact (Table.foldl_insert_eq_empty_iff.mp hnone.symm).1
  · rintro rfl
    rfl

def padSource (name : Text) : Except SourceError Text :=
  if name = "pad" then .ok padText else .error (.missing name)

theorem padSource_pad : padSource "pad" = .ok padText :=
  if_pos rfl

theorem result_clear_overlaidWith_pad :
    (Edit.clear padSource).result ((pad.remapped [(3, 4)]).overlaidWith [backOverlay]) =
        (.ok (), { pad.remapped [(3, 4)] with remapping := .empty }) ∧
      (Edit.clear padSource).after ((pad.remapped [(3, 4)]).overlaidWith [backOverlay]) ≠
        pad.remapped [(3, 4)] := by
  have hcodes : ∀ pair ∈ ([(3, 4)] : List (KeyCode × KeyCode)),
      pair.1.InRange ∧ pair.2.InRange := by decide
  have hoverlays : [backOverlay] ≠ [] := by simp
  obtain ⟨hresult, hsame⟩ :=
    result_clear_overlaidWith padSource_pad ofText_pad hcodes hoverlays
  exact ⟨hresult, fun hrestored => absurd (hsame.mp hrestored) (by simp)⟩

/-- A pad of which a key was remapped does not come back as it was. -/
theorem not_restored_by_clear :
    ¬∀ (source : Text → Except SourceError Text) (name text : Text) (base : KeyMap)
        (codes : List (KeyCode × KeyCode)) (overlays : List KeyMap),
      source name = .ok text → (ofText name text .base).outcome = .ok base →
        (∀ pair ∈ codes, pair.1.InRange ∧ pair.2.InRange) → overlays ≠ [] →
          (Edit.clear source).after ((base.remapped codes).overlaidWith overlays) =
            base.remapped codes := by
  intro hrestored
  have hpad := hrestored padSource "pad" padText pad [(3, 4)] [backOverlay] padSource_pad
    ofText_pad (by decide) (by simp)
  have hcleared : (Edit.clear padSource).result
      ((pad.remapped [(3, 4)]).overlaidWith [backOverlay]) = (.ok (), pad) :=
    result_clear_of_text rfl padSource_pad ofText_pad
  rw [Edit.after, hcleared] at hpad
  exact absurd (congrArg (·.remapping.get? 3) hpad) (by decide)

end KeyMap

end KeyLayout
