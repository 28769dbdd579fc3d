import KeyLayout.Proofs.Modifier.Held
import KeyLayout.Typing.Synthesizer
import Mathlib.Data.List.Flatten
import Mathlib.Data.List.Nodup

namespace KeyLayout.Synthesizer

open ModifierGroup (ephemeralKeys)

/-! A synthesizer moves by pressing modifier keys that are up and letting go of modifier
keys that are down.  Releasing what need not be kept and holding a target are sequences
of such moves. -/

/-- The synthesizer after a key went down that was up. -/
def pressNew (synthesizer : Synthesizer) (code : KeyCode) : Synthesizer :=
  let pressed := synthesizer.press code
  { pressed with ephemeral := pressed.ephemeral.insert code }

/-- No key is down twice, only keys that hold a modifier are down, all that were pressed
here are down, and the locks are no more than locks. -/
structure Consistent (synthesizer : Synthesizer) : Prop where
  nodup : synthesizer.held.Nodup
  held_subset : synthesizer.held ⊆ ephemeralKeys
  ephemeral_subset : synthesizer.ephemeral ⊆ synthesizer.held
  locks_eq : ∃ state : MetaState, synthesizer.locks = state.lockBits

inductive Moves : Synthesizer → List KeyEvent → Synthesizer → Prop
  | done {synthesizer : Synthesizer} : Moves synthesizer [] synthesizer
  | press {synthesizer last : Synthesizer} {code : KeyCode} {events : List KeyEvent}
      (hcode : code ∈ ephemeralKeys) (hup : code ∉ synthesizer.held)
      (hrest : Moves (synthesizer.pressNew code) events last) :
      Moves synthesizer
        (⟨synthesizer.device, code, .pressed, (synthesizer.pressNew code).state⟩ :: events) last
  | letGo {synthesizer last : Synthesizer} {code : KeyCode} {events : List KeyEvent}
      (hdown : code ∈ synthesizer.held)
      (hrest : Moves (synthesizer.letGo code) events last) :
      Moves synthesizer
        (⟨synthesizer.device, code, .released, (synthesizer.letGo code).state⟩ :: events) last

section Fields

variable (synthesizer : Synthesizer) (code : KeyCode)

@[simp] theorem held_pressNew :
    (synthesizer.pressNew code).held = synthesizer.held ++ [code] := rfl

@[simp] theorem ephemeral_pressNew :
    (synthesizer.pressNew code).ephemeral = synthesizer.ephemeral.insert code := rfl

@[simp] theorem map_pressNew : (synthesizer.pressNew code).map = synthesizer.map := rfl

@[simp] theorem locks_pressNew : (synthesizer.pressNew code).locks = synthesizer.locks := rfl

@[simp] theorem held_letGo :
    (synthesizer.letGo code).held = synthesizer.held.erase code := rfl

@[simp] theorem ephemeral_letGo :
    (synthesizer.letGo code).ephemeral = synthesizer.ephemeral.filter (· ≠ code) := rfl

@[simp] theorem map_letGo : (synthesizer.letGo code).map = synthesizer.map := rfl

@[simp] theorem locks_letGo : (synthesizer.letGo code).locks = synthesizer.locks := rfl

@[simp] theorem held_tap : (synthesizer.tap code).held = synthesizer.held := rfl

@[simp] theorem ephemeral_tap :
    (synthesizer.tap code).ephemeral = synthesizer.ephemeral := rfl

@[simp] theorem map_tap : (synthesizer.tap code).map = synthesizer.map := rfl

@[simp] theorem locks_tap : (synthesizer.tap code).locks = synthesizer.locks := rfl

theorem events_pressNew : (synthesizer.pressNew code).events =
    synthesizer.events.push
      ⟨synthesizer.device, code, .pressed, (synthesizer.pressNew code).state⟩ := rfl

theorem events_letGo : (synthesizer.letGo code).events =
    synthesizer.events.push
      ⟨synthesizer.device, code, .released, (synthesizer.letGo code).state⟩ := rfl

theorem events_tap : (synthesizer.tap code).events =
    (synthesizer.events.push ⟨synthesizer.device, code, .pressed, synthesizer.state⟩).push
      ⟨synthesizer.device, code, .released, synthesizer.state⟩ := rfl

end Fields

namespace Consistent

variable {synthesizer : Synthesizer} {code : KeyCode}

theorem shows (hconsistent : synthesizer.Consistent) :
    synthesizer.state.Shows synthesizer.held synthesizer.locks := by
  obtain ⟨own, hlocks⟩ := hconsistent.locks_eq
  rw [Synthesizer.state, hlocks]
  exact MetaState.Shows.held hconsistent.held_subset own

theorem pressNew (hconsistent : synthesizer.Consistent) (hcode : code ∈ ephemeralKeys)
    (hup : code ∉ synthesizer.held) : (synthesizer.pressNew code).Consistent where
  nodup := by
    rw [held_pressNew, List.nodup_append]
    refine ⟨hconsistent.nodup, by simp, fun other hother last hlast heq => ?_⟩
    rw [List.mem_singleton] at hlast
    exact hup (hlast ▸ heq ▸ hother)
  held_subset := by
    rw [held_pressNew, List.append_subset]
    exact ⟨hconsistent.held_subset, by simpa using hcode⟩
  ephemeral_subset := by
    intro other hother
    rw [ephemeral_pressNew, List.mem_insert_iff] at hother
    rw [held_pressNew, List.mem_append, List.mem_singleton]
    exact hother.symm.imp_left fun hmem => hconsistent.ephemeral_subset hmem
  locks_eq := hconsistent.locks_eq

theorem letGo (hconsistent : synthesizer.Consistent) (code : KeyCode) :
    (synthesizer.letGo code).Consistent where
  nodup := hconsistent.nodup.erase code
  held_subset := fun _ hother => hconsistent.held_subset (List.mem_of_mem_erase hother)
  ephemeral_subset := by
    intro other hother
    simp only [ephemeral_letGo, List.mem_filter, decide_eq_true_eq] at hother
    rw [held_letGo, hconsistent.nodup.mem_erase_iff]
    exact ⟨hother.2, hconsistent.ephemeral_subset hother.1⟩
  locks_eq := hconsistent.locks_eq

theorem tap (hconsistent : synthesizer.Consistent) (code : KeyCode) :
    (synthesizer.tap code).Consistent where
  nodup := hconsistent.nodup
  held_subset := hconsistent.held_subset
  ephemeral_subset := hconsistent.ephemeral_subset
  locks_eq := hconsistent.locks_eq

end Consistent

/-- The keys of a group that account for its bits are keys of the group, in their order. -/
theorem groupKeys_sublist (state : MetaState) (group : ModifierGroup) :
    (state.groupKeys group).Sublist group.keys := by
  simp only [MetaState.groupKeys]
  generalize group.sides state = sides
  obtain ⟨generic, left, right⟩ := sides
  revert generic left right
  cases group <;> decide

theorem heldKeys_sublist (state : MetaState) : state.heldKeys.Sublist ephemeralKeys :=
  List.Sublist.flatMap_right _ fun group _ => groupKeys_sublist state group

theorem consistent_start (map : KeyMap) (device : Int) (state : MetaState) :
    (start map device state).Consistent where
  nodup := ModifierGroup.nodup_ephemeralKeys.sublist (heldKeys_sublist state)
  held_subset := (heldKeys_sublist state).subset
  ephemeral_subset := List.nil_subset _
  locks_eq := ⟨state, rfl⟩

namespace Moves

variable {first second third : Synthesizer} {events others : List KeyEvent}

theorem trans (hfirst : Moves first events second) (hsecond : Moves second others third) :
    Moves first (events ++ others) third := by
  induction hfirst with
  | done => exact hsecond
  | press hcode hup _ ih => exact .press hcode hup (ih hsecond)
  | letGo hdown _ ih => exact .letGo hdown (ih hsecond)

theorem events_eq (hmoves : Moves first events second) :
    second.events.toList = first.events.toList ++ events := by
  induction hmoves with
  | done => simp
  | press _ _ _ ih => rw [ih, events_pressNew, Array.toList_push, List.append_assoc]; rfl
  | letGo _ _ ih => rw [ih, events_letGo, Array.toList_push, List.append_assoc]; rfl

theorem drop_events (hmoves : Moves first events second) :
    second.events.toList.drop first.events.size = events := by
  rw [hmoves.events_eq, ← Array.length_toList, List.drop_left]

theorem map_eq (hmoves : Moves first events second) : second.map = first.map := by
  induction hmoves with
  | done => rfl
  | press _ _ _ ih => exact ih
  | letGo _ _ ih => exact ih

theorem locks_eq (hmoves : Moves first events second) : second.locks = first.locks := by
  induction hmoves with
  | done => rfl
  | press _ _ _ ih => exact ih
  | letGo _ _ ih => exact ih

theorem device_eq (hmoves : Moves first events second) : second.device = first.device := by
  induction hmoves with
  | done => rfl
  | press _ _ _ ih => exact ih
  | letGo _ _ ih => exact ih

theorem consistent (hmoves : Moves first events second) (hfirst : first.Consistent) :
    second.Consistent := by
  induction hmoves with
  | done => exact hfirst
  | press hcode hup _ ih => exact ih (hfirst.pressNew hcode hup)
  | letGo _ _ ih => exact ih (hfirst.letGo _)

theorem code_mem (hmoves : Moves first events second) (hfirst : first.Consistent) :
    ∀ event ∈ events, event.code ∈ ephemeralKeys := by
  induction hmoves with
  | done => simp
  | press hcode hup _ ih =>
      exact List.forall_mem_cons.mpr ⟨hcode, ih (hfirst.pressNew hcode hup)⟩
  | letGo hdown _ ih =>
      exact List.forall_mem_cons.mpr ⟨hfirst.held_subset hdown, ih (hfirst.letGo _)⟩

end Moves

/-- The keys that are released unless these are kept, in the order of their release. -/
def dropped (synthesizer : Synthesizer) (keep : List KeyCode) (onlyEphemeral : Bool) :
    List KeyCode :=
  (synthesizer.held.mergeSort fun first second => ModifierKey.inOrder second first).filter
    fun code => !keep.contains code && (!onlyEphemeral || synthesizer.ephemeral.contains code)

theorem mem_dropped {synthesizer : Synthesizer} {keep : List KeyCode} {onlyEphemeral : Bool}
    {code : KeyCode} :
    code ∈ synthesizer.dropped keep onlyEphemeral ↔
      code ∈ synthesizer.held ∧ code ∉ keep ∧
        (onlyEphemeral = true → code ∈ synthesizer.ephemeral) := by
  cases onlyEphemeral <;> simp [dropped]

theorem nodup_dropped {synthesizer : Synthesizer} (hnodup : synthesizer.held.Nodup)
    (keep : List KeyCode) (onlyEphemeral : Bool) :
    (synthesizer.dropped keep onlyEphemeral).Nodup :=
  (List.nodup_mergeSort.mpr hnodup).filter _

theorem foldl_letGoIf (onlyEphemeral : Bool) {codes : List KeyCode} (hcodes : codes.Nodup)
    (synthesizer : Synthesizer) :
    codes.foldl (letGoIf onlyEphemeral) synthesizer =
      (codes.filter fun code =>
        !onlyEphemeral || synthesizer.ephemeral.contains code).foldl letGo synthesizer := by
  induction codes generalizing synthesizer with
  | nil => rfl
  | cons code rest ih =>
      obtain ⟨hcode, hrest⟩ := List.nodup_cons.mp hcodes
      rw [List.foldl_cons, letGoIf]
      cases hgoes : !onlyEphemeral || synthesizer.ephemeral.contains code with
      | false =>
          have hkept : (onlyEphemeral && !synthesizer.ephemeral.contains code) = true := by
            rw [← Bool.not_eq_false', Bool.not_and, Bool.not_not, hgoes]
          rw [if_pos hkept, ih hrest]
          simp only [List.filter_cons, hgoes, Bool.false_eq_true, if_false]
      | true =>
          have hkept : (onlyEphemeral && !synthesizer.ephemeral.contains code) = false := by
            rw [← Bool.not_eq_true', Bool.not_and, Bool.not_not, hgoes]
          rw [hkept, if_neg (by simp), ih hrest]
          simp only [List.filter_cons, hgoes, if_true, List.foldl_cons]
          -- letting go of this key takes no other out of the ephemeral ones
          congr 1
          refine List.filter_congr fun other hother => ?_
          have hne : other ≠ code := fun heq => hcode (heq ▸ hother)
          congr 1
          rw [Bool.eq_iff_iff]
          simp [hne]

/-- Letting go of keys that are down, one after another. -/
theorem moves_foldl_letGo {codes : List KeyCode} {synthesizer : Synthesizer}
    (hnodup : synthesizer.held.Nodup) (hcodes : codes.Nodup)
    (hsub : codes ⊆ synthesizer.held) :
    ∃ events, Moves synthesizer events (codes.foldl letGo synthesizer) ∧
      events.map (·.code) = codes ∧
      (codes.foldl letGo synthesizer).held =
        synthesizer.held.filter (!codes.contains ·) ∧
      (codes.foldl letGo synthesizer).ephemeral =
        synthesizer.ephemeral.filter (!codes.contains ·) := by
  induction codes generalizing synthesizer with
  | nil => exact ⟨[], .done, rfl, by simp, by simp⟩
  | cons code rest ih =>
      obtain ⟨hcode, hrest⟩ := List.nodup_cons.mp hcodes
      have hsubRest : rest ⊆ (synthesizer.letGo code).held := by
        intro other hother
        rw [held_letGo, hnodup.mem_erase_iff]
        exact ⟨fun heq => hcode (heq ▸ hother), hsub (List.mem_cons_of_mem _ hother)⟩
      obtain ⟨events, hmoves, hevents, hheld, hephemeral⟩ :=
        ih (hnodup.erase code) hrest hsubRest
      refine ⟨_, .letGo (hsub (List.mem_cons_self ..)) hmoves, by simp [hevents], ?_, ?_⟩
      · rw [List.foldl_cons, hheld, held_letGo, hnodup.erase_eq_filter, List.filter_filter]
        refine List.filter_congr fun other _ => ?_
        rw [List.contains_cons, Bool.not_or, Bool.and_comm]
        rfl
      · rw [List.foldl_cons, hephemeral, ephemeral_letGo, List.filter_filter]
        refine List.filter_congr fun other _ => ?_
        simp [Bool.and_comm]

theorem sortForRelease_eq {codes : List KeyCode} (hcodes : codes ⊆ ephemeralKeys) :
    ModifierKey.sortForRelease codes =
      .ok (codes.mergeSort fun first second => ModifierKey.inOrder second first) := by
  have hnone : codes.find? (!·.isModifier) = none := by
    refine List.find?_eq_none.mpr fun code hcode => ?_
    obtain ⟨key, hkey, -, rfl⟩ :=
      ModifierGroup.exists_key_of_mem_ephemeralKeys (hcodes hcode)
    simp [KeyCode.isModifier_iff.mpr ⟨key, hkey, rfl⟩]
  rw [ModifierKey.sortForRelease, hnone]

/-- What need not be kept is let go, and nothing else happens. -/
theorem moves_releaseUnless {synthesizer : Synthesizer} (hconsistent : synthesizer.Consistent)
    (keep : List KeyCode) (onlyEphemeral : Bool) :
    ∃ events released, synthesizer.releaseUnless keep onlyEphemeral = .ok released ∧
      Moves synthesizer events released ∧
      events.map (·.code) = synthesizer.dropped keep onlyEphemeral ∧
      released.held =
        synthesizer.held.filter (!(synthesizer.dropped keep onlyEphemeral).contains ·) ∧
      released.ephemeral =
        synthesizer.ephemeral.filter (!(synthesizer.dropped keep onlyEphemeral).contains ·) := by
  obtain ⟨events, hmoves, hspec⟩ := moves_foldl_letGo hconsistent.nodup
    (nodup_dropped hconsistent.nodup keep onlyEphemeral)
    fun code hcode => (mem_dropped.mp hcode).1
  refine ⟨events, _, ?_, hmoves, hspec⟩
  rw [releaseUnless, sortForRelease_eq hconsistent.held_subset]
  change Except.ok _ = _
  rw [foldl_letGoIf _ ((List.nodup_mergeSort.mpr hconsistent.nodup).filter _),
    List.filter_filter, dropped]
  simp only [Bool.and_comm]

/-- Pressing the keys of a target that are up, one after another. -/
theorem moves_foldl_pressEphemeral {target : List KeyCode} (synthesizer : Synthesizer)
    (htarget : target.Nodup) (hsub : target ⊆ ephemeralKeys) :
    ∃ events, Moves synthesizer events (target.foldl pressEphemeral synthesizer) ∧
      events.map (·.code) = target.filter (!synthesizer.held.contains ·) ∧
      (target.foldl pressEphemeral synthesizer).held =
        synthesizer.held ++ target.filter (!synthesizer.held.contains ·) := by
  induction target generalizing synthesizer with
  | nil => exact ⟨[], .done, rfl, by simp⟩
  | cons code rest ih =>
      obtain ⟨hcode, hrest⟩ := List.nodup_cons.mp htarget
      obtain ⟨hcodeSub, hrestSub⟩ := List.cons_subset.mp hsub
      rw [List.foldl_cons, pressEphemeral]
      by_cases hdown : code ∈ synthesizer.held
      · rw [if_pos hdown, List.filter_cons_of_neg (by simpa using hdown)]
        exact ih synthesizer hrest hrestSub
      · obtain ⟨events, hmoves, hevents, hheld⟩ :=
          ih (synthesizer.pressNew code) hrest hrestSub
        have hsame : rest.filter (!(synthesizer.pressNew code).held.contains ·) =
            rest.filter (!synthesizer.held.contains ·) := by
          refine List.filter_congr fun other hother => ?_
          have hne : other ≠ code := fun heq => hcode (heq ▸ hother)
          simp [hne]
        rw [hsame] at hevents hheld
        rw [if_neg hdown, List.filter_cons_of_pos (by simpa using hdown)]
        refine ⟨_, .press hcodeSub hdown hmoves, by simp [hevents], ?_⟩
        exact hheld.trans (by simp)

/-- Afterwards exactly the keys of the target are down; those that were down and those
that were not are released and pressed once each. -/
theorem moves_hold {synthesizer : Synthesizer} (hconsistent : synthesizer.Consistent)
    {target : List KeyCode} (htarget : target.Nodup) (hsub : target ⊆ ephemeralKeys) :
    ∃ events held, synthesizer.hold target = .ok held ∧
      Moves synthesizer events held ∧
      events.map (·.code) = synthesizer.dropped target false ++
        target.filter (!synthesizer.held.contains ·) ∧
      ∀ code, code ∈ held.held ↔ code ∈ target := by
  obtain ⟨releases, released, hok, hreleases, hreleaseCodes, hheld, -⟩ :=
    moves_releaseUnless hconsistent target false
  obtain ⟨presses, hpresses, hpressCodes, hpressed⟩ :=
    moves_foldl_pressEphemeral released htarget hsub
  have hkept : ∀ code, code ∈ released.held ↔ code ∈ synthesizer.held ∧ code ∈ target := by
    intro code
    rw [hheld, List.mem_filter]
    simp only [Bool.not_eq_true', ← Bool.not_eq_true, List.contains_iff_mem, mem_dropped,
      Bool.false_eq_true, false_implies, and_true, not_and, not_not]
    exact and_congr_right fun hdown => ⟨fun hkeep => hkeep hdown, fun hkeep _ => hkeep⟩
  have hup : target.filter (!released.held.contains ·) =
      target.filter (!synthesizer.held.contains ·) := by
    refine List.filter_congr fun code hcode => ?_
    congr 1
    rw [Bool.eq_iff_iff]
    simp [hkept, hcode]
  rw [hup] at hpressCodes hpressed
  refine ⟨releases ++ presses, target.foldl pressEphemeral released, ?_,
    hreleases.trans hpresses, ?_, fun code => ?_⟩
  · rw [hold, hok]
    rfl
  · rw [List.map_append, hreleaseCodes, hpressCodes]
  · rw [hpressed, List.mem_append, hkept, List.mem_filter]
    by_cases hdown : code ∈ synthesizer.held <;> simp [hdown]

end KeyLayout.Synthesizer
