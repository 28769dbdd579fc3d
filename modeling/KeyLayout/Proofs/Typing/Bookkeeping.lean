import KeyLayout.Proofs.Modifier.Release
import KeyLayout.Proofs.Typing.LookAhead
import KeyLayout.Stream

namespace KeyLayout

/-! The books that are kept while a text is typed.  What is held at any point of a run is
in order, and what is pressed for a character is let go again.  A tracker that sees the
events alone arrives at the same meta states. -/

namespace Synthesizer

open ModifierGroup (ephemeralKeys)

variable {synthesizer : Synthesizer} {code : KeyCode}

/-- The synthesizers from before the first release to after the last one. -/
def releasing (synthesizer : Synthesizer) (keep : List KeyCode) (onlyEphemeral : Bool) :
    List Synthesizer :=
  match ModifierKey.sortForRelease synthesizer.held with
  | .error _ => [synthesizer]
  | .ok keys => (keys.filter (!keep.contains ·)).scanl (letGoIf onlyEphemeral) synthesizer

/-- The synthesizers from before the first release to after the last press. -/
def holding (synthesizer : Synthesizer) (target : List KeyCode) : List Synthesizer :=
  synthesizer.releasing target false ++
    match synthesizer.releaseUnless target false with
    | .error _ => []
    | .ok released => target.scanl pressEphemeral released

/-- The keys that are down and were not pressed here. -/
def ambient (synthesizer : Synthesizer) : List KeyCode :=
  synthesizer.held.filter (!synthesizer.ephemeral.contains ·)

theorem forall_mem_scanl {σ α : Type} {step : σ → α → σ} {holds : σ → Prop} {items : List α}
    {first : σ} (hfirst : holds first)
    (hstep : ∀ state, ∀ item ∈ items, holds state → holds (step state item)) :
    ∀ state ∈ items.scanl step first, holds state := by
  induction items generalizing first with
  | nil => simpa using hfirst
  | cons item rest ih =>
      rw [List.scanl_cons, List.forall_mem_cons]
      refine ⟨hfirst, ih (hstep first item (List.mem_cons_self ..) hfirst) ?_⟩
      exact fun state other hother => hstep state other (List.mem_cons_of_mem _ hother)

theorem Consistent.letGoIf (hconsistent : synthesizer.Consistent) (onlyEphemeral : Bool)
    (code : KeyCode) : (synthesizer.letGoIf onlyEphemeral code).Consistent := by
  rw [Synthesizer.letGoIf]
  split
  · exact hconsistent
  · exact hconsistent.letGo code

theorem Consistent.pressEphemeral (hconsistent : synthesizer.Consistent)
    (hcode : code ∈ ephemeralKeys) : (synthesizer.pressEphemeral code).Consistent := by
  rw [Synthesizer.pressEphemeral]
  split
  next => exact hconsistent
  next hup => exact hconsistent.pressNew hcode hup

theorem Consistent.releasing (hconsistent : synthesizer.Consistent) (keep : List KeyCode)
    (onlyEphemeral : Bool) :
    ∀ point ∈ synthesizer.releasing keep onlyEphemeral, point.Consistent := by
  rw [Synthesizer.releasing, sortForRelease_eq hconsistent.held_subset]
  exact forall_mem_scanl hconsistent fun point code _ hpoint => hpoint.letGoIf onlyEphemeral code

theorem Consistent.holding (hconsistent : synthesizer.Consistent) {target : List KeyCode}
    (htarget : target ⊆ ephemeralKeys) :
    ∀ point ∈ synthesizer.holding target, point.Consistent := by
  obtain ⟨events, released, hok, hmoves, -⟩ := moves_releaseUnless hconsistent target false
  rw [Synthesizer.holding, hok, List.forall_mem_append]
  refine ⟨hconsistent.releasing target false, forall_mem_scanl (hmoves.consistent hconsistent) ?_⟩
  exact fun point code hcode hpoint => hpoint.pressEphemeral (htarget hcode)

theorem getLast?_releasing {keep : List KeyCode} {onlyEphemeral : Bool}
    {released : Synthesizer} (hok : synthesizer.releaseUnless keep onlyEphemeral = .ok released) :
    (synthesizer.releasing keep onlyEphemeral).getLast? = some released := by
  rw [releaseUnless] at hok
  rw [releasing]
  cases hkeys : ModifierKey.sortForRelease synthesizer.held with
  | error error => rw [hkeys] at hok; contradiction
  | ok keys =>
      rw [hkeys] at hok
      rw [← Except.ok.inj hok]
      exact List.getLast?_scanl

theorem getLast?_holding {target : List KeyCode} {held : Synthesizer}
    (hok : synthesizer.hold target = .ok held) :
    (synthesizer.holding target).getLast? = some held := by
  rw [hold] at hok
  rw [holding]
  cases hreleased : synthesizer.releaseUnless target false with
  | error error => rw [hreleased] at hok; contradiction
  | ok released =>
      rw [hreleased] at hok
      rw [← Except.ok.inj hok, List.getLast?_append, List.getLast?_scanl]
      rfl

theorem ambient_pressNew (hup : code ∉ synthesizer.held) :
    (synthesizer.pressNew code).ambient = synthesizer.ambient := by
  rw [ambient, held_pressNew, ephemeral_pressNew, List.filter_append]
  have hnew : [code].filter (!(synthesizer.ephemeral.insert code).contains ·) = [] := by simp
  rw [hnew, List.append_nil]
  refine List.filter_congr fun other hother => ?_
  have hne : other ≠ code := fun heq => hup (heq ▸ hother)
  congr 1
  rw [Bool.eq_iff_iff]
  simp [hne]

theorem ambient_letGo (hnodup : synthesizer.held.Nodup) :
    (synthesizer.letGo code).ambient = synthesizer.ambient.filter (· ≠ code) := by
  rw [ambient, held_letGo, ephemeral_letGo, hnodup.erase_eq_filter, List.filter_filter, ambient,
    List.filter_filter]
  refine List.filter_congr fun other _ => ?_
  rw [Bool.eq_iff_iff]
  simp only [List.contains_iff_mem, List.mem_filter, Bool.and_eq_true, Bool.not_eq_true',
    ← Bool.not_eq_true, decide_eq_true_eq, bne_iff_ne]
  exact ⟨fun ⟨hkept, hne⟩ => ⟨hne, fun hown => hkept ⟨hown, hne⟩⟩,
    fun ⟨hne, hown⟩ => ⟨fun hkept => hown hkept.1, hne⟩⟩

theorem state_pressNew :
    (synthesizer.pressNew code).state = synthesizer.state.update code true := by
  rw [state, held_pressNew, locks_pressNew, MetaState.held, List.foldl_append]
  rfl

theorem state_letGo (hconsistent : synthesizer.Consistent) (hdown : code ∈ synthesizer.held) :
    (synthesizer.letGo code).state = synthesizer.state.update code false := by
  obtain ⟨own, hlocks⟩ := hconsistent.locks_eq
  obtain ⟨key, hkey, hhold, rfl⟩ :=
    ModifierGroup.exists_key_of_mem_ephemeralKeys (hconsistent.held_subset hdown)
  rw [state, held_letGo, locks_letGo, state, hlocks]
  exact (MetaState.update_held_up hconsistent.nodup hconsistent.held_subset hkey hhold).symm

namespace Moves

variable {first last : Synthesizer} {events : List KeyEvent}

/-- Of the keys that were found down those stay that no move touches. -/
theorem ambient_eq (hmoves : Moves first events last) (hconsistent : first.Consistent) :
    last.ambient = first.ambient.filter (!(events.map (·.code)).contains ·) := by
  induction hmoves with
  | done => simp
  | @press synthesizer last code events hcode hup _ ih =>
      rw [ih (hconsistent.pressNew hcode hup), ambient_pressNew hup]
      refine List.filter_congr fun other hother => ?_
      have hne : other ≠ code := fun heq => hup (heq ▸ (List.mem_filter.mp hother).1)
      rw [List.map_cons, List.contains_cons, beq_eq_false_iff_ne.mpr hne, Bool.false_or]
  | @letGo synthesizer last code events _ _ ih =>
      rw [ih (hconsistent.letGo code), ambient_letGo hconsistent.nodup, List.filter_filter]
      refine List.filter_congr fun other _ => ?_
      rw [List.map_cons, List.contains_cons, Bool.not_or, Bool.and_comm, decide_not,
        ← beq_eq_decide]

/-- The tracker follows the moves: each carries the state that is tracked. -/
theorem track (hmoves : Moves first events last) (hconsistent : first.Consistent)
    (rest : List KeyEvent) :
    first.state.track (events ++ rest) = events ++ last.state.track rest := by
  induction hmoves with
  | done => rfl
  | press hcode hup _ ih =>
      rw [List.cons_append, MetaState.track, MetaState.follow, ← state_pressNew,
        ih (hconsistent.pressNew hcode hup), List.cons_append]
  | letGo hdown _ ih =>
      rw [List.cons_append, MetaState.track, MetaState.follow, ← state_letGo hconsistent hdown,
        ih (hconsistent.letGo _), List.cons_append]

end Moves

end Synthesizer

namespace Stroke

open Synthesizer (Consistent mem_dropped)

variable {stroke : Stroke} {character : CodePoint} {next : Option CodePoint}

/-- The synthesizers that a stroke goes through; the tap itself moves no modifier key. -/
def points (stroke : Stroke) : List Synthesizer :=
  stroke.start.holding stroke.plan.target ++ stroke.struck.releasing stroke.keep true

theorem Strikes.consistent_points (hstrikes : stroke.Strikes character next)
    (hconsistent : stroke.start.Consistent) : ∀ point ∈ stroke.points, point.Consistent := by
  rw [points, List.forall_mem_append]
  exact ⟨hconsistent.holding hstrikes.target_sublist.subset,
    (hstrikes.consistent_struck hconsistent).releasing stroke.keep true⟩

/-- A stroke keeps those of the keys that were found down which its target holds. -/
theorem Strikes.ambient_released (hstrikes : stroke.Strikes character next)
    (hconsistent : stroke.start.Consistent) :
    stroke.released.ambient =
      stroke.start.ambient.filter (stroke.plan.target.contains ·) := by
  obtain ⟨hopening, hopened⟩ := hstrikes.moves_opening hconsistent
  have hstruck := hstrikes.consistent_struck hconsistent
  obtain ⟨hclosing, hclosed⟩ := hstrikes.moves_closing hconsistent
  have hkept : stroke.released.ambient = stroke.held.ambient := by
    rw [hclosing.ambient_eq hstruck, hclosed]
    refine List.filter_eq_self.mpr fun code hcode => ?_
    have hfound := (List.mem_filter.mp hcode).2
    simp only [Bool.not_eq_true', ← Bool.not_eq_true, List.contains_iff_mem] at hfound ⊢
    exact fun hdropped => hfound ((mem_dropped.mp hdropped).2.2 rfl)
  rw [hkept, hopening.ambient_eq hconsistent, hopened]
  refine List.filter_congr fun code hcode => ?_
  have hdown := (List.mem_filter.mp hcode).1
  rw [Bool.eq_iff_iff]
  simp [mem_dropped, hdown]

/-- With no character to come, nothing stays down that was pressed here. -/
theorem Strikes.ephemeral_released (hstrikes : stroke.Strikes character none)
    (hconsistent : stroke.start.Consistent) : stroke.released.ephemeral = [] := by
  have hstruck := hstrikes.consistent_struck hconsistent
  obtain ⟨-, released, hok, -, -, -, hephemeral⟩ :=
    Synthesizer.moves_releaseUnless hstruck stroke.keep true
  have hkeep : stroke.keep = [] := (Except.ok.inj hstrikes.keep_eq).symm
  rw [hstrikes.released_eq, Except.ok.injEq] at hok
  rw [hok, hephemeral]
  refine List.filter_eq_nil_iff.mpr fun code hcode => ?_
  have hdropped : code ∈ stroke.struck.dropped stroke.keep true := mem_dropped.mpr
    ⟨hstruck.ephemeral_subset hcode, by simp [hkeep], fun _ => hcode⟩
  simpa using hdropped

theorem Strikes.track (hstrikes : stroke.Strikes character next)
    (hconsistent : stroke.start.Consistent) (hcode : stroke.plan.code.isModifier = false)
    (rest : List KeyEvent) :
    stroke.start.state.track (stroke.events ++ rest) =
      stroke.events ++ stroke.released.state.track rest := by
  have hopening := (hstrikes.moves_opening hconsistent).1
  have hclosing := (hstrikes.moves_closing hconsistent).1
  have htracked := hclosing.track (hstrikes.consistent_struck hconsistent) rest
  have hstay : ∀ down, stroke.held.state.update stroke.plan.code down = stroke.held.state :=
    MetaState.update_of_not_isModifier hcode
  rw [events, List.append_assoc, List.append_assoc, hopening.track hconsistent]
  simp only [List.cons_append, List.nil_append, MetaState.track, MetaState.follow, hstay]
  rw [show stroke.held.state = stroke.struck.state from rfl, htracked]
  simp

end Stroke

namespace Synthesizer

open ModifierGroup (ephemeralKeys)

variable {first last : Synthesizer} {text : Text} {strokes : List Stroke}

namespace Types

theorem consistent_points (htypes : first.Types text strokes last)
    (hconsistent : first.Consistent) :
    ∀ point ∈ first :: strokes.flatMap Stroke.points, point.Consistent := by
  induction htypes with
  | done => simpa using hconsistent
  | @strike stroke character rest strokes last hstrikes _ ih =>
      have hrest := List.forall_mem_cons.mp (ih (hstrikes.consistent_released hconsistent))
      rw [List.flatMap_cons, List.forall_mem_cons, List.forall_mem_append]
      exact ⟨hconsistent, hstrikes.consistent_points hconsistent, hrest.2⟩

theorem ambient_eq (htypes : first.Types text strokes last) (hconsistent : first.Consistent) :
    last.ambient = first.ambient.filter fun code =>
      strokes.all (·.plan.target.contains code) := by
  induction htypes with
  | done => simp
  | strike hstrikes _ ih =>
      rw [ih (hstrikes.consistent_released hconsistent), hstrikes.ambient_released hconsistent,
        List.filter_filter]
      refine List.filter_congr fun code _ => ?_
      rw [List.all_cons, Bool.and_comm]

theorem ephemeral_eq_nil (htypes : first.Types text strokes last)
    (hconsistent : first.Consistent) (hnone : text = [] → first.ephemeral = []) :
    last.ephemeral = [] := by
  induction htypes with
  | done => exact hnone rfl
  | strike hstrikes _ ih =>
      refine ih (hstrikes.consistent_released hconsistent) fun hend => ?_
      subst hend
      exact hstrikes.ephemeral_released hconsistent

theorem track (htypes : first.Types text strokes last) (hconsistent : first.Consistent)
    (hkeys : ∀ key ∈ ModifierKey.all, first.map.keys.get? key.code = none) :
    first.state.track (strokes.flatMap Stroke.events) = strokes.flatMap Stroke.events := by
  induction htypes with
  | done => rfl
  | strike hstrikes _ ih =>
      have hcode := KeyMap.isModifier_eq_false_of_character? hkeys
        (character?_of_plan? hstrikes.plan_eq)
      rw [List.flatMap_cons, hstrikes.track hconsistent hcode,
        ih (hstrikes.consistent_released hconsistent)
          (hstrikes.map_released hconsistent ▸ hkeys)]

end Types

/-- At every point of a run the keys that are down are in order, and the points lead to each
tap, at which they are those of the target, and on from there.  In the end only keys are
down that were so from the start and that every target holds, and the tracker finds every
event stamped as it stamps them itself. -/
theorem typeText_bookkeeping {map : KeyMap} {device : Int} {state : MetaState} {text : Text}
    {typed : Synthesizer} (htyped : (start map device state).typeText text = .ok typed) :
    ∃ strokes, (start map device state).Types text strokes typed ∧
      (∀ point ∈ start map device state :: strokes.flatMap Stroke.points,
        point.held.Nodup ∧ point.held ⊆ ephemeralKeys ∧ point.ephemeral ⊆ point.held) ∧
      (∀ stroke ∈ strokes,
        (stroke.start.holding stroke.plan.target).getLast? = some stroke.held ∧
        (stroke.struck.releasing stroke.keep true).getLast? = some stroke.released ∧
        ∀ code, code ∈ stroke.held.held ↔ code ∈ stroke.plan.target) ∧
      typed.ephemeral = [] ∧
      typed.held = state.heldKeys.filter (fun code =>
        strokes.all (·.plan.target.contains code)) ∧
      ((∀ key ∈ ModifierKey.all, map.keys.get? key.code = none) →
        Section.apply map (MetaState.held state.heldKeys state.lockBits) typed.events.toList
          .modifierTracking = typed.events.toList) := by
  obtain ⟨strokes, htypes⟩ := typeText_eq_ok_iff.mp htyped
  have hconsistent := consistent_start map device state
  have hephemeral := htypes.ephemeral_eq_nil hconsistent fun _ => rfl
  have hambient := htypes.ambient_eq hconsistent
  refine ⟨strokes, htypes, fun point hpoint => ?_, ?_, hephemeral, ?_, fun hkeys => ?_⟩
  · have hbooks := htypes.consistent_points hconsistent point hpoint
    exact ⟨hbooks.nodup, hbooks.held_subset, hbooks.ephemeral_subset⟩
  · refine htypes.forall_mem hconsistent fun stroke character next hstrikes hstart => ?_
    obtain ⟨-, -, -, hheld⟩ := hstrikes.moves_held hstart
    exact ⟨getLast?_holding hstrikes.held_eq, getLast?_releasing hstrikes.released_eq, hheld⟩
  · rw [ambient, hephemeral] at hambient
    simpa [ambient, start] using hambient
  · rw [htypes.events_of_start]
    exact htypes.track hconsistent hkeys

theorem typeText_bookkeeping_oneKey :
    (∀ key ∈ ModifierKey.all, KeyMap.oneKey.keys.get? key.code = none) ∧
      ∃ typed, (start KeyMap.oneKey 0 0x41).typeText "aAa" = .ok typed ∧
        ∃ strokes, (start KeyMap.oneKey 0 0x41).Types "aAa" strokes typed ∧
          (∀ point ∈ start KeyMap.oneKey 0 0x41 :: strokes.flatMap Stroke.points,
            point.held.Nodup ∧ point.held ⊆ ephemeralKeys ∧ point.ephemeral ⊆ point.held) ∧
          (∀ stroke ∈ strokes,
            (stroke.start.holding stroke.plan.target).getLast? = some stroke.held ∧
            (stroke.struck.releasing stroke.keep true).getLast? = some stroke.released ∧
            ∀ code, code ∈ stroke.held.held ↔ code ∈ stroke.plan.target) ∧
          typed.ephemeral = [] ∧
          typed.held = [59].filter (fun code => strokes.all (·.plan.target.contains code)) ∧
          Section.apply KeyMap.oneKey 0x41 typed.events.toList .modifierTracking =
            typed.events.toList := by
  have hkeys : ∀ key ∈ ModifierKey.all, KeyMap.oneKey.keys.get? key.code = none := by decide
  obtain ⟨typed, htyped⟩ := exists_typed (consistent_start KeyMap.oneKey 0 0x41)
    KeyMap.typable_oneKey
  obtain ⟨strokes, htypes, hpoints, hstrokes, hephemeral, hheld, htracked⟩ :=
    typeText_bookkeeping htyped
  exact ⟨hkeys, typed, htyped, strokes, htypes, hpoints, hstrokes, hephemeral, hheld,
    htracked hkeys⟩

end Synthesizer

end KeyLayout
