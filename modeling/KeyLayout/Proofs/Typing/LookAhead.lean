import KeyLayout.Proofs.KeyMap.Candidates
import KeyLayout.Proofs.Typing.Run
import Mathlib.Data.List.Chain

namespace KeyLayout

/-! A character is planned ahead, and planned again after the keys were let go that the
first plan does not need.  The second plan presses none of these: either it is the first
one, or it keeps what is down. -/

namespace ModifierGroup

variable {group : ModifierGroup} {fewer more : List KeyCode}

theorem options_subset (hgroup : group ∈ ephemeral) (mask : MetaState)
    (hsub : fewer ⊆ more) : group.options mask fewer ⊆ group.options mask more := by
  have hhold := mem_ephemeral.mp hgroup
  rw [options_eq_ways hhold, options_eq_ways hhold]
  exact ways_subset_of_sublist group _ _ (down_mem_sublists ..) _
    (down_mem_sublists_down fun code hcode => hsub hcode)

/-- An option of which no key was let go is still one, and no other got ahead of it. -/
theorem mem_options_of_letGo (hgroup : group ∈ ephemeral) {mask : MetaState}
    (hsub : fewer ⊆ more) {way : List KeyCode} (hway : way ∈ group.options mask more)
    (hkept : ∀ code ∈ more, code ∈ way → code ∈ fewer) :
    way ∈ group.options mask fewer ∧
      (group.options mask fewer).takeWhile (· ≠ way) ⊆
        (group.options mask more).takeWhile (· ≠ way) := by
  have hhold := mem_ephemeral.mp hgroup
  rw [options_eq_ways hhold] at hway ⊢
  rw [options_eq_ways hhold]
  have hdown : ∀ code ∈ group.down more, code ∈ way → code ∈ group.down fewer := by
    intro code hcode hmem
    obtain ⟨hkeys, hmore⟩ := mem_down.mp hcode
    exact mem_down.mpr ⟨hkeys, hkept code hmore hmem⟩
  have hfewer : group.down fewer ∈ (group.down more).sublists :=
    down_mem_sublists_down fun code hcode => hsub hcode
  exact ⟨mem_ways_of_letGo group _ _ (down_mem_sublists ..) way hway _ hfewer hdown,
    ahead_subset_of_letGo group _ _ (down_mem_sublists ..) way hway _ hfewer hdown⟩

end ModifierGroup

namespace Synthesizer

variable {synthesizer wide narrow : Synthesizer} {character : CodePoint}

/-- The candidates by the bits of their masks, before any is preferred. -/
def ranked (synthesizer : Synthesizer) (character : CodePoint) : List Candidate :=
  (synthesizer.map.producers [character] (some synthesizer.locks)).mergeSort
    (StableSort.byRank fun candidate => candidate.mask.bitCount)

theorem candidates_eq (synthesizer : Synthesizer) (character : CodePoint) :
    synthesizer.candidates character =
      (synthesizer.ranked character).filter (·.mask = synthesizer.state) ++
        (synthesizer.ranked character).filter
          fun candidate => !decide (candidate.mask = synthesizer.state) := by
  rw [candidates, KeyMap.reverseMatches_without_labels, Candidate.precedes_eq_byRank,
    Candidate.rank, StableSort.mergeSort_preferring]
  rfl

def planFor? (synthesizer : Synthesizer) (character : CodePoint) (candidate : Candidate) :
    Option TypingPlan :=
  (synthesizer.target? character candidate).map fun target => ⟨candidate.code, target⟩

theorem findSome?_filter_not {α β : Type} {prefers : α → Bool} {found? : α → Option β}
    {elements : List α} (hnone : (elements.filter prefers).findSome? found? = none) :
    (elements.filter (!prefers ·)).findSome? found? = elements.findSome? found? := by
  induction elements with
  | nil => rfl
  | cons element rest ih =>
      cases hprefers : prefers element with
      | true =>
          rw [List.filter_cons_of_pos hprefers, List.findSome?_cons] at hnone
          cases hfound : found? element with
          | some value => rw [hfound] at hnone; contradiction
          | none =>
              rw [hfound] at hnone
              rw [List.filter_cons_of_neg (by simp [hprefers]), List.findSome?_cons, hfound]
              exact ih hnone
      | false =>
          rw [List.filter_cons_of_neg (by simp [hprefers])] at hnone
          rw [List.filter_cons_of_pos (by simp [hprefers]), List.findSome?_cons,
            List.findSome?_cons, ih hnone]

/-- The first result is found again when no result is gained and this one is not lost. -/
theorem findSome?_of_fewer {α β : Type} {found? fewer? : α → Option β} {elements : List α}
    {value : β} (hfound : elements.findSome? found? = some value)
    (hnone : ∀ element, found? element = none → fewer? element = none)
    (hsome : ∀ element, found? element = some value → fewer? element = some value) :
    elements.findSome? fewer? = some value := by
  induction elements with
  | nil => contradiction
  | cons element rest ih =>
      rw [List.findSome?_cons] at hfound ⊢
      cases helement : found? element with
      | none =>
          rw [helement] at hfound
          rw [hnone element helement]
          exact ih hfound
      | some own =>
          rw [helement] at hfound
          obtain rfl : own = value := Option.some.inj hfound
          rw [hsome element helement]

/-- A plan keeps the state, or it is the first one of all that are ranked. -/
theorem plan?_cases {plan : TypingPlan} (hplan : synthesizer.plan? character = some plan) :
    (∃ candidate : Candidate, candidate.mask = synthesizer.state ∧
      synthesizer.target? character candidate = some plan.target) ∨
    (synthesizer.ranked character).findSome? (synthesizer.planFor? character) =
      some plan := by
  change (synthesizer.candidates character).findSome? (synthesizer.planFor? character) =
    some plan at hplan
  rw [candidates_eq, List.findSome?_append] at hplan
  cases hpreferred : ((synthesizer.ranked character).filter
      (·.mask = synthesizer.state)).findSome? (synthesizer.planFor? character) with
  | none =>
      rw [hpreferred, Option.none_or, findSome?_filter_not hpreferred] at hplan
      exact .inr hplan
  | some own =>
      rw [hpreferred, Option.some_or, Option.some.injEq] at hplan
      subst own
      obtain ⟨candidate, hcandidate, hfound⟩ := List.exists_of_findSome?_eq_some hpreferred
      obtain ⟨target, htarget, rfl⟩ := Option.map_eq_some_iff.mp hfound
      have hmask := (List.mem_filter.mp hcandidate).2
      exact .inl ⟨candidate, of_decide_eq_true hmask, htarget⟩

/-- Where the mask is the state already, the keys that are down are the target. -/
theorem mem_target_iff_of_mask_eq (hconsistent : synthesizer.Consistent)
    {candidate : Candidate} (hmask : candidate.mask = synthesizer.state)
    {target : List KeyCode} (htarget : synthesizer.target? character candidate = some target)
    (code : KeyCode) : code ∈ target ↔ code ∈ synthesizer.held := by
  have hshows := hconsistent.shows
  rw [target?, KeyMap.planModifiers_eq_find?, hmask] at htarget
  obtain ⟨hoption, heq⟩ :=
    KeyMap.eq_flatMap_down_of_mem_targets (List.mem_of_find?_eq_some htarget)
  have hdown : ∀ group ∈ ModifierGroup.ephemeral,
      group.down target = group.down synthesizer.held := by
    intro group hgroup
    have hhold := ModifierGroup.mem_ephemeral.mp hgroup
    have hway := hoption group hgroup
    rw [ModifierGroup.options_eq_ways hhold,
      ModifierGroup.ways_congr group (hshows.sides_alike hhold),
      ← ModifierGroup.grip_down group synthesizer.held] at hway
    exact ModifierGroup.eq_of_mem_ways_grip group _ (ModifierGroup.down_mem_sublists ..) _ hway
  rw [heq, List.mem_flatMap]
  constructor
  · rintro ⟨group, hgroup, hmem⟩
    rw [hdown group hgroup] at hmem
    exact (ModifierGroup.mem_down.mp hmem).2
  · intro hcode
    obtain ⟨group, hgroup, hkeys⟩ :=
      ModifierGroup.mem_ephemeralKeys.mp (hconsistent.held_subset hcode)
    refine ⟨group, hgroup, ?_⟩
    rw [hdown group hgroup]
    exact ModifierGroup.mem_down.mpr ⟨hkeys, hcode⟩

section Narrow

variable (hmap : narrow.map = wide.map) (hlocks : narrow.locks = wide.locks)
  (hsub : narrow.held ⊆ wide.held)

include hmap hlocks hsub

theorem target?_eq_none_of_letGo {candidate : Candidate}
    (hnone : wide.target? character candidate = none) :
    narrow.target? character candidate = none := by
  rw [target?, KeyMap.planModifiers_eq_find?, List.find?_eq_none] at hnone ⊢
  rw [hmap, hlocks]
  refine fun target htarget => hnone target ?_
  exact KeyMap.choices_subset (fun group hgroup =>
    ModifierGroup.options_subset hgroup candidate.mask hsub) htarget

/-- With no key of it let go a target stays the target of its candidate. -/
theorem target?_eq_some_of_letGo {candidate : Candidate} {target : List KeyCode}
    (htarget : wide.target? character candidate = some target)
    (hkept : ∀ code ∈ wide.held, code ∈ target → code ∈ narrow.held) :
    narrow.target? character candidate = some target := by
  rw [target?, KeyMap.planModifiers, KeyMap.find?_choices_eq_some_iff] at htarget ⊢
  obtain ⟨picks, hleads, rfl⟩ := htarget
  rw [hmap, hlocks]
  refine ⟨picks, hleads.narrow (fun group hgroup =>
    ModifierGroup.options_subset hgroup candidate.mask hsub) ?_, rfl⟩
  intro group hgroup pick hpick hoption
  refine ModifierGroup.mem_options_of_letGo hgroup hsub hoption fun code hcode hmem => ?_
  exact hkept code hcode (List.mem_flatten.mpr ⟨pick, hpick, hmem⟩)

end Narrow

/-- The second plan presses no key that was let go after the first one: it has the target
of the first plan, or none but keys that are still down. -/
theorem plan?_of_letGo (hmap : narrow.map = wide.map) (hlocks : narrow.locks = wide.locks)
    (hwide : wide.Consistent) (hnarrow : narrow.Consistent)
    (hsublist : narrow.held.Sublist wide.held) {ahead plan : TypingPlan}
    (hahead : wide.plan? character = some ahead)
    (hkept : ∀ code ∈ wide.held, code ∈ ahead.target → code ∈ narrow.held)
    (hplan : narrow.plan? character = some plan) :
    plan.target = ahead.target ∨ plan.target ⊆ narrow.held := by
  rcases plan?_cases hplan with ⟨candidate, hmask, htarget⟩ | hranked
  · exact .inr fun code => (mem_target_iff_of_mask_eq hnarrow hmask htarget code).mp
  · rcases plan?_cases hahead with ⟨candidate, hmask, htarget⟩ | haheadRanked
    · -- the first plan keeps every key, so nothing was let go in between
      have hall : wide.held ⊆ narrow.held := fun code hcode =>
        hkept code hcode ((mem_target_iff_of_mask_eq hwide hmask htarget code).mpr hcode)
      have hheld : narrow.held = wide.held := hsublist.eq_of_length_le
        (hwide.nodup.subperm hall).length_le
      have hsame : narrow.plan? character = wide.plan? character := by
        simp only [plan?, candidates, target?, state, hmap, hlocks, hheld]
      rw [hsame, hahead, Option.some.injEq] at hplan
      exact .inl (hplan ▸ rfl)
    · -- neither plan comes from a preferred candidate, so both ranks are the same
      have hsame : narrow.ranked character = wide.ranked character := by
        rw [ranked, ranked, hmap, hlocks]
      have hfound : (wide.ranked character).findSome? (narrow.planFor? character) =
          some ahead := by
        refine findSome?_of_fewer haheadRanked (fun candidate hnone => ?_)
          fun candidate hsome => ?_
        · rw [planFor?, Option.map_eq_none_iff] at hnone ⊢
          exact target?_eq_none_of_letGo hmap hlocks hsublist.subset hnone
        · obtain ⟨target, htarget, rfl⟩ := Option.map_eq_some_iff.mp hsome
          rw [planFor?, target?_eq_some_of_letGo hmap hlocks hsublist.subset htarget hkept]
          rfl
      rw [hsame, hfound, Option.some.injEq] at hranked
      exact .inl (hranked ▸ rfl)

end Synthesizer

namespace Stroke

open Synthesizer (Moves Types dropped)

/-- The events before the tap. -/
def opening (stroke : Stroke) : List KeyEvent :=
  stroke.held.events.toList.drop stroke.start.events.size

/-- The events after the tap. -/
def closing (stroke : Stroke) : List KeyEvent :=
  stroke.released.events.toList.drop stroke.struck.events.size

/-- The events between the taps of two strokes that follow each other. -/
def between (first second : Stroke) : List KeyEvent :=
  first.closing ++ second.opening

def events (stroke : Stroke) : List KeyEvent :=
  stroke.opening ++
    [⟨stroke.held.device, stroke.plan.code, .pressed, stroke.held.state⟩,
      ⟨stroke.held.device, stroke.plan.code, .released, stroke.held.state⟩] ++ stroke.closing

variable {stroke first second : Stroke} {character following : CodePoint}
  {next : Option CodePoint}

theorem Strikes.moves_opening (hstrikes : stroke.Strikes character next)
    (hconsistent : stroke.start.Consistent) :
    Moves stroke.start stroke.opening stroke.held ∧
      stroke.opening.map (·.code) = stroke.start.dropped stroke.plan.target false ++
        stroke.plan.target.filter (!stroke.start.held.contains ·) := by
  obtain ⟨events, hmoves, hcodes, -⟩ := hstrikes.moves_held hconsistent
  have hopening : stroke.opening = events := hmoves.drop_events
  rw [hopening]
  exact ⟨hmoves, hcodes⟩

theorem Strikes.moves_closing (hstrikes : stroke.Strikes character next)
    (hconsistent : stroke.start.Consistent) :
    Moves stroke.struck stroke.closing stroke.released ∧
      stroke.closing.map (·.code) = stroke.struck.dropped stroke.keep true := by
  obtain ⟨events, hmoves, hcodes, -⟩ := hstrikes.moves_released hconsistent
  have hclosing : stroke.closing = events := hmoves.drop_events
  rw [hclosing]
  exact ⟨hmoves, hcodes⟩

theorem Strikes.events_released (hstrikes : stroke.Strikes character next)
    (hconsistent : stroke.start.Consistent) :
    stroke.released.events.toList = stroke.start.events.toList ++ stroke.events := by
  rw [(hstrikes.moves_closing hconsistent).1.events_eq, struck, Synthesizer.events_tap,
    Array.toList_push, Array.toList_push, (hstrikes.moves_opening hconsistent).1.events_eq,
    events]
  simp

/-- The target of the next plan is the one for which keys were kept, or presses none. -/
theorem Strikes.target_of_next (hfirst : first.Strikes character (some following))
    (hconsistent : first.start.Consistent) (hstart : second.start = first.released)
    (hsecond : second.Strikes following next) :
    second.plan.target = first.keep ∨ second.plan.target ⊆ first.released.held := by
  obtain ⟨ahead, hahead, hkeep⟩ : ∃ ahead, first.struck.plan? following = some ahead ∧
      ahead.target = first.keep := by
    have hkeep := hfirst.keep_eq
    rw [Synthesizer.upcoming] at hkeep
    cases hplan : first.struck.plan [following] with
    | error error => rw [hplan] at hkeep; contradiction
    | ok ahead =>
        rw [hplan] at hkeep
        exact ⟨ahead, Synthesizer.plan_eq_ok_iff.mp hplan, Except.ok.inj hkeep⟩
  obtain ⟨events, hmoves, -, hheld⟩ := hfirst.moves_released hconsistent
  have hplan := hsecond.plan_eq
  rw [hstart] at hplan
  rw [← hkeep]
  refine Synthesizer.plan?_of_letGo hmoves.map_eq hmoves.locks_eq
    (hfirst.consistent_struck hconsistent) (hfirst.consistent_released hconsistent) ?_ hahead
    (fun code hcode htarget => ?_) hplan
  · rw [hheld]
    exact List.filter_sublist
  · rw [hheld, List.mem_filter]
    refine ⟨hcode, ?_⟩
    rw [hkeep] at htarget
    simp [Synthesizer.mem_dropped, htarget]

/-- Between two taps no modifier key changes twice, and none changes that both need. -/
structure Steady (first second : Stroke) : Prop where
  nodup : ((first.between second).map (·.code)).Nodup
  kept : ∀ code ∈ first.plan.target, code ∈ second.plan.target →
    code ∉ (first.between second).map (·.code)

theorem Strikes.steady (hfirst : first.Strikes character (some following))
    (hconsistent : first.start.Consistent) (hstart : second.start = first.released)
    (hsecond : second.Strikes following next) : first.Steady second := by
  have hreleased := hfirst.consistent_released hconsistent
  obtain ⟨-, -, -, hheld⟩ := hfirst.moves_released hconsistent
  obtain ⟨-, -, -, hpressed⟩ := hfirst.moves_held hconsistent
  have hclosing := (hfirst.moves_closing hconsistent).2
  have hopening := (hsecond.moves_opening (hstart ▸ hreleased)).2
  rw [hstart] at hopening
  -- what was let go after the first tap is not down, and the second stroke does without it
  have hup : ∀ code ∈ first.struck.dropped first.keep true, code ∉ first.released.held := by
    intro code hcode hdown
    rw [hheld, List.mem_filter] at hdown
    simp [hcode] at hdown
  have hunused : ∀ code ∈ first.struck.dropped first.keep true,
      code ∉ second.plan.target := by
    intro code hcode htarget
    rcases hfirst.target_of_next hconsistent hstart hsecond with hkeep | hdown
    · rw [hkeep] at htarget
      exact (Synthesizer.mem_dropped.mp hcode).2.1 htarget
    · exact hup code hcode (hdown htarget)
  refine ⟨?_, fun code hfirstTarget hsecondTarget => ?_⟩
  · rw [between, List.map_append, hclosing, hopening, List.nodup_append, List.nodup_append]
    refine ⟨Synthesizer.nodup_dropped (hfirst.consistent_struck hconsistent).nodup _ _,
      ⟨Synthesizer.nodup_dropped hreleased.nodup _ _,
        (ModifierGroup.nodup_ephemeralKeys.sublist hsecond.target_sublist).filter _, ?_⟩, ?_⟩
    · rintro code hcode other hother rfl
      exact (Synthesizer.mem_dropped.mp hcode).2.1 (List.mem_filter.mp hother).1
    · rintro code hcode other hother rfl
      rcases List.mem_append.mp hother with hdropped | hpress
      · exact hup code hcode (Synthesizer.mem_dropped.mp hdropped).1
      · exact hunused code hcode (List.mem_filter.mp hpress).1
  · rw [between, List.map_append, hclosing, hopening, List.mem_append, List.mem_append]
    rintro (hdropped | hdropped | hpress)
    · exact hunused code hdropped hsecondTarget
    · exact (Synthesizer.mem_dropped.mp hdropped).2.1 hsecondTarget
    · -- the key was down at the first tap, so it must have been let go after it
      obtain ⟨-, hnew⟩ := List.mem_filter.mp hpress
      refine hunused code ?_ hsecondTarget
      by_contra hkept
      have hdown : code ∈ first.released.held := by
        rw [hheld, List.mem_filter]
        exact ⟨(hpressed code).mpr hfirstTarget, by simpa using hkept⟩
      simp [hdown] at hnew

end Stroke

namespace Synthesizer

variable {first last : Synthesizer} {text : Text} {strokes : List Stroke}

theorem Types.events_eq (htypes : first.Types text strokes last)
    (hconsistent : first.Consistent) :
    last.events.toList = first.events.toList ++ strokes.flatMap Stroke.events := by
  induction htypes with
  | done => simp
  | strike hstrikes _ ih =>
      rw [ih (hstrikes.consistent_released hconsistent),
        hstrikes.events_released hconsistent, List.flatMap_cons, List.append_assoc]

theorem Types.events_of_start {map : KeyMap} {device : Int} {state : MetaState}
    (htypes : (start map device state).Types text strokes last) :
    last.events.toList = strokes.flatMap Stroke.events :=
  htypes.events_eq (consistent_start map device state)

theorem Types.isChain (htypes : first.Types text strokes last)
    (hconsistent : first.Consistent) : strokes.IsChain Stroke.Steady := by
  induction htypes with
  | done => exact .nil
  | @strike stroke character rest strokes last hstrikes hrest ih =>
      have hreleased := hstrikes.consistent_released hconsistent
      have hchain := ih hreleased
      generalize hstart : stroke.released = middle at hrest
      cases hrest with
      | done => exact .singleton _
      | @strike second following others _ _ hsecond hothers =>
          exact .cons_cons (hstrikes.steady hconsistent hstart.symm hsecond) hchain

/-- However a text is typed, between the taps of two characters that follow each other
every modifier key changes at most once, and a key of both targets not at all. -/
theorem typeText_steady {map : KeyMap} {device : Int} {state : MetaState} {text : Text}
    {typed : Synthesizer} (htyped : (start map device state).typeText text = .ok typed) :
    ∃ strokes, (start map device state).Types text strokes typed ∧
      typed.events.toList = strokes.flatMap Stroke.events ∧
      strokes.IsChain fun first second =>
        ((first.between second).map (·.code)).Nodup ∧
        ∀ code ∈ first.plan.target, code ∈ second.plan.target →
          code ∉ (first.between second).map (·.code) := by
  obtain ⟨strokes, htypes⟩ := typeText_eq_ok_iff.mp htyped
  have hconsistent := consistent_start map device state
  refine ⟨strokes, htypes, htypes.events_eq hconsistent, ?_⟩
  exact (htypes.isChain hconsistent).imp fun _ _ hsteady => ⟨hsteady.nodup, hsteady.kept⟩

theorem typeText_steady_oneKey :
    ∃ typed, (start KeyMap.oneKey 0 0x41).typeText "aAa" = .ok typed ∧
      ∃ strokes, (start KeyMap.oneKey 0 0x41).Types "aAa" strokes typed ∧
        typed.events.toList = strokes.flatMap Stroke.events ∧
        strokes.IsChain fun first second =>
          ((first.between second).map (·.code)).Nodup ∧
          ∀ code ∈ first.plan.target, code ∈ second.plan.target →
            code ∉ (first.between second).map (·.code) := by
  obtain ⟨typed, htyped⟩ := exists_typed (consistent_start KeyMap.oneKey 0 0x41)
    KeyMap.typable_oneKey
  exact ⟨typed, htyped, typeText_steady htyped⟩

end Synthesizer

end KeyLayout
