import KeyLayout.Proofs.Typing.Moves
import KeyLayout.Proofs.Typing.Planning

namespace KeyLayout

/-! Typing a text is a row of strokes, one for each character.  A run stops only before a
character that cannot be typed. -/

/-- The typing of one character: the keys of the target are held, the key is tapped, and
what the next character does not need is released. -/
structure Stroke where
  start : Synthesizer
  plan : TypingPlan
  held : Synthesizer
  keep : List KeyCode
  released : Synthesizer

namespace Stroke

def struck (stroke : Stroke) : Synthesizer :=
  stroke.held.tap stroke.plan.code

/-- The stroke types the character and looks ahead to the next one. -/
structure Strikes (stroke : Stroke) (character : CodePoint) (next : Option CodePoint) :
    Prop where
  plan_eq : stroke.start.plan? character = some stroke.plan
  held_eq : stroke.start.hold stroke.plan.target = .ok stroke.held
  keep_eq : stroke.struck.upcoming next = .ok stroke.keep
  released_eq : stroke.struck.releaseUnless stroke.keep true = .ok stroke.released

end Stroke

namespace Synthesizer

open ModifierGroup (ephemeralKeys)

inductive Types : Synthesizer → Text → List Stroke → Synthesizer → Prop
  | done {synthesizer : Synthesizer} : Types synthesizer [] [] synthesizer
  | strike {stroke : Stroke} {character : CodePoint} {rest : Text} {strokes : List Stroke}
      {last : Synthesizer} (hstrikes : stroke.Strikes character rest.head?)
      (hrest : Types stroke.released rest strokes last) :
      Types stroke.start (character :: rest) (stroke :: strokes) last

variable {synthesizer typed : Synthesizer} {character : CodePoint} {next : Option CodePoint}

theorem plan_eq_ok_iff {plan : TypingPlan} :
    synthesizer.plan [character] = .ok plan ↔ synthesizer.plan? character = some plan := by
  rw [Synthesizer.plan]
  cases synthesizer.plan? character <;> simp

theorem plan_of_plan?_eq_none (hnone : synthesizer.plan? character = none) :
    synthesizer.plan [character] = .error ⟨[character]⟩ := by
  rw [Synthesizer.plan, hnone]

theorem typeCharacter_eq_ok_iff :
    synthesizer.typeCharacter character next = .ok typed ↔
      ∃ stroke : Stroke, stroke.Strikes character next ∧ stroke.start = synthesizer ∧
        stroke.released = typed := by
  constructor
  · intro htyped
    rw [typeCharacter] at htyped
    split at htyped
    · contradiction
    next plan hplan =>
    split at htyped
    · contradiction
    next struck hstruck =>
    rw [strike] at hstruck
    obtain ⟨held, hheld, hstruck⟩ : ∃ held, synthesizer.hold plan.target = .ok held ∧
        held.tap plan.code = struck := by
      cases hheld : synthesizer.hold plan.target with
      | error error => rw [hheld] at hstruck; contradiction
      | ok held =>
          rw [hheld] at hstruck
          exact ⟨held, rfl, Except.ok.inj hstruck⟩
    split at htyped
    · contradiction
    next keep hkeep =>
    split at htyped
    · contradiction
    next released hreleased =>
    subst hstruck
    exact ⟨⟨synthesizer, plan, held, keep, released⟩,
      ⟨plan_eq_ok_iff.mp hplan, hheld, hkeep, hreleased⟩, rfl, Except.ok.inj htyped⟩
  · rintro ⟨stroke, hstrikes, rfl, rfl⟩
    have hstruck : stroke.start.strike stroke.plan = .ok stroke.struck := by
      rw [strike, hstrikes.held_eq]
      rfl
    simp only [typeCharacter, plan_eq_ok_iff.mpr hstrikes.plan_eq, hstruck, hstrikes.keep_eq,
      hstrikes.released_eq]

theorem typeText_eq_ok_iff {text : Text} :
    synthesizer.typeText text = .ok typed ↔ ∃ strokes, Types synthesizer text strokes typed := by
  induction text generalizing synthesizer with
  | nil =>
      rw [typeText, Except.ok.injEq]
      constructor
      · rintro rfl
        exact ⟨[], .done⟩
      · rintro ⟨strokes, htypes⟩
        cases htypes
        rfl
  | cons character rest ih =>
      rw [typeText]
      constructor
      · intro htyped
        split at htyped
        · contradiction
        next middle hmiddle =>
        obtain ⟨stroke, hstrikes, rfl, rfl⟩ := typeCharacter_eq_ok_iff.mp hmiddle
        obtain ⟨strokes, hrest⟩ := ih.mp htyped
        exact ⟨stroke :: strokes, .strike hstrikes hrest⟩
      · rintro ⟨strokes, htypes⟩
        cases htypes with
        | @strike stroke _ _ strokes _ hstrikes hrest =>
            rw [typeCharacter_eq_ok_iff.mpr ⟨stroke, hstrikes, rfl, rfl⟩]
            exact ih.mpr ⟨strokes, hrest⟩

end Synthesizer

namespace Stroke

open Synthesizer (Moves dropped)
open ModifierGroup (ephemeralKeys)

variable {stroke : Stroke} {character : CodePoint} {next : Option CodePoint}

theorem Strikes.target_sublist (hstrikes : stroke.Strikes character next) :
    stroke.plan.target.Sublist ephemeralKeys :=
  Synthesizer.target_sublist_of_plan? hstrikes.plan_eq

/-- Before the tap modifier keys are let go and pressed until exactly the target is down. -/
theorem Strikes.moves_held (hstrikes : stroke.Strikes character next)
    (hconsistent : stroke.start.Consistent) :
    ∃ events, Moves stroke.start events stroke.held ∧
      events.map (·.code) = stroke.start.dropped stroke.plan.target false ++
        stroke.plan.target.filter (!stroke.start.held.contains ·) ∧
      ∀ code, code ∈ stroke.held.held ↔ code ∈ stroke.plan.target := by
  obtain ⟨events, held, hok, hspec⟩ := Synthesizer.moves_hold hconsistent
    (ModifierGroup.nodup_ephemeralKeys.sublist hstrikes.target_sublist)
    hstrikes.target_sublist.subset
  rw [hstrikes.held_eq, Except.ok.injEq] at hok
  exact ⟨events, hok ▸ hspec⟩

theorem Strikes.consistent_struck (hstrikes : stroke.Strikes character next)
    (hconsistent : stroke.start.Consistent) : stroke.struck.Consistent := by
  obtain ⟨events, hmoves, -⟩ := hstrikes.moves_held hconsistent
  exact (hmoves.consistent hconsistent).tap _

/-- After the tap those that were pressed here and are not kept are let go. -/
theorem Strikes.moves_released (hstrikes : stroke.Strikes character next)
    (hconsistent : stroke.start.Consistent) :
    ∃ events, Moves stroke.struck events stroke.released ∧
      events.map (·.code) = stroke.struck.dropped stroke.keep true ∧
      stroke.released.held = stroke.struck.held.filter
        (!(stroke.struck.dropped stroke.keep true).contains ·) := by
  obtain ⟨events, released, hok, hmoves, hcodes, hheld, -⟩ :=
    Synthesizer.moves_releaseUnless (hstrikes.consistent_struck hconsistent) stroke.keep true
  rw [hstrikes.released_eq, Except.ok.injEq] at hok
  exact ⟨events, hok ▸ hmoves, hcodes, hok ▸ hheld⟩

theorem Strikes.consistent_released (hstrikes : stroke.Strikes character next)
    (hconsistent : stroke.start.Consistent) : stroke.released.Consistent := by
  obtain ⟨events, hmoves, -⟩ := hstrikes.moves_released hconsistent
  exact hmoves.consistent (hstrikes.consistent_struck hconsistent)

theorem Strikes.map_released (hstrikes : stroke.Strikes character next)
    (hconsistent : stroke.start.Consistent) : stroke.released.map = stroke.start.map := by
  obtain ⟨opening, hopening, -⟩ := hstrikes.moves_held hconsistent
  obtain ⟨closing, hclosing, -⟩ := hstrikes.moves_released hconsistent
  exact hclosing.map_eq.trans hopening.map_eq

theorem Strikes.locks_released (hstrikes : stroke.Strikes character next)
    (hconsistent : stroke.start.Consistent) : stroke.released.locks = stroke.start.locks := by
  obtain ⟨opening, hopening, -⟩ := hstrikes.moves_held hconsistent
  obtain ⟨closing, hclosing, -⟩ := hstrikes.moves_released hconsistent
  exact hclosing.locks_eq.trans hopening.locks_eq

theorem Strikes.device_released (hstrikes : stroke.Strikes character next)
    (hconsistent : stroke.start.Consistent) : stroke.released.device = stroke.start.device := by
  obtain ⟨opening, hopening, -⟩ := hstrikes.moves_held hconsistent
  obtain ⟨closing, hclosing, -⟩ := hstrikes.moves_released hconsistent
  exact hclosing.device_eq.trans hopening.device_eq

end Stroke

namespace Synthesizer

variable {synthesizer : Synthesizer} {character : CodePoint} {next : Option CodePoint}

/-- What holds of every stroke that starts in order holds of every stroke of a run. -/
theorem Types.forall_mem {first last : Synthesizer} {text : Text} {strokes : List Stroke}
    (htypes : first.Types text strokes last) (hconsistent : first.Consistent)
    {holds : Stroke → Prop}
    (hholds : ∀ stroke character next, stroke.Strikes character next →
      stroke.start.Consistent → holds stroke) :
    ∀ stroke ∈ strokes, holds stroke := by
  induction htypes with
  | done => simp
  | strike hstrikes _ ih =>
      rw [List.forall_mem_cons]
      exact ⟨hholds _ _ _ hstrikes hconsistent, ih (hstrikes.consistent_released hconsistent)⟩

/-- A character that can be typed is struck, and what comes next decides the rest. -/
theorem exists_struck (hconsistent : synthesizer.Consistent)
    (hcharacter : synthesizer.map.Typable synthesizer.locks character) :
    ∃ plan held, synthesizer.plan? character = some plan ∧
      synthesizer.hold plan.target = .ok held ∧ (held.tap plan.code).Consistent ∧
        held.map = synthesizer.map ∧ held.locks = synthesizer.locks := by
  obtain ⟨state, hlocks⟩ := hconsistent.locks_eq
  obtain ⟨plan, hplan⟩ := (exists_plan?_iff hlocks character).mpr (hlocks ▸ hcharacter)
  have hsub := target_sublist_of_plan? hplan
  obtain ⟨events, held, hok, hmoves, -⟩ := moves_hold hconsistent
    (ModifierGroup.nodup_ephemeralKeys.sublist hsub) hsub.subset
  exact ⟨plan, held, hplan, hok, (hmoves.consistent hconsistent).tap _, hmoves.map_eq,
    hmoves.locks_eq⟩

theorem plan?_eq_none_of_not_typable (hconsistent : synthesizer.Consistent)
    (hcharacter : ¬synthesizer.map.Typable synthesizer.locks character) :
    synthesizer.plan? character = none := by
  obtain ⟨state, hlocks⟩ := hconsistent.locks_eq
  rw [hlocks, ← exists_plan?_iff hlocks] at hcharacter
  rw [Option.eq_none_iff_forall_ne_some]
  exact fun plan hplan => hcharacter ⟨plan, hplan⟩

theorem exists_stroke (hconsistent : synthesizer.Consistent)
    (hcharacter : synthesizer.map.Typable synthesizer.locks character)
    (hnext : ∀ upcoming ∈ next, synthesizer.map.Typable synthesizer.locks upcoming) :
    ∃ stroke : Stroke, stroke.Strikes character next ∧ stroke.start = synthesizer := by
  obtain ⟨plan, held, hplan, hheld, hstruck, hmap, hlocks⟩ :=
    exists_struck hconsistent hcharacter
  obtain ⟨keep, hkeep⟩ : ∃ keep, (held.tap plan.code).upcoming next = .ok keep := by
    cases next with
    | none => exact ⟨[], rfl⟩
    | some upcoming =>
        have htypable := hnext upcoming rfl
        rw [← hmap, ← hlocks] at htypable
        obtain ⟨nextPlan, -, hnextPlan, -⟩ := exists_struck hstruck htypable
        refine ⟨nextPlan.target, ?_⟩
        rw [Synthesizer.upcoming, plan_eq_ok_iff.mpr hnextPlan]
        rfl
  obtain ⟨-, released, hreleased, -⟩ := moves_releaseUnless hstruck keep true
  exact ⟨⟨synthesizer, plan, held, keep, released⟩, ⟨hplan, hheld, hkeep, hreleased⟩, rfl⟩

theorem typeCharacter_of_not_typable (hconsistent : synthesizer.Consistent)
    (hcharacter : ¬synthesizer.map.Typable synthesizer.locks character)
    (next : Option CodePoint) :
    ∃ stopped, synthesizer.typeCharacter character next = .error stopped ∧
      stopped.error = .unmappable ⟨[character]⟩ := by
  have hnone := plan?_eq_none_of_not_typable hconsistent hcharacter
  rw [typeCharacter, plan_of_plan?_eq_none hnone]
  exact ⟨_, rfl, rfl⟩

theorem typeCharacter_of_next_not_typable {upcoming : CodePoint}
    (hconsistent : synthesizer.Consistent)
    (hcharacter : synthesizer.map.Typable synthesizer.locks character)
    (hupcoming : ¬synthesizer.map.Typable synthesizer.locks upcoming) :
    ∃ stopped, synthesizer.typeCharacter character (some upcoming) = .error stopped ∧
      stopped.error = .unmappable ⟨[upcoming]⟩ := by
  obtain ⟨plan, held, hplan, hheld, hstruck, hmap, hlocks⟩ :=
    exists_struck hconsistent hcharacter
  rw [← hmap, ← hlocks] at hupcoming
  have hnone := plan?_eq_none_of_not_typable hstruck hupcoming
  have hstrike : synthesizer.strike plan = .ok (held.tap plan.code) := by
    rw [strike, hheld]
    rfl
  have hkeep : (held.tap plan.code).upcoming (some upcoming) = .error ⟨[upcoming]⟩ := by
    rw [Synthesizer.upcoming, plan_of_plan?_eq_none hnone]
    rfl
  simp only [typeCharacter, plan_eq_ok_iff.mpr hplan, hstrike, hkeep]
  exact ⟨_, rfl, rfl⟩

theorem exists_typed {text : Text} (hconsistent : synthesizer.Consistent)
    (htext : ∀ character ∈ text, synthesizer.map.Typable synthesizer.locks character) :
    ∃ typed, synthesizer.typeText text = .ok typed := by
  induction text generalizing synthesizer with
  | nil => exact ⟨synthesizer, rfl⟩
  | cons character rest ih =>
      obtain ⟨hcharacter, hrest⟩ := List.forall_mem_cons.mp htext
      obtain ⟨stroke, hstrikes, rfl⟩ := exists_stroke hconsistent hcharacter
        fun upcoming hupcoming => hrest upcoming (List.mem_of_mem_head? hupcoming)
      rw [typeText, typeCharacter_eq_ok_iff.mpr ⟨stroke, hstrikes, rfl, rfl⟩]
      refine ih (hstrikes.consistent_released hconsistent) ?_
      rw [hstrikes.map_released hconsistent, hstrikes.locks_released hconsistent]
      exact hrest

/-- The run stops before the first character that cannot be typed, for this reason. -/
theorem exists_stopped {before : Text} (after : Text) (hconsistent : synthesizer.Consistent)
    (hbefore : ∀ other ∈ before, synthesizer.map.Typable synthesizer.locks other)
    (hcharacter : ¬synthesizer.map.Typable synthesizer.locks character) :
    ∃ stopped, synthesizer.typeText (before ++ character :: after) = .error stopped ∧
      stopped.error = .unmappable ⟨[character]⟩ := by
  induction before generalizing synthesizer with
  | nil =>
      obtain ⟨stopped, hstopped, herror⟩ :=
        typeCharacter_of_not_typable hconsistent hcharacter after.head?
      refine ⟨stopped, ?_, herror⟩
      rw [List.nil_append, typeText, hstopped]
  | cons first rest ih =>
      obtain ⟨hfirst, hrest⟩ := List.forall_mem_cons.mp hbefore
      rw [List.cons_append, typeText]
      by_cases hnext : ∀ upcoming ∈ (rest ++ character :: after).head?,
          synthesizer.map.Typable synthesizer.locks upcoming
      · obtain ⟨stroke, hstrikes, rfl⟩ := exists_stroke hconsistent hfirst hnext
        rw [typeCharacter_eq_ok_iff.mpr ⟨stroke, hstrikes, rfl, rfl⟩]
        refine ih (hstrikes.consistent_released hconsistent) ?_ ?_
        · rw [hstrikes.map_released hconsistent, hstrikes.locks_released hconsistent]
          exact hrest
        · rw [hstrikes.map_released hconsistent, hstrikes.locks_released hconsistent]
          exact hcharacter
      · -- only the character itself can be the next one
        have hhead : (rest ++ character :: after).head? = some character := by
          cases rest with
          | nil => rfl
          | cons second others =>
              refine absurd (fun upcoming hupcoming => ?_) hnext
              obtain rfl : second = upcoming := by simpa using hupcoming
              exact hrest second (List.mem_cons_self ..)
        obtain ⟨stopped, hstopped, herror⟩ :=
          typeCharacter_of_next_not_typable hconsistent hfirst hcharacter
        rw [hhead, hstopped]
        exact ⟨stopped, rfl, herror⟩

end Synthesizer

namespace KeyMap

open ModifierGroup (ephemeralKeys)

variable {map : KeyMap} {device : Int} {text : Text} {state : MetaState}

theorem synthesize_eq_ok_iff {events : List KeyEvent} :
    map.synthesize device text state = .ok events ↔
      ∃ strokes typed, (Synthesizer.start map device state).Types text strokes typed ∧
        typed.events.toList = events := by
  rw [synthesize]
  constructor
  · intro hevents
    split at hevents
    next typed htyped =>
      obtain ⟨strokes, htypes⟩ := Synthesizer.typeText_eq_ok_iff.mp htyped
      exact ⟨strokes, typed, htypes, Except.ok.inj hevents⟩
    next => contradiction
  · rintro ⟨strokes, typed, htypes, rfl⟩
    rw [Synthesizer.typeText_eq_ok_iff.mpr ⟨strokes, htypes⟩]

theorem exists_synthesize (device : Int)
    (htext : ∀ character ∈ text, map.Typable state.lockBits character) :
    ∃ events, map.synthesize device text state = .ok events := by
  obtain ⟨typed, htyped⟩ :=
    Synthesizer.exists_typed (Synthesizer.consistent_start map device state) htext
  exact ⟨typed.events.toList, by rw [synthesize, htyped]⟩

theorem synthesize_of_not_typable {before after : Text} {character : CodePoint}
    (hbefore : ∀ other ∈ before, map.Typable state.lockBits other)
    (hcharacter : ¬map.Typable state.lockBits character) :
    map.synthesize device (before ++ character :: after) state =
      .error (.unmappable ⟨[character]⟩) := by
  obtain ⟨stopped, hstopped, herror⟩ := Synthesizer.exists_stopped after
    (Synthesizer.consistent_start map device state) hbefore hcharacter
  rw [synthesize, hstopped, ← herror]

/-- One key that types a letter in both cases. -/
def oneKey : KeyMap where
  name := "one key"
  keys := ⟨[(29, { behaviors := [⟨1, some 'A', none, none⟩, ⟨0, some 'a', none, none⟩] })],
    by simp⟩

theorem typable_oneKey :
    ∀ character ∈ Text.ofString "aAa",
      oneKey.Typable (MetaState.lockBits 0x41) character := by
  have hlower : oneKey.Typable (MetaState.lockBits 0x41) 'a' := ⟨29, [], by decide, by decide⟩
  have hupper : oneKey.Typable (MetaState.lockBits 0x41) 'A' :=
    ⟨29, [59], by decide, by decide⟩
  simp [Text.ofString, hlower, hupper]

theorem forall_or_exists_first (does : CodePoint → Prop) (text : Text) :
    (∀ character ∈ text, does character) ∨
      ∃ before character after, text = before ++ character :: after ∧
        (∀ other ∈ before, does other) ∧ ¬does character := by
  induction text with
  | nil => exact .inl (by simp)
  | cons first rest ih =>
      by_cases hfirst : does first
      · rcases ih with hrest | ⟨before, character, after, rfl, hbefore, hcharacter⟩
        · exact .inl (List.forall_mem_cons.mpr ⟨hfirst, hrest⟩)
        · exact .inr ⟨first :: before, character, after, rfl,
            List.forall_mem_cons.mpr ⟨hfirst, hbefore⟩, hcharacter⟩
      · exact .inr ⟨[], first, rest, rfl, by simp, hfirst⟩

/-- Typing fails only at a character of the text that no key types. -/
theorem exists_of_synthesize_eq_error {error : TypingError}
    (herror : map.synthesize device text state = .error error) :
    ∃ character ∈ text, error = .unmappable ⟨[character]⟩ := by
  rcases forall_or_exists_first (map.Typable state.lockBits) text with
    hall | ⟨before, character, after, rfl, hbefore, hcharacter⟩
  · obtain ⟨events, hevents⟩ := exists_synthesize device hall
    rw [hevents] at herror
    contradiction
  · rw [synthesize_of_not_typable hbefore hcharacter, Except.error.injEq] at herror
    exact ⟨character, by simp, herror.symm⟩

/-- A text is typed exactly when all its characters can be typed on top of the locks, and
otherwise the first that cannot is reported.  Which other modifiers are held decides
neither this nor whether there is a plan, and what is planned types the character. -/
theorem synthesize_iff_typable (map : KeyMap) (device : Int) (state : MetaState) (text : Text) :
    ((∃ events, map.synthesize device text state = .ok events) ↔
      ∀ character ∈ text, map.Typable state.lockBits character) ∧
    (∀ error, map.synthesize device text state = .error error ↔
      ∃ before character after, text = before ++ character :: after ∧
        (∀ other ∈ before, map.Typable state.lockBits other) ∧
          ¬map.Typable state.lockBits character ∧ error = .unmappable ⟨[character]⟩) ∧
    ∀ held ephemeral events character,
      let synthesizer : Synthesizer := ⟨map, device, state.lockBits, held, ephemeral, events⟩
      ((∃ plan, synthesizer.plan [character] = .ok plan) ↔
        map.Typable state.lockBits character) ∧
      ∀ plan, synthesizer.plan [character] = .ok plan →
        plan.target ⊆ ephemeralKeys ∧
          map.character? plan.code (MetaState.held plan.target state.lockBits) =
            some character := by
  refine ⟨⟨?_, exists_synthesize device⟩, ?_, ?_⟩
  · rintro ⟨events, hevents⟩
    rcases forall_or_exists_first (map.Typable state.lockBits) text with
      hall | ⟨before, character, after, rfl, hbefore, hcharacter⟩
    · exact hall
    · rw [synthesize_of_not_typable hbefore hcharacter] at hevents
      contradiction
  · intro error
    constructor
    · intro herror
      rcases forall_or_exists_first (map.Typable state.lockBits) text with
        hall | ⟨before, character, after, rfl, hbefore, hcharacter⟩
      · obtain ⟨events, hevents⟩ := exists_synthesize device hall
        rw [hevents] at herror
        contradiction
      · rw [synthesize_of_not_typable hbefore hcharacter, Except.error.injEq] at herror
        exact ⟨before, character, after, rfl, hbefore, hcharacter, herror.symm⟩
    · rintro ⟨before, character, after, rfl, hbefore, hcharacter, rfl⟩
      exact synthesize_of_not_typable hbefore hcharacter
  · intro held ephemeral events character synthesizer
    refine ⟨?_, fun plan hplan => ?_⟩
    · simp only [Synthesizer.plan_eq_ok_iff]
      exact Synthesizer.exists_plan?_iff rfl character
    · rw [Synthesizer.plan_eq_ok_iff] at hplan
      exact ⟨(Synthesizer.target_sublist_of_plan? hplan).subset,
        Synthesizer.character?_of_plan? hplan⟩

end KeyMap

end KeyLayout
