import KeyLayout.Proofs.Grammar.Joining

namespace KeyLayout

/-! The lines of a layout may be numbered in any way.  The numbers place faults, and the
key map does not depend on them. -/

namespace PendingKey

variable {pending : PendingKey} {line : Nat} {settings : List (Property × Value)}

def placed (line : Nat) (pending : PendingKey) : PendingKey :=
  { pending with line := line }

theorem accepts_placed (haccepts : pending.Accepts settings) :
    (pending.placed line).Accepts settings := by
  refine ⟨fun setting hsetting hhas => haccepts.fresh setting hsetting ?_, haccepts.nodup,
    haccepts.plain⟩
  obtain ⟨property, value⟩ := setting
  cases property with
  | label => exact hhas
  | number => exact hhas
  | mask => exact hhas

theorem placed_withSettings (pending : PendingKey) (settings : List (Property × Value)) :
    (pending.withSettings settings).placed line = (pending.placed line).withSettings settings := by
  induction settings generalizing pending with
  | nil => rfl
  | cons setting rest ih =>
      change ((pending.withSetting setting).withSettings rest).placed line = _
      rw [ih]
      obtain ⟨property, value⟩ := setting
      cases property with
      | label => rfl
      | number => rfl
      | mask => rfl

end PendingKey

namespace Draft

variable {format : Format} {layout name : Text} {line lastLine : Nat} {draft last next : Draft}
  {token : Token} {rest left : List Token} {lines others : List TokenLine}

/-- The draft as if its block, if one is open, had been opened in the line. -/
def placed (line : Nat) (draft : Draft) : Draft :=
  { draft with pending := draft.pending.map (·.placed line) }

theorem placed_of_pending (hpending : draft.pending = none) : draft.placed line = draft := by
  obtain ⟨map, typeDeclared, blockSeen, pending⟩ := draft
  cases hpending
  rfl

theorem isSome_pending_placed : (draft.placed line).pending.isSome = draft.pending.isSome :=
  Option.isSome_map

theorem pending_placed_eq_none_iff : (draft.placed line).pending = none ↔ draft.pending = none :=
  Option.map_eq_none_iff

theorem Directs.renumber {tokens : List Token} (hpending : draft.pending = none)
    (hdirects : Directs format line draft tokens next left) (number : Nat) :
    Directs format number draft tokens (next.placed number) left := by
  have hadd (item : Item) : (draft.add item).placed number = draft.add item :=
    placed_of_pending (by rw [pending_add, hpending])
  cases hdirects with
  | type htype hadmits =>
      rw [hadd]
      exact .type htype hadmits
  | entry hentry hadmits hleft =>
      rw [hadd]
      exact .entry hentry hadmits hleft
  | block hlabel hnew => exact .block hlabel hnew
  | entryBlock hentry hadmits hnew => exact .entryBlock hentry hadmits hnew

theorem Steps.renumber (hsteps : draft.Steps format line token rest next left)
    (number place : Nat) :
    ∃ reached, (draft.placed place).Steps format number token rest (next.placed reached) left := by
  cases hpending : draft.pending with
  | none =>
      rw [placed_of_pending hpending]
      simp only [steps_iff_directs hpending] at hsteps ⊢
      exact ⟨number, hsteps.renumber hpending number⟩
  | some pending =>
      have hplaced : (draft.placed place).pending = some (pending.placed place) := by
        rw [placed, hpending]
        rfl
      refine ⟨place, ?_⟩
      rcases hsteps.block_cases hpending with ⟨rfl, rfl, rfl⟩ | ⟨rfl, hempty, rfl, rfl⟩ |
        ⟨first, statement, hmark, hwhole, hstatement, hending, haccepts, rfl⟩
      · exact (steps_semicolon_iff hplaced).mpr ⟨rfl, rfl⟩
      · exact (steps_close_iff hplaced).mpr ⟨hempty, rfl, rfl⟩
      · refine (steps_statement_iff hplaced hmark).mpr ⟨first, statement, hwhole, hstatement,
          hending, PendingKey.accepts_placed haccepts, ?_⟩
        rw [← PendingKey.placed_withSettings]
        rfl

theorem Reads.renumber (hreads : Reads format layout lastLine draft lines last)
    (htokens : others.map TokenLine.tokens = lines.map TokenLine.tokens)
    (name : Text) (number place : Nat) :
    ∃ reached, Reads format name number (draft.placed place) others (last.placed reached) := by
  induction hreads using Reads.induct generalizing others place with
  | nil =>
      obtain rfl := List.map_eq_nil_iff.mp htokens
      exact ⟨place, reads_nil_iff.mpr rfl⟩
  | lineEnd _ ih =>
      obtain ⟨⟨otherLine, tokens⟩, rest, rfl, htoken, hmore⟩ := List.map_eq_cons_iff.mp htokens
      obtain rfl : tokens = [] := htoken
      obtain ⟨reached, hreached⟩ := ih hmore place
      exact ⟨reached, reads_lineEnd_iff.mpr hreached⟩
  | @within _ next _ token tail left more hsteps hsome _ ih =>
      obtain ⟨⟨otherLine, tokens⟩, rest, rfl, htoken, hmore⟩ := List.map_eq_cons_iff.mp htokens
      obtain rfl : tokens = token :: tail := htoken
      obtain ⟨middle, hmiddle⟩ := hsteps.renumber otherLine place
      have hlines : (TokenLine.mk otherLine left :: rest).map TokenLine.tokens =
          left :: more.map TokenLine.tokens := by
        rw [List.map_cons, hmore]
      obtain ⟨reached, hreached⟩ := ih hlines middle
      exact ⟨reached, reads_token_iff.mpr ⟨_, left, hmiddle,
        .inl ⟨isSome_pending_placed.trans hsome, hreached⟩⟩⟩
  | @beyond _ next _ token tail more hsteps hnone _ ih =>
      obtain ⟨⟨otherLine, tokens⟩, rest, rfl, htoken, hmore⟩ := List.map_eq_cons_iff.mp htokens
      obtain rfl : tokens = token :: tail := htoken
      obtain ⟨middle, hmiddle⟩ := hsteps.renumber otherLine place
      obtain ⟨reached, hreached⟩ := ih hmore middle
      exact ⟨reached, reads_token_iff.mpr ⟨_, [], hmiddle,
        .inr ⟨pending_placed_eq_none_iff.mpr hnone, rfl, hreached⟩⟩⟩

end Draft

namespace TokenLine

/-- Lines of tokens of which all have the same number. -/
def unnumbered (rows : List (List Token)) : List TokenLine :=
  rows.map (TokenLine.mk 0)

theorem map_tokens_unnumbered (rows : List (List Token)) :
    (unnumbered rows).map TokenLine.tokens = rows := by
  rw [unnumbered, List.map_map]
  exact List.map_id rows

end TokenLine

namespace KeyMap

/-- The key map that lines of tokens describe. -/
def ofLines (name : Text) (lines : List TokenLine) (format : Format) :
    Report ParseError KeyMap := do
  let draft ← Reading.run format ⟨Draft.ofName name, Cursor.ofLines name lines⟩
  let map ← draft.finish format
  Report.tell [.loaded name map.keys.size]
  return map

theorem ofText_eq_ofLines (name text : Text) (format : Format) :
    ofText name text format =
      Report.ofExcept (TokenLine.ofText name text) >>= fun lines => ofLines name lines format := by
  rw [ofText, Cursor.ofText]
  cases TokenLine.ofText name text <;> rfl

theorem ofLines_eq_ok_iff {name : Text} {lines : List TokenLine} {format : Format}
    {map : KeyMap} :
    (ofLines name lines format).outcome = .ok map ↔
      ∃ draft, Draft.Reads format [] 0 (.ofName name)
          (TokenLine.unnumbered (lines.map TokenLine.tokens)) draft ∧
        (draft.finish format).outcome = .ok map := by
  have hname (line : Nat) : (Draft.ofName name).placed line = .ofName name :=
    Draft.placed_of_pending rfl
  have hfinish {draft : Draft} (line : Nat) :
      (draft.finish format).outcome = .ok map →
        ((draft.placed line).finish format).outcome = .ok map := by
    intro hdraft
    obtain ⟨hpending, -⟩ := Draft.finish_eq_ok_iff.mp hdraft
    rwa [Draft.placed_of_pending hpending]
  have htokens := TokenLine.map_tokens_unnumbered (lines.map TokenLine.tokens)
  unfold ofLines
  rw [Report.bind_eq_ok_iff]
  constructor
  · intro hlines
    obtain ⟨draft, hdraft, hrest⟩ := hlines
    obtain ⟨own, hown, heq⟩ := Report.bind_eq_ok_iff.mp hrest
    cases heq
    obtain ⟨place, hreads⟩ := Draft.Reads.renumber hdraft htokens [] 0 0
    rw [hname] at hreads
    exact ⟨_, hreads, hfinish place hown⟩
  · intro hrows
    obtain ⟨draft, hdraft, hown⟩ := hrows
    obtain ⟨place, hreads⟩ :=
      Draft.Reads.renumber hdraft htokens.symm name (Cursor.ofLines name lines).lastLine 0
    rw [hname] at hreads
    exact ⟨_, hreads, Report.bind_eq_ok_iff.mpr ⟨map, hfinish place hown, rfl⟩⟩

end KeyMap

end KeyLayout
