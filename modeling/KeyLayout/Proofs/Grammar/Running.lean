import KeyLayout.Grammar.Reading

namespace KeyLayout

/-! Reading goes on line by line, so that lines behind the others change nothing in how
these are read. -/

namespace Cursor

theorem afterLine_withUnread (cursor : Cursor) (tokens : List Token) :
    (cursor.withUnread tokens).afterLine = cursor.afterLine := by
  obtain ⟨layout, lastLine, lines⟩ := cursor
  cases lines <;> rfl

theorem layout_withUnread (cursor : Cursor) (tokens : List Token) :
    (cursor.withUnread tokens).layout = cursor.layout := by
  unfold withUnread
  split <;> rfl

end Cursor

namespace Reading

variable {format : Format} {reading next : Reading} {lastLine : Nat} {more : List TokenLine}

/-- A step leaves the line behind, or the tokens that it took. -/
theorem cursor_of_advance (hnext : (reading.advance format).outcome = .ok next) :
    next.cursor = reading.cursor.afterLine ∨
      ∃ left, next.cursor = reading.cursor.withUnread left := by
  unfold advance at hnext
  split at hnext
  next =>
    cases hnext
    exact .inl rfl
  next =>
    split at hnext
    next => contradiction
    next step _ =>
      dsimp only at hnext
      split at hnext
      next =>
        cases hnext
        exact .inr ⟨step.rest, rfl⟩
      next =>
        unfold expectLineEnd at hnext
        split at hnext
        next =>
          cases hnext
          exact .inl (Cursor.afterLine_withUnread ..)
        next => contradiction

theorem layout_of_advance (hnext : (reading.advance format).outcome = .ok next) :
    next.cursor.layout = reading.cursor.layout := by
  rcases cursor_of_advance hnext with hcursor | ⟨left, hcursor⟩
  · rw [hcursor]
    rfl
  · rw [hcursor, Cursor.layout_withUnread]

theorem run_eq_ok (hlines : reading.cursor.lines = []) :
    run format reading = ⟨[], .ok reading.draft⟩ := by
  rw [run, dif_pos hlines]

theorem run_eq_bind (hlines : reading.cursor.lines ≠ []) :
    run format reading = reading.advance format >>= fun next => run format next := by
  rw [run, dif_neg hlines]
  change _ = Report.bind (reading.advance format) _
  rw [Report.bind]
  dsimp only
  split
  next error herror => rw [herror]
  next next hnext => rw [hnext]

theorem outcome_run (hlines : reading.cursor.lines ≠ []) :
    (run format reading).outcome =
      (reading.advance format).outcome >>= fun next => (run format next).outcome := by
  rw [run_eq_bind hlines]
  change (Report.bind (reading.advance format) _).outcome = _
  rw [Report.bind]
  cases (reading.advance format).outcome <;> rfl

/-- The reading with more lines behind its own. -/
def before (lastLine : Nat) (more : List TokenLine) (reading : Reading) : Reading :=
  ⟨reading.draft, ⟨reading.cursor.layout, lastLine, reading.cursor.lines ++ more⟩⟩

/-- A step does not look beyond its line. -/
theorem outcome_advance_before (hlines : reading.cursor.lines ≠ []) :
    ((reading.before lastLine more).advance format).outcome =
      (reading.advance format).outcome.map (before lastLine more) := by
  obtain ⟨draft, layout, last, lines⟩ := reading
  obtain ⟨⟨line, tokens⟩, rest, rfl⟩ := List.exists_cons_of_ne_nil hlines
  cases tokens with
  | nil => rfl
  | cons token tokens =>
      simp only [advance, before, Cursor.unread, Cursor.lineNumber, List.cons_append]
      cases draft.step format line token tokens with
      | error fault => rfl
      | ok step =>
          dsimp only
          cases step.draft.pending with
          | some pending => rfl
          | none =>
              obtain ⟨next, left, notes⟩ := step
              cases left <;> rfl

/-- The lines behind are read from where the others lead to. -/
theorem outcome_run_before (reading : Reading) :
    (run format (reading.before lastLine more)).outcome =
      (run format reading).outcome >>= fun draft =>
        (run format ⟨draft, ⟨reading.cursor.layout, lastLine, more⟩⟩).outcome := by
  fun_induction run format reading with
  | case1 reading hlines =>
      rw [before, hlines]
      rfl
  | case2 reading hlines step error herror =>
      rw [outcome_run (List.append_ne_nil_of_left_ne_nil hlines _),
        outcome_advance_before hlines, herror]
      rfl
  | case3 reading hlines step next hnext rest ih =>
      rw [outcome_run (List.append_ne_nil_of_left_ne_nil hlines _),
        outcome_advance_before hlines, hnext, ← layout_of_advance hnext]
      exact ih

end Reading

end KeyLayout
