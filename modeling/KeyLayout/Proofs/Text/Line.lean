import KeyLayout.Text.Line
import Mathlib.Data.List.Basic

namespace KeyLayout

/-! Where the lines of a text begin and end, and what becomes of them when one is replaced. -/

namespace Text

variable {text before line other ending after : Text} {point : CodePoint}

theorem lines_eq_nil_iff : lines text = [] ↔ text = [] := by
  fun_induction lines text with
  | case1 => simp
  | case2 => simp
  | case3 => simp
  | case4 => simp
  | case5 => simp

/-- A text that lies within a line. -/
def Unbroken (text : Text) : Prop :=
  ∀ point ∈ text, point.isLineBoundary = false

instance (text : Text) : Decidable text.Unbroken :=
  inferInstanceAs (Decidable (∀ point ∈ text, point.isLineBoundary = false))

/-- What ends a line.  At the end of a text this may be nothing. -/
inductive LineEnd : Text → Prop
  | none : LineEnd []
  | single {point : CodePoint} (hpoint : point.isLineBoundary = true) : LineEnd [point]
  | pair : LineEnd [.scalar '\r', .scalar '\n']

/-- No line goes on from one text to the other: one of them is empty, or a boundary is between
them that no line feed completes. -/
def Breaks (before after : Text) : Prop :=
  before = [] ∨ after = [] ∨
    ∃ first point, before = first ++ [point] ∧ point.isLineBoundary = true ∧
      ¬(point = .scalar '\r' ∧ after.head? = some (.scalar '\n'))

theorem Breaks.of_cons (hbreaks : Breaks (point :: before) after) : Breaks before after := by
  rcases hbreaks with hnil | hnil | ⟨first, last, heq, hlast⟩
  · contradiction
  · exact .inr (.inl hnil)
  · cases first with
    | nil =>
        cases heq
        exact .inl rfl
    | cons _ first =>
        cases heq
        exact .inr (.inr ⟨first, last, rfl, hlast⟩)

theorem Breaks.of_singleton (hbreaks : Breaks [point] after) : after = [] ∨
    point.isLineBoundary = true ∧
      ¬(point = .scalar '\r' ∧ after.head? = some (.scalar '\n')) := by
  rcases hbreaks with hnil | hnil | ⟨first, last, heq, hlast⟩
  · contradiction
  · exact .inl hnil
  · obtain ⟨-, hpoint⟩ := List.append_eq_singleton_iff.mp heq.symm |>.resolve_right (by simp)
    cases hpoint
    exact .inr hlast

theorem lines_cons_of_boundary (hpoint : point.isLineBoundary = true)
    (hpair : ¬(point = .scalar '\r' ∧ after.head? = some (.scalar '\n'))) :
    lines (point :: after) = [] :: lines after := by
  rw [lines, if_pos hpoint]
  rintro rest rfl rfl
  exact hpair ⟨rfl, rfl⟩

theorem lines_cons_of_within (hpoint : point.isLineBoundary = false) (after : Text) :
    lines (point :: after) = (point :: (lines after).headD []) :: (lines after).tail := by
  rw [lines, if_neg (Bool.eq_false_iff.mp hpoint)]
  · cases lines after <;> rfl
  · rintro rest rfl
    cases hpoint

theorem lines_append (hbreaks : Breaks before after) :
    lines (before ++ after) = lines before ++ lines after := by
  fun_induction lines before with
  | case1 => rfl
  | case2 rest ih =>
      rw [List.cons_append, List.cons_append, lines, ih hbreaks.of_cons.of_cons]
      rfl
  | case3 point rest hpair hboundary ih =>
      rw [List.cons_append, lines_cons_of_boundary hboundary, ih hbreaks.of_cons]
      · rfl
      · -- a carriage return that ends the first text must not meet a line feed of the second
        rintro ⟨rfl, hfeed⟩
        cases rest with
        | nil =>
            rcases hbreaks.of_singleton with rfl | ⟨-, hpair⟩
            · contradiction
            · exact hpair ⟨rfl, hfeed⟩
        | cons next rest =>
            cases hfeed
            exact hpair rest rfl rfl
  | case4 point rest hpair hboundary hlines ih =>
      obtain rfl := lines_eq_nil_iff.mp hlines
      obtain rfl : after = [] := hbreaks.of_singleton.resolve_right fun hpoint =>
        hboundary hpoint.1
      exact lines_cons_of_within (Bool.eq_false_iff.mpr hboundary) []
  | case5 point rest hpair hboundary line others hlines ih =>
      rw [List.cons_append, lines_cons_of_within (Bool.eq_false_iff.mpr hboundary),
        ih hbreaks.of_cons, hlines]
      rfl

theorem lines_line (hline : line.Unbroken) (hending : LineEnd ending)
    (hsome : line ++ ending ≠ []) : lines (line ++ ending) = [line] := by
  induction line with
  | nil =>
      cases hending with
      | none => contradiction
      | single hpoint => exact lines_cons_of_boundary hpoint nofun
      | pair => rfl
  | cons point line ih =>
      obtain ⟨hpoint, hrest⟩ := List.forall_mem_cons.mp hline
      rw [List.cons_append, lines_cons_of_within hpoint]
      by_cases hnil : line ++ ending = []
      · obtain ⟨rfl, rfl⟩ := List.append_eq_nil_iff.mp hnil
        rfl
      · rw [ih hrest hnil]
        rfl

/-- The second text is the line that follows the first, with what ends it, and the third
text follows it. -/
structure HasLine (before line ending after : Text) : Prop where
  unbroken : line.Unbroken
  ends : LineEnd ending
  nonempty : line ++ ending ≠ []
  starts : Breaks before (line ++ ending ++ after)
  stops : Breaks (line ++ ending) after

theorem HasLine.lines_eq (hline : HasLine before line ending after) :
    lines (before ++ (line ++ ending ++ after)) = lines before ++ line :: lines after := by
  rw [lines_append hline.starts, lines_append hline.stops,
    lines_line hline.unbroken hline.ends hline.nonempty]
  rfl

/-- Another line may stand in the place of a line, but a line that is not empty cannot be
emptied: its ending might complete the one before it. -/
theorem HasLine.replace (hline : HasLine before line ending after) (hother : other.Unbroken)
    (hnil : other = [] → line = []) : HasLine before other ending after := by
  refine ⟨hother, hline.ends, ?nonempty, ?starts, ?stops⟩
  case nonempty =>
    intro heq
    obtain ⟨hempty, hending⟩ := List.append_eq_nil_iff.mp heq
    exact hline.nonempty (List.append_eq_nil_iff.mpr ⟨hnil hempty, hending⟩)
  case starts =>
    rcases hline.starts with hbefore | hwhole | ⟨first, last, heq, hlast, hpair⟩
    · exact .inl hbefore
    · exact absurd (List.append_eq_nil_iff.mp hwhole).1 hline.nonempty
    · refine .inr (.inr ⟨first, last, heq, hlast, ?_⟩)
      rintro ⟨rfl, hfeed⟩
      cases other with
      | nil =>
          obtain rfl := hnil rfl
          exact hpair ⟨rfl, hfeed⟩
      | cons point other =>
          cases hfeed
          exact absurd (hother _ (List.mem_cons_self ..)) (by decide)
  case stops =>
    rcases hline.stops with hwhole | hafter | ⟨first, last, heq, hlast⟩
    · exact absurd hwhole hline.nonempty
    · exact .inr (.inl hafter)
    · rcases List.eq_nil_or_concat' ending with rfl | ⟨init, final, rfl⟩
      · rw [List.append_nil] at heq
        have hwithin := hline.unbroken last (heq ▸ List.mem_concat_self ..)
        cases hwithin.symm.trans hlast.1
      · rw [← List.append_assoc] at heq
        obtain ⟨-, hfinal⟩ := List.append_inj' heq rfl
        cases hfinal
        exact .inr (.inr ⟨other ++ init, last, (List.append_assoc ..).symm, hlast⟩)

theorem HasLine.close (hline : HasLine before line [] []) (hending : LineEnd ending) :
    HasLine before line ending [] := by
  have hsome : line ≠ [] := by simpa using hline.nonempty
  refine ⟨hline.unbroken, hending, List.append_ne_nil_of_left_ne_nil hsome _, ?_,
    .inr (.inl rfl)⟩
  obtain ⟨point, line, rfl⟩ := List.exists_cons_of_ne_nil hsome
  rcases hline.starts with hbefore | hwhole | hbreak
  · exact .inl hbefore
  · contradiction
  · exact .inr (.inr hbreak)

end Text

end KeyLayout
