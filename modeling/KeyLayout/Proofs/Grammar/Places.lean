import KeyLayout.Grammar.Draft
import KeyLayout.Grammar.Position

namespace KeyLayout

/-! A place that is kept by counting leads through a line as its unread tokens do: each
reader takes the same tokens and complains of the same. -/

namespace Position

variable {place position next : Position} {token : Token}

section Cursors

/-- What is left, without the lines and the tokens that are read. -/
def cursor (position : Position) : Cursor where
  layout := position.layout
  lastLine := (position.lines.getLast?.map TokenLine.number).getD 1
  lines := (position.lines.drop position.line).modifyHead fun own =>
    { own with tokens := own.tokens.drop position.token }

theorem cursor_ofLines (layout : Text) (lines : List TokenLine) :
    (ofLines layout lines).cursor = Cursor.ofLines layout (TokenLine.filled lines) := by
  rw [ofLines, cursor, Cursor.ofLines, List.drop_zero]
  cases TokenLine.filled lines <;> rfl

theorem tokens_eq (position : Position) :
    position.tokens =
      ((position.lines.drop position.line).head?.map TokenLine.tokens).getD [] := by
  rw [tokens, List.head?_drop]

theorem unread_cursor (position : Position) : position.cursor.unread = position.unread := by
  rw [Cursor.unread, cursor, unread, tokens_eq]
  cases position.lines.drop position.line with
  | nil => exact List.drop_nil.symm
  | cons own rest => rfl

theorem lineNumber_cursor (position : Position) :
    position.cursor.lineNumber = position.lineNumber := by
  rw [Cursor.lineNumber, cursor, lineNumber, ← List.head?_drop]
  cases position.lines.drop position.line <;> rfl

theorem error_cursor (position : Position) (fault : SyntaxFault) :
    position.cursor.error fault = position.error fault := by
  rw [Cursor.error, lineNumber_cursor]
  rfl

theorem length_lines_cursor (position : Position) :
    position.cursor.lines.length = position.linesLeft := by
  rw [cursor, List.length_modifyHead, List.length_drop]
  rfl

theorem length_unread (position : Position) : position.unread.length = position.tokensLeft :=
  List.length_drop

theorem atEnd_eq_true_iff : position.atEnd = true ↔ position.cursor.lines = [] := by
  rw [← List.length_eq_zero_iff, length_lines_cursor, atEnd, linesLeft, decide_eq_true_iff]
  omega

theorem tokens_of_atEnd (hend : position.atEnd = true) : position.tokens = [] := by
  rw [tokens, List.getElem?_eq_none (of_decide_eq_true hend)]
  rfl

theorem atLineEnd_eq_true_iff : position.atLineEnd = true ↔ position.unread = [] := by
  rw [atLineEnd, Bool.or_eq_true, decide_eq_true_iff, unread, List.drop_eq_nil_iff]
  refine ⟨fun hend => hend.elim (fun hend => ?_) id, .inr⟩
  rw [tokens_of_atEnd hend]
  exact Nat.zero_le _

theorem cursor_afterLine (position : Position) :
    position.afterLine.cursor = position.cursor.afterLine := by
  rw [afterLine]
  split
  next hend =>
    rw [atEnd_eq_true_iff] at hend
    generalize position.cursor = cursor at hend
    cases cursor
    cases hend
    rfl
  next =>
    simp only [cursor, Cursor.afterLine, ← List.drop_drop, List.drop_one]
    cases position.lines.drop position.line with
    | nil => rfl
    | cons own rest => cases rest <;> rfl

theorem layout_afterLine (position : Position) :
    position.afterLine.layout = position.layout := by
  rw [afterLine]
  split <;> rfl

end Cursors

section Lines

structure SameLine (place position : Position) : Prop where
  layout : position.layout = place.layout
  lines : position.lines = place.lines
  line : position.line = place.line

theorem SameLine.refl (place : Position) : place.SameLine place :=
  ⟨rfl, rfl, rfl⟩

theorem SameLine.trans (hfirst : place.SameLine position) (hsecond : position.SameLine next) :
    place.SameLine next :=
  ⟨hsecond.layout.trans hfirst.layout, hsecond.lines.trans hfirst.lines,
    hsecond.line.trans hfirst.line⟩

theorem SameLine.lineNumber_eq (hline : place.SameLine position) :
    position.lineNumber = place.lineNumber := by
  rw [lineNumber, hline.lines, hline.line]
  rfl

theorem SameLine.error_eq (hline : place.SameLine position) (fault : SyntaxFault) :
    position.error fault = place.error fault := by
  rw [error, hline.layout, hline.lineNumber_eq]
  rfl

theorem SameLine.cursor_eq (hline : place.SameLine position) :
    position.cursor = place.cursor.withUnread position.unread := by
  rw [Cursor.withUnread, cursor, cursor, unread, tokens_eq, hline.layout, hline.lines, hline.line]
  cases place.lines.drop place.line <;> rfl

theorem next_cases (position : Position) :
    position.next = none ∧ position.unread = [] ∨
      ∃ token next, position.next = some (token, next) ∧ position.SameLine next ∧
        position.unread = token :: next.unread := by
  cases hnext : position.next with
  | none =>
      refine .inl ⟨rfl, ?_⟩
      rw [next, Option.map_eq_none_iff, peek, List.getElem?_eq_none_iff] at hnext
      exact List.drop_eq_nil_of_le hnext
  | some taken =>
      obtain ⟨token, next⟩ := taken
      refine .inr ⟨token, next, rfl, ?_, unread_of_next hnext⟩
      obtain ⟨_, _, heq⟩ := Option.map_eq_some_iff.mp hnext
      cases heq
      exact ⟨rfl, rfl, rfl⟩

theorem exists_next_of_unread {rest : List Token} (hunread : position.unread = token :: rest) :
    ∃ next, position.next = some (token, next) ∧ position.SameLine next ∧ next.unread = rest := by
  rcases position.next_cases with ⟨-, hnil⟩ | ⟨other, next, hnext, hline, hcons⟩
  · rw [hnil] at hunread
    contradiction
  · obtain ⟨rfl, hrest⟩ := List.cons.inj (hcons.symm.trans hunread)
    exact ⟨next, hnext, hline, hrest⟩

end Lines

/-- The two come to matching results, or complain of the same, the one in the line of the
place. -/
inductive Simulates {α β : Type} (place : Position) (keeps : α → β → Prop) :
    Except ParseError α → Except SyntaxFault β → Prop
  | ok {own : α} {other : β} (hkeeps : keeps own other) :
      Simulates place keeps (.ok own) (.ok other)
  | error {fault : SyntaxFault} : Simulates place keeps (.error (place.error fault)) (.error fault)

/-- The same is taken, and the tokens that are left of the line are the same. -/
structure Takes {α : Type} (place : Position) (own : α × Position) (other : α × List Token) :
    Prop where
  value : own.1 = other.1
  line : place.SameLine own.2
  unread : own.2.unread = other.2

namespace Simulates

variable {α β γ δ : Type} {keeps : α → β → Prop} {result : γ → δ → Prop}
  {own : Except ParseError α} {other : Except SyntaxFault β}

theorem bind {ownNext : α → Except ParseError γ} {otherNext : β → Except SyntaxFault δ}
    (hfirst : place.Simulates keeps own other)
    (hnext : ∀ first second, keeps first second →
      place.Simulates result (ownNext first) (otherNext second)) :
    place.Simulates result (own >>= ownNext) (other >>= otherNext) := by
  cases hfirst with
  | ok hkeeps => exact hnext _ _ hkeeps
  | error => exact .error

theorem complaint (hline : place.SameLine position) (fault : SyntaxFault) :
    place.Simulates keeps (.error (position.error fault)) (.error fault) := by
  rw [hline.error_eq]
  exact .error

theorem map {ownChange : α → γ} {otherChange : β → δ} (hfirst : place.Simulates keeps own other)
    (hchange : ∀ first second, keeps first second →
      result (ownChange first) (otherChange second)) :
    place.Simulates result (own.map ownChange) (other.map otherChange) := by
  cases hfirst with
  | ok hkeeps => exact .ok (hchange _ _ hkeeps)
  | error => exact .error

/-- What is read first takes no tokens. -/
theorem leaf {outcome : Except SyntaxFault α} {ownNext : α → Except ParseError γ}
    {otherNext : α → Except SyntaxFault δ} (hline : place.SameLine position)
    (hnext : ∀ value, place.Simulates result (ownNext value) (otherNext value)) :
    place.Simulates result (outcome.mapError position.error >>= ownNext)
      (outcome >>= otherNext) := by
  cases outcome with
  | error fault => exact complaint hline fault
  | ok value => exact hnext value

end Simulates

section Readers

variable {what : Text}

theorem expect_of_none (hnext : position.next = none) :
    position.expect what = .error (position.error (.missing what)) := by
  rw [expect, hnext]

theorem expect_of_next (hnext : position.next = some (token, next)) :
    position.expect what = .ok (token, next) := by
  rw [expect, hnext]

theorem expectWord_of_none (hnext : position.next = none) :
    position.expectWord what = .error (position.error (.missing what)) := by
  rw [expectWord, expect_of_none hnext]

theorem expectWord_of_word {text : Text} (hnext : position.next = some (.word text, next)) :
    position.expectWord what = .ok (text, next) := by
  rw [expectWord, expect_of_next hnext]

theorem expectWord_of_separator (hnext : position.next = some (token, next))
    (htoken : Statement.isSeparator token = true) :
    position.expectWord what = .error (next.error (.mismatch what token.text)) := by
  rw [expectWord, expect_of_next hnext]
  cases token with
  | word => contradiction
  | literal => contradiction
  | punctuation => rfl

theorem simulates_expect (hline : place.SameLine position) :
    place.Simulates place.Takes (position.expect what) (Token.expect what position.unread) := by
  rcases next_cases position with ⟨hnext, hunread⟩ | ⟨token, next, hnext, hsame, hunread⟩
  · rw [expect_of_none hnext, hunread]
    exact .complaint hline _
  · rw [expect_of_next hnext, hunread]
    exact .ok ⟨rfl, hline.trans hsame, rfl⟩

theorem simulates_expectWord (hline : place.SameLine position) :
    place.Simulates place.Takes (position.expectWord what)
      (Token.expectWord what position.unread) := by
  rw [expectWord]
  rcases next_cases position with ⟨hnext, hunread⟩ | ⟨token, next, hnext, hsame, hunread⟩
  · rw [expect_of_none hnext, hunread]
    exact .complaint hline _
  · rw [expect_of_next hnext, hunread]
    cases token with
    | word text => exact .ok ⟨rfl, hline.trans hsame, rfl⟩
    | literal text => exact .complaint (hline.trans hsame) _
    | punctuation mark => exact .complaint (hline.trans hsame) _

theorem simulates_expectDeviceCode (hline : place.SameLine position) :
    place.Simulates (fun own other => own.1 = other.1 ∧ place.Takes own.2 other.2)
      position.expectDeviceCode (Draft.expectDeviceCode position.unread) := by
  refine .bind (simulates_expect hline) fun (token, next) (_, _) ⟨htoken, hnext, hunread⟩ => ?_
  cases htoken
  cases hunread
  dsimp only
  split
  · refine .bind (simulates_expect hnext) fun (code, last) (_, _) ⟨hcode, hlast, hunread⟩ => ?_
    cases hcode
    cases hunread
    exact .ok ⟨rfl, rfl, hlast, rfl⟩
  · exact .ok ⟨rfl, rfl, hnext, rfl⟩

end Readers

end Position

end KeyLayout
