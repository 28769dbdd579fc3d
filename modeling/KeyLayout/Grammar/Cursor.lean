import KeyLayout.Grammar.Lexer

namespace KeyLayout

/-! A place in the tokens of a layout text. -/

/-- The lines not yet left behind; the first holds only its unread tokens. -/
structure Cursor where
  layout : Text
  lastLine : Nat
  lines : List TokenLine
  deriving DecidableEq

namespace Cursor

def ofLines (layout : Text) (lines : List TokenLine) : Cursor where
  layout := layout
  lastLine := (lines.getLast?.map (·.number)).getD 1
  lines := lines

def ofText (layout text : Text) : Except ParseError Cursor :=
  (TokenLine.ofText layout text).map (ofLines layout)

def lineNumber (cursor : Cursor) : Nat :=
  match cursor.lines with
  | [] => cursor.lastLine
  | line :: _ => line.number

def atEnd (cursor : Cursor) : Bool :=
  cursor.lines.isEmpty

/-- The unread tokens of the line. -/
def unread (cursor : Cursor) : List Token :=
  match cursor.lines with
  | [] => []
  | line :: _ => line.tokens

def atLineEnd (cursor : Cursor) : Bool :=
  cursor.unread.isEmpty

def peek (cursor : Cursor) : Option Token :=
  cursor.unread.head?

def withUnread (cursor : Cursor) (tokens : List Token) : Cursor :=
  match cursor.lines with
  | [] => cursor
  | line :: rest => { cursor with lines := { line with tokens := tokens } :: rest }

def afterToken (cursor : Cursor) : Cursor :=
  cursor.withUnread cursor.unread.tail

def afterLine (cursor : Cursor) : Cursor :=
  { cursor with lines := cursor.lines.tail }

/-- The number of lines that are left and of the tokens that are left on them. -/
def weight (cursor : Cursor) : Nat :=
  cursor.lines.length + (cursor.lines.flatMap TokenLine.tokens).length

theorem weight_afterLine {cursor : Cursor} (hlines : cursor.lines ≠ []) :
    cursor.afterLine.weight < cursor.weight := by
  unfold weight afterLine
  cases hcursor : cursor.lines with
  | nil => contradiction
  | cons line rest =>
      simp only [List.tail_cons, List.length_cons, List.flatMap_cons, List.length_append]
      omega

theorem weight_withUnread {cursor : Cursor} {tokens : List Token}
    (hlines : cursor.lines ≠ []) (hlength : tokens.length < cursor.unread.length) :
    (cursor.withUnread tokens).weight < cursor.weight := by
  unfold weight withUnread
  unfold unread at hlength
  cases hcursor : cursor.lines with
  | nil => contradiction
  | cons line rest =>
      rw [hcursor] at hlength
      simp only [List.length_cons, List.flatMap_cons, List.length_append] at hlength ⊢
      omega

theorem withUnread_lines_ne_nil {cursor : Cursor} {tokens : List Token}
    (hlines : cursor.lines ≠ []) : (cursor.withUnread tokens).lines ≠ [] := by
  unfold withUnread
  cases hcursor : cursor.lines with
  | nil => contradiction
  | cons line rest => simp

def error (cursor : Cursor) (fault : SyntaxFault) : ParseError :=
  ⟨some cursor.layout, cursor.lineNumber, fault⟩

/-- The next token of the line, which has to be there. -/
def expect (cursor : Cursor) (what : Text) : Except ParseError Token :=
  match cursor.peek with
  | some token => .ok token
  | none => .error (cursor.error (.missing what))

end Cursor

/-- The tokens with a space between each two. -/
def Token.spaced (tokens : List Token) : Text :=
  Text.joinWith " " (tokens.map Token.text)

end KeyLayout
