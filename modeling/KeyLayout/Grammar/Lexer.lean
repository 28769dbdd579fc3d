import KeyLayout.Grammar.Fault
import KeyLayout.Grammar.Token
import KeyLayout.Text.Blank
import KeyLayout.Text.Line

namespace KeyLayout

/-! Tokens of a line: literals in apostrophes, punctuation, and words that run up to
the next blank, mark or comment. -/

def CodePoint.commentMark : CodePoint := .scalar '#'

def CodePoint.isWordPart (point : CodePoint) : Bool :=
  !point.isBlank && (Punctuation.ofPoint? point).isNone &&
    point != .apostrophe && point != .commentMark

/-- The text up to and with the first apostrophe that no backslash escapes, and the text
after it.  A backslash escapes everything but a line feed. -/
def Text.splitLiteral? : Text → Option (Text × Text)
  | [] => none
  | .scalar '\\' :: [] => none
  | .scalar '\\' :: escaped :: rest =>
      if escaped = .scalar '\n' then none
      else (splitLiteral? rest).map fun (body, after) =>
        (.backslash :: escaped :: body, after)
  | point :: rest =>
      if point = .apostrophe then some ([point], rest)
      else (splitLiteral? rest).map fun (body, after) => (point :: body, after)

theorem Text.length_splitLiteral? (text body after : Text)
    (hsplit : Text.splitLiteral? text = some (body, after)) :
    after.length < text.length := by
  fun_induction Text.splitLiteral? text generalizing body after with
  | case1 => contradiction
  | case2 => contradiction
  | case3 => contradiction
  | case4 escaped rest _ ih =>
      obtain ⟨⟨inner, tail⟩, hinner, heq⟩ := Option.map_eq_some_iff.mp hsplit
      have hlength := ih inner tail hinner
      cases heq
      simp only [List.length_cons]
      omega
  | case5 =>
      cases hsplit
      simp
  | case6 point rest _ _ _ ih =>
      obtain ⟨⟨inner, tail⟩, hinner, heq⟩ := Option.map_eq_some_iff.mp hsplit
      have hlength := ih inner tail hinner
      cases heq
      simp only [List.length_cons]
      omega

theorem Text.length_dropWhile_le (keep : CodePoint → Bool) (text : Text) :
    (text.dropWhile keep).length ≤ text.length :=
  (List.dropWhile_sublist keep).length_le

namespace Token

def scan (text : Text) : Except SyntaxFault (List Token) :=
  match text with
  | [] => .ok []
  | point :: rest =>
      if point.isBlank then
        scan rest
      else if point = .commentMark then
        .ok []
      else if point = .apostrophe then
        match _ : Text.splitLiteral? rest with
        | none => .error (.openLiteral (text.takeWhile (· != .scalar '\n')))
        | some (body, after) => (.literal (.apostrophe :: body) :: ·) <$> scan after
      else
        match Punctuation.ofPoint? point with
        | some mark => (.punctuation mark :: ·) <$> scan rest
        | none =>
            (.word (point :: rest.takeWhile CodePoint.isWordPart) :: ·) <$>
              scan (rest.dropWhile CodePoint.isWordPart)
termination_by text.length
decreasing_by
  all_goals simp only [List.length_cons]
  · omega
  · have hlength := Text.length_splitLiteral? rest body after (by assumption)
    omega
  · omega
  · have hlength := Text.length_dropWhile_le CodePoint.isWordPart rest
    omega

/-- The tokens of a line; blanks at its end belong to no token. -/
def ofLine (line : Text) : Except SyntaxFault (List Token) :=
  scan (Text.trimRight line)

end Token

/-- Why a single line has no tokens. -/
inductive LineError where
  | parse (error : ParseError)
  /-- The number of the faulty line is too long to be written. -/
  | unplaced

/-- The tokens of a line that has any number. -/
def Token.ofNumberedLine (layout : Option Text) (number : Int) (line : Text) :
    Except LineError (List Token) :=
  (ofLine line).mapError fun fault =>
    if (Numeral.write? number).isSome then .parse ⟨layout, number, fault⟩ else .unplaced

namespace TokenLine

/-- The lines that have tokens, numbered on from the first. -/
def ofLines (layout : Text) (first : Nat) : List Text → Except ParseError (List TokenLine)
  | [] => .ok []
  | line :: rest =>
      match Token.ofLine line with
      | .error fault => .error ⟨some layout, first, fault⟩
      | .ok [] => ofLines layout (first + 1) rest
      | .ok tokens => (⟨first, tokens⟩ :: ·) <$> ofLines layout (first + 1) rest

def ofText (layout text : Text) : Except ParseError (List TokenLine) :=
  ofLines layout 1 (Text.lines text)

end TokenLine

end KeyLayout
