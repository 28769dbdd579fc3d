import KeyLayout.Grammar.Block
import KeyLayout.Grammar.Cursor

namespace KeyLayout

/-! A place in lines of tokens that is kept by counting: the lines stay as they are, and
two numbers tell which line is read and how many of its tokens are. -/

/-- The lines that have tokens. -/
def TokenLine.filled (lines : List TokenLine) : List TokenLine :=
  lines.filter (!·.tokens.isEmpty)

structure Position where
  layout : Text
  lines : List TokenLine
  line : Nat := 0
  token : Nat := 0
  deriving DecidableEq

namespace Position

/-- The start of the lines; those without tokens are left out. -/
def ofLines (layout : Text) (lines : List TokenLine) : Position where
  layout := layout
  lines := TokenLine.filled lines

def atEnd (position : Position) : Bool :=
  position.lines.length ≤ position.line

/-- All tokens of the line, those that are read included. -/
def tokens (position : Position) : List Token :=
  (position.lines[position.line]?.map TokenLine.tokens).getD []

def atLineEnd (position : Position) : Bool :=
  position.atEnd || decide (position.tokens.length ≤ position.token)

def lineNumber (position : Position) : Nat :=
  match position.lines[position.line]? with
  | some own => own.number
  | none => (position.lines.getLast?.map TokenLine.number).getD 1

def error (position : Position) (fault : SyntaxFault) : ParseError :=
  ⟨some position.layout, position.lineNumber, fault⟩

def unread (position : Position) : List Token :=
  position.tokens.drop position.token

/-- The lines that are left, the one that is read included. -/
def linesLeft (position : Position) : Nat :=
  position.lines.length - position.line

/-- The tokens that are left on the line. -/
def tokensLeft (position : Position) : Nat :=
  position.tokens.length - position.token

def peek (position : Position) : Option Token :=
  position.tokens[position.token]?

/-- The next token of the line, and the place after it. -/
def next (position : Position) : Option (Token × Position) :=
  position.peek.map fun token => (token, { position with token := position.token + 1 })

def afterLine (position : Position) : Position :=
  if position.atEnd then position
  else { position with line := position.line + 1, token := 0 }

def expect (position : Position) (what : Text) : Except ParseError (Token × Position) :=
  match position.next with
  | some taken => .ok taken
  | none => .error (position.error (.missing what))

def expectWord (position : Position) (what : Text) : Except ParseError (Text × Position) :=
  match position.expect what with
  | .error error => .error error
  | .ok (.word text, next) => .ok (text, next)
  | .ok (token, next) => .error (next.error (.mismatch what token.text))

/-- The kind of device code that is mapped, its text, and the place after it. -/
def expectDeviceCode (position : Position) :
    Except ParseError (DeviceCodeKind × Text × Position) := do
  let (token, next) ← position.expect "a scan code or 'usage'"
  if token.text = Text.ofString "usage" then
    let (code, last) ← next.expect "a usage code"
    return (.usage, code.text, last)
  else
    return (.scan, token.text, next)

section Taking

variable {position next : Position} {what : Text}

/-! What is taken shortens the rest of the line. -/

theorem unread_of_next {token : Token} (hnext : position.next = some (token, next)) :
    position.unread = token :: next.unread := by
  obtain ⟨own, hpeek, heq⟩ := Option.map_eq_some_iff.mp hnext
  cases heq
  obtain ⟨hlt, htoken⟩ := List.getElem?_eq_some_iff.mp hpeek
  exact (List.drop_eq_getElem_cons hlt).trans (congrArg (· :: _) htoken)

theorem length_of_next {token : Token} (hnext : position.next = some (token, next)) :
    next.unread.length < position.unread.length := by
  rw [unread_of_next hnext]
  exact Nat.lt_succ_self _

theorem length_expect {token : Token} (hexpect : position.expect what = .ok (token, next)) :
    next.unread.length < position.unread.length := by
  unfold expect at hexpect
  split at hexpect
  next hnext =>
    cases hexpect
    exact length_of_next hnext
  next => contradiction

theorem length_expectWord {text : Text} (hexpect : position.expectWord what = .ok (text, next)) :
    next.unread.length < position.unread.length := by
  unfold expectWord at hexpect
  split at hexpect
  next => contradiction
  next hword =>
    cases hexpect
    exact length_expect hword
  next => contradiction

end Taking

/-- The properties of a statement that starts with the token. -/
def readProperties (position : Position) (token : Token) :
    Except ParseError (List Property × Position) := do
  let property ← (Property.read token).mapError position.error
  match _ : position.next with
  | some (.punctuation .comma, afterComma) =>
      match _ : afterComma.expect Property.what with
      | .error error => .error error
      | .ok (token, next) =>
          let (others, last) ← readProperties next token
          return (property :: others, last)
  | _ => return ([property], position)
termination_by position.unread.length
decreasing_by
  exact Nat.lt_trans (length_expect (by assumption)) (length_of_next (by assumption))

def afterColon (position : Position) : Position :=
  match position.next with
  | some (.punctuation .colon, next) => next
  | _ => position

/-- What a statement that starts with the token sets, with the colon behind it. -/
def readHead (position : Position) (token : Token) :
    Except ParseError (List Property × Position) :=
  match token with
  | .punctuation .colon => .ok ([.mask 0], position)
  | token =>
      (position.readProperties token).map fun (properties, next) =>
        (properties, next.afterColon)

/-- The value, where its statement ends. -/
def endValue (position : Position) (value : Value) : Except ParseError (Value × Position) :=
  if value.character.isNone && value.target.isNone then .error (position.error .missingValue)
  else .ok (value, position)

/-- The value, extended up to a separator or the end of the line. -/
def readValue (position : Position) (value : Value) : Except ParseError (Value × Position) :=
  match _ : position.next with
  | none => position.endValue value
  | some (token, next) =>
      if Statement.isSeparator token then
        position.endValue value
      else
        match token with
        | .punctuation mark => .error (next.error (.strayToken [mark.point]))
        | .literal text => do
            let point ← ((Literal.decode text).mapError SyntaxFault.literal).mapError next.error
            let value ← (value.withCharacter (some point)).mapError next.error
            readValue next value
        | .word name => do
            match ← (ValueWord.read name).mapError next.error with
            | .character point =>
                let value ← (value.withCharacter point).mapError next.error
                readValue next value
            | .target kind =>
                if value.target.isSome then
                  .error (next.error .repeatedTarget)
                else
                  match _ : next.expectWord KeyCode.what with
                  | .error error => .error error
                  | .ok (label, last) => do
                      let code ← (KeyCode.read label).mapError last.error
                      readValue last { value with target := some ⟨kind, code⟩ }
termination_by position.unread.length
decreasing_by
  · exact length_of_next (by assumption)
  · exact length_of_next (by assumption)
  · exact Nat.lt_trans (length_expectWord (by assumption)) (length_of_next (by assumption))

end Position

end KeyLayout
