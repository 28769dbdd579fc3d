import KeyLayout.Behavior.Basic
import KeyLayout.Grammar.Expect
import KeyLayout.Grammar.Literal

namespace KeyLayout

/-! The right-hand side of a statement: a character, another key, or both. -/

/-- Another key takes over when nobody handles this one, or at once. -/
inductive TargetKind where
  | fallback
  | replacement
  deriving DecidableEq

structure Target where
  kind : TargetKind
  code : KeyCode
  deriving DecidableEq

/-- The words that may stand in a value. -/
inductive ValueWord where
  | character (point : Option CodePoint)
  | target (kind : TargetKind)
  deriving DecidableEq

namespace ValueWord

def namedCharacter? (name : Text) : Option CodePoint :=
  [(Text.ofString "space", CodePoint.scalar ' '), (Text.ofString "tab", .scalar '\t'),
    (Text.ofString "newline", .scalar '\n')].lookup name

/-- The number after `U+`, written with one to six hexadecimal digits. -/
def codePointNumber? : Text → Option Nat
  | .scalar 'U' :: .scalar '+' :: digits =>
      if 1 ≤ digits.length ∧ digits.length ≤ 6 then Text.digitsValue? 16 digits else none
  | _ => none

def read (name : Text) : Except SyntaxFault ValueWord :=
  if name = Text.ofString "none" then .ok (.character none)
  else if name = Text.ofString "fallback" then .ok (.target .fallback)
  else if name = Text.ofString "replace" then .ok (.target .replacement)
  else
    match namedCharacter? name with
    | some point => .ok (.character (some point))
    | none =>
        match codePointNumber? name with
        | none => .error (.malformedValue name)
        | some number =>
            match CodePoint.ofNat? number with
            | none => .error (.codePointRange name)
            | some point => .ok (.character (some point))

end ValueWord

/-- The character is missing, or stated to be none, or stated. -/
structure Value where
  character : Option (Option CodePoint) := none
  target : Option Target := none
  deriving DecidableEq

namespace Value

def withCharacter (value : Value) (point : Option CodePoint) : Except SyntaxFault Value :=
  match value.character with
  | some _ => .error .repeatedCharacter
  | none => .ok { value with character := some point }

/-- A character and nothing else. -/
def plainCharacter? (value : Value) : Option CodePoint :=
  match value.target with
  | some _ => none
  | none => value.character.join

def behavior (value : Value) (mask : MetaState) : Behavior where
  mask := mask
  character := value.character.join
  fallback := match value.target with
    | some ⟨.fallback, code⟩ => some code
    | _ => none
  replacement := match value.target with
    | some ⟨.replacement, code⟩ => some code
    | _ => none

/-- What is wrong when the statement ends before the expected thing; `after` is the
token that ended it, unless the line did. -/
def endFault (what : Text) (after : Option Token) : SyntaxFault :=
  match after with
  | none => .missing what
  | some token => .mismatch what token.text

/-- The value extended by the rest of its statement, which `after` ends. -/
def extend (after : Option Token) (value : Value) : List Token → Except SyntaxFault Value
  | [] =>
      if value.character.isNone && value.target.isNone then .error .missingValue
      else .ok value
  | .punctuation mark :: _ => .error (.strayToken [mark.point])
  | .literal text :: rest => do
      let point ← (Literal.decode text).mapError SyntaxFault.literal
      let value ← value.withCharacter (some point)
      extend after value rest
  | .word name :: rest => do
      match ← ValueWord.read name with
      | .character point =>
          let value ← value.withCharacter point
          extend after value rest
      | .target kind =>
          if value.target.isSome then
            .error .repeatedTarget
          else
            match rest with
            | [] => .error (endFault KeyCode.what after)
            | .word label :: rest => do
                let code ← KeyCode.read label
                extend after { value with target := some ⟨kind, code⟩ } rest
            | token :: _ => .error (.mismatch KeyCode.what token.text)

def read (after : Option Token) (tokens : List Token) : Except SyntaxFault Value :=
  extend after {} tokens

end Value

end KeyLayout
