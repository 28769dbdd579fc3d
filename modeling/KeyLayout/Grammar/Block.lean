import KeyLayout.Behavior.Matching
import KeyLayout.Grammar.Value

namespace KeyLayout

/-! The block of one key.  Its statements run from one semicolon, brace or line end to
the next; each sets one or more properties to one value. -/

inductive Property where
  | label
  | number
  | mask (mask : MetaState)
  deriving DecidableEq

namespace Property

def what : Text := "a key property"

def read : Token → Except SyntaxFault Property
  | .word text =>
      if text = Text.ofString "label" then .ok .label
      else if text = Text.ofString "number" then .ok .number
      else
        match MetaState.parse text with
        | .ok combination => .ok (.mask combination)
        | .error fault => .error (.combination fault)
  | token => .error (.mismatch what token.text)

/-- Properties separated by commas, and the tokens after them. -/
def readList (after : Option Token) :
    List Token → Except SyntaxFault (List Property × List Token)
  | [] => .error (Value.endFault what after)
  | token :: .punctuation .comma :: rest => do
      let property ← read token
      let (others, tail) ← readList after rest
      return (property :: others, tail)
  | token :: rest => do
      let property ← read token
      return ([property], rest)

end Property

/-- The properties of a statement and the value that all of them get. -/
structure Statement where
  properties : List Property
  value : Value
  deriving DecidableEq

namespace Statement

def isSeparator : Token → Bool
  | .punctuation .semicolon | .punctuation .closeBrace => true
  | _ => false

/-- A colon alone is the property of no modifiers; after properties it says nothing. -/
def read (after : Option Token) (tokens : List Token) : Except SyntaxFault Statement :=
  match tokens with
  | .punctuation .colon :: rest => do
      let value ← Value.read after rest
      return ⟨[.mask 0], value⟩
  | _ => do
      let (properties, rest) ← Property.readList after tokens
      let value ← match rest with
        | .punctuation .colon :: rest => Value.read after rest
        | _ => Value.read after rest
      return ⟨properties, value⟩

end Statement

/-- A key whose block is open, and the line that opened it. -/
structure PendingKey where
  code : KeyCode
  line : Nat
  label : Option CodePoint := none
  number : Option CodePoint := none
  behaviors : List Behavior := []
  deriving DecidableEq

namespace PendingKey

def isEmpty (pending : PendingKey) : Bool :=
  pending.behaviors.isEmpty && pending.label.isNone && pending.number.isNone

/-- The key; a number that is not stated is taken from the behaviors. -/
def finish (pending : PendingKey) : Key :=
  let behaviors := Behavior.sort pending.behaviors
  { label := pending.label
    number := pending.number.or (Behavior.dialingCharacter? behaviors)
    behaviors := behaviors }

def set (pending : PendingKey) (value : Value) : Property → Except SyntaxFault PendingKey
  | .label =>
      if pending.label.isSome then .error .repeatedLabel
      else
        match value.plainCharacter? with
        | none => .error .unfitLabel
        | some point => .ok { pending with label := some point }
  | .number =>
      if pending.number.isSome then .error .repeatedNumber
      else
        match value.plainCharacter? with
        | none => .error .unfitNumber
        | some point => .ok { pending with number := some point }
  | .mask mask =>
      if pending.behaviors.any (·.mask = mask) then .error (.repeatedBehavior mask)
      else .ok { pending with behaviors := pending.behaviors ++ [value.behavior mask] }

def apply (pending : PendingKey) (statement : Statement) : Except SyntaxFault PendingKey :=
  statement.properties.foldlM (fun pending property => pending.set statement.value property)
    pending

end PendingKey

end KeyLayout
