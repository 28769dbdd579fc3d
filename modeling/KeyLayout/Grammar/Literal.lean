import KeyLayout.Grammar.Fault
import KeyLayout.Text.Digit

namespace KeyLayout.Literal

/-! Character literals: one character or one escape sequence between apostrophes. -/

def namedEscape? : Text → Option CodePoint
  | [.scalar 'n'] => some (.scalar '\n')
  | [.scalar 't'] => some (.scalar '\t')
  | [.scalar '0'] => some (.scalar '\x00')
  | [.scalar '\\'] => some .backslash
  | [.scalar '\x27'] => some .apostrophe
  | [.scalar '\x22'] => some .doubleMark
  | _ => none

/-- The code point that four hexadecimal digits after a `u` denote. -/
def numericEscape? : Text → Option CodePoint
  | .scalar 'u' :: digits =>
      if digits.length = 4 then
        (Text.digitsValue? 16 digits).bind CodePoint.ofNat?
      else
        none
  | _ => none

def decode (text : Text) : Except LiteralFault CodePoint :=
  match (text.drop 1).dropLast with
  | .scalar '\\' :: escaped =>
      match (namedEscape? escaped).or (numericEscape? escaped) with
      | some point => .ok point
      | none => .error (.escape text)
  | [point] => .ok point
  | _ => .error (.length text)

end KeyLayout.Literal
