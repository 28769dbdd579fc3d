import KeyLayout.Json.Basic

namespace KeyLayout.Json

/-! Writing JSON in ASCII, with every item and member on a line of its own. -/

def unitEscape (unit : Nat) : Text :=
  .backslash :: .scalar 'u' :: Text.paddedHex 4 unit

/-- A code point beyond the first plane is written as a pair of surrogates. -/
def codePointEscape (value : Nat) : Text :=
  if value < 0x10000 then
    unitEscape value
  else
    unitEscape (0xD800 + (value - 0x10000) / 0x400) ++
      unitEscape (0xDC00 + (value - 0x10000) % 0x400)

def escapePoint (point : CodePoint) : Text :=
  if point = .doubleMark ∨ point = .backslash then [.backslash, point]
  else if point = .scalar '\n' then [.backslash, .scalar 'n']
  else if point = .scalar '\r' then [.backslash, .scalar 'r']
  else if point = .scalar '\t' then [.backslash, .scalar 't']
  else if point = .scalar '\x0c' then [.backslash, .scalar 'f']
  else if point = .scalar '\x08' then [.backslash, .scalar 'b']
  else if 0x20 ≤ point.toNat ∧ point.toNat < 0x7F then [point]
  else codePointEscape point.toNat

def writeText (text : Text) : Text :=
  .doubleMark :: text.flatMap escapePoint ++ [.doubleMark]

def writeFloat : Binary64 → Text
  | .notANumber => "NaN"
  | .infinite negative => if negative then "-Infinity" else "Infinity"
  | value => value.format

def newLine (depth : Nat) : Text :=
  .scalar '\n' :: List.replicate (2 * depth) (.scalar ' ')

/-- The parts on lines of their own, one step further in than the marks around them. -/
def enclose (depth : Nat) (opening closing : CodePoint) (parts : List Text) : Text :=
  if parts.isEmpty then
    [opening, closing]
  else
    opening :: newLine (depth + 1) ++
      Text.joinWith (.scalar ',' :: newLine (depth + 1)) parts ++ newLine depth ++ [closing]

mutual

def write (depth : Nat) : Json → Text
  | .null => "null"
  | .bool value => if value then "true" else "false"
  | .int value => Text.ofInt value
  | .float value => writeFloat value
  | .text value => writeText value
  | .array items => enclose depth (.scalar '[') (.scalar ']') (writeItems (depth + 1) items)
  | .object members =>
      enclose depth (.scalar '\x7b') (.scalar '\x7d') (writeMembers (depth + 1) members)

def writeItems (depth : Nat) : List Json → List Text
  | [] => []
  | item :: rest => write depth item :: writeItems depth rest

def writeMembers (depth : Nat) : List (Text × Json) → List Text
  | [] => []
  | (name, value) :: rest =>
      Text.join [writeText name, ": ", write depth value] :: writeMembers depth rest

end

end KeyLayout.Json
