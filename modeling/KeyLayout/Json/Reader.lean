import KeyLayout.Json.Basic
import KeyLayout.Numeral

namespace KeyLayout

/-! Reading JSON.  A failure is placed by the text that remains from there on. -/

inductive JsonFault where
  | value
  | propertyName
  | colon
  | comma
  | extraData
  | openText
  | controlCharacter
  | escape
  | codePointEscape
  | byteOrderMark
  deriving DecidableEq

def JsonFault.message : JsonFault → Text
  | .value => "Expecting value"
  | .propertyName => "Expecting property name enclosed in double quotes"
  | .colon => "Expecting ':' delimiter"
  | .comma => "Expecting ',' delimiter"
  | .extraData => "Extra data"
  | .openText => "Unterminated string starting at"
  | .controlCharacter => "Invalid control character at"
  | .escape => "Invalid \\escape"
  | .codePointEscape => "Invalid \\uXXXX escape"
  | .byteOrderMark => "Unexpected UTF-8 BOM (decode using utf-8-sig)"

inductive JsonContainer where
  | array
  | object
  deriving DecidableEq

def JsonContainer.name : JsonContainer → Text
  | .array => "array"
  | .object => "object"

inductive JsonFailure where
  | fault (fault : JsonFault) (remaining : Nat)
  | digits (count : Nat)
  /-- One more container than may be open at a time. -/
  | depth (container : JsonContainer)
  deriving DecidableEq

namespace Json

/-- What was read from the front of a text, and the shorter text after it. -/
structure Parsed (text : Text) (α : Type) where
  value : α
  rest : Text
  shorter : rest.length < text.length

def isBlank : CodePoint → Bool
  | .scalar ' ' | .scalar '\t' | .scalar '\n' | .scalar '\r' => true
  | _ => false

def skipBlank (text : Text) : Text :=
  text.dropWhile isBlank

theorem length_skipBlank (text : Text) : (skipBlank text).length ≤ text.length :=
  (List.dropWhile_sublist isBlank).length_le

theorem length_of_skipBlank {text rest : Text} {point : CodePoint}
    (hskip : skipBlank text = point :: rest) : rest.length < text.length := by
  have hlength := length_skipBlank text
  rw [hskip, List.length_cons] at hlength
  omega

/-- The code point that four hexadecimal digits denote. -/
def codePoint? (digits : Text) : Option CodePoint :=
  if digits.length = 4 then (Text.digitsValue? 16 digits).bind CodePoint.ofNat? else none

def isHighSurrogate (point : CodePoint) : Bool :=
  0xD800 ≤ point.toNat && point.toNat < 0xDC00

def isLowSurrogate (point : CodePoint) : Bool :=
  0xDC00 ≤ point.toNat && point.toNat < 0xE000

/-- The code point that the two halves of a pair stand for. -/
def joinSurrogates (high low : CodePoint) : CodePoint :=
  .scalar (Char.ofNat (0x10000 + (high.toNat - 0xD800) * 0x400 + (low.toNat - 0xDC00)))

def namedEscape? : CodePoint → Option CodePoint
  | .scalar '\x22' => some .doubleMark
  | .scalar '\\' => some .backslash
  | .scalar '/' => some (.scalar '/')
  | .scalar 'b' => some (.scalar '\x08')
  | .scalar 'f' => some (.scalar '\x0c')
  | .scalar 'n' => some (.scalar '\n')
  | .scalar 'r' => some (.scalar '\r')
  | .scalar 't' => some (.scalar '\t')
  | _ => none

/-- The code point after a backslash and a `u`.  At least one character has to follow
the four digits. -/
def escapedPoint (text : Text) : Except JsonFailure CodePoint :=
  if text.length ≤ 4 then
    .error (.fault .codePointEscape (text.length + 1))
  else
    match codePoint? (text.take 4) with
    | some point => .ok point
    | none => .error (.fault .codePointEscape (text.length + 1))

/-- A high surrogate together with the escape of a low one after it, if there is one and
the text goes on behind it; and how many code points that escape takes. -/
def completePair (high : CodePoint) (after : Text) :
    Except JsonFailure (CodePoint × Nat) :=
  if isHighSurrogate high && after.length > 6 &&
      after.take 2 = [.backslash, .scalar 'u'] then do
    let low ← escapedPoint (after.drop 2)
    return if isLowSurrogate low then (joinSurrogates high low, 6) else (high, 0)
  else
    .ok (high, 0)

/-- The text up to the closing mark; `opening` is what remained at the opening one. -/
def textBody (opening : Nat) (text : Text) : Except JsonFailure (Parsed text Text) :=
  match text with
  | [] => .error (.fault .openText opening)
  | .scalar '\x22' :: rest => .ok ⟨[], rest, by simp⟩
  | .scalar '\\' :: [] => .error (.fault .openText opening)
  | .scalar '\\' :: .scalar 'u' :: digits => do
      let first ← escapedPoint digits
      let (point, taken) ← completePair first (digits.drop 4)
      let body ← textBody opening (digits.drop (4 + taken))
      return ⟨point :: body.value, body.rest, by
        have hshorter := body.shorter
        simp only [List.length_drop, List.length_cons] at hshorter ⊢
        omega⟩
  | .scalar '\\' :: letter :: rest => do
      match namedEscape? letter with
      | none => .error (.fault .escape text.length)
      | some point =>
          let body ← textBody opening rest
          return ⟨point :: body.value, body.rest, by
            have hshorter := body.shorter
            simp only [List.length_cons]
            omega⟩
  | point :: rest =>
      if point.toNat ≤ 0x1F then
        .error (.fault .controlCharacter text.length)
      else do
        let body ← textBody opening rest
        return ⟨point :: body.value, body.rest, by
          have hshorter := body.shorter
          simp only [List.length_cons]
          omega⟩
termination_by text.length
decreasing_by all_goals simp only [List.length_drop, List.length_cons]; omega

/-- A number as it is written: an integer part, digits after a point, an exponent. -/
structure NumberText where
  negative : Bool
  whole : Text
  fraction : Option Text
  exponent : Option (Bool × Text)

namespace NumberText

def digits (text : Text) : Text :=
  text.takeWhile CodePoint.isAsciiDigit

/-- The integer part, which starts with a zero only if it is one. -/
def readWhole (text : Text) : Text :=
  match text with
  | .scalar '0' :: _ => [.scalar '0']
  | _ => digits text

def readFraction (text : Text) : Option Text :=
  match text with
  | .scalar '.' :: rest => some (digits rest) |>.filter (!·.isEmpty)
  | _ => none

/-- The sign of an exponent, whether it is written, and the digits. -/
def readExponent (text : Text) : Option (Bool × Text) × Nat :=
  match text with
  | .scalar 'e' :: rest | .scalar 'E' :: rest =>
      let (negative, sign) : Bool × Nat := match rest with
        | .scalar '-' :: _ => (true, 1)
        | .scalar '+' :: _ => (false, 1)
        | _ => (false, 0)
      let found := digits (rest.drop sign)
      if found.isEmpty then (none, 0) else (some (negative, found), 1 + sign + found.length)
  | _ => (none, 0)

/-- The number at the front of a text, and how many code points it takes. -/
def read? (text : Text) : Option (NumberText × Nat) :=
  let negative := text.head? = some (.scalar '-')
  let sign := if negative then 1 else 0
  let whole := readWhole (text.drop sign)
  if whole.isEmpty then
    none
  else
    let afterWhole := sign + whole.length
    let fraction := readFraction (text.drop afterWhole)
    let afterFraction := afterWhole + (fraction.map (·.length + 1)).getD 0
    let (exponent, length) := readExponent (text.drop afterFraction)
    some (⟨negative, whole, fraction, exponent⟩, afterFraction + length)

def natural (digits : Text) : Nat :=
  (Text.digitsValue? 10 digits).getD 0

def toJson (number : NumberText) : Except JsonFailure Json :=
  match number.fraction, number.exponent with
  | none, none =>
      if number.whole.length > Numeral.decimalLimit then
        .error (.digits number.whole.length)
      else
        let value : Int := natural number.whole
        .ok (.int (if number.negative then -value else value))
  | _, _ =>
      let fraction := number.fraction.getD []
      let exponent : Int := match number.exponent with
        | some (true, digits) => -natural digits
        | some (false, digits) => natural digits
        | none => 0
      .ok (.float (.ofDecimal number.negative (natural (number.whole ++ fraction))
        (exponent - fraction.length)))

end NumberText

/-- The words that stand for values. -/
def words : List (Text × Json) :=
  [(Text.ofString "null", .null), (Text.ofString "true", .bool true),
    (Text.ofString "false", .bool false), (Text.ofString "NaN", .float .notANumber),
    (Text.ofString "Infinity", .float (.infinite false)),
    (Text.ofString "-Infinity", .float (.infinite true))]

/-- A word or a number. -/
def scalar (text : Text) : Except JsonFailure (Parsed text Json) :=
  let parsed (value : Json) (length : Nat) : Except JsonFailure (Parsed text Json) :=
    if hlength : (text.drop length).length < text.length then
      .ok ⟨value, text.drop length, hlength⟩
    else
      .error (.fault .value text.length)
  match words.find? fun word => word.1.isPrefixOf text with
  | some (word, value) => parsed value word.length
  | none =>
      match NumberText.read? text with
      | none => .error (.fault .value text.length)
      | some (number, length) => do
          let value ← number.toJson
          parsed value length

/-- So many containers may be open at a time. -/
def deepest : Nat := 990

/-- The room that is left once one more container is open. -/
def enter (container : JsonContainer) : Nat → Except JsonFailure Nat
  | 0 => .error (.depth container)
  | room + 1 => .ok room

mutual

/-- The value at the front, in which no more containers may be open than there is room
for. -/
def value (room : Nat) (text : Text) : Except JsonFailure (Parsed text Json) :=
  match text with
  | .scalar '\x22' :: rest => do
      let body ← textBody text.length rest
      return ⟨.text body.value, body.rest, by
        have hshorter := body.shorter
        simp only [List.length_cons]
        omega⟩
  | .scalar '[' :: rest => do
      let room ← enter .array room
      match hskip : skipBlank rest with
      | .scalar ']' :: after => .ok ⟨.array [], after, by
          have hshorter := length_of_skipBlank hskip
          simp only [List.length_cons]
          omega⟩
      | _ => do
          let items ← elements room (skipBlank rest)
          return ⟨.array items.value, items.rest, by
            have hshorter := items.shorter
            have hlength := length_skipBlank rest
            simp only [List.length_cons]
            omega⟩
  | .scalar '\x7b' :: rest => do
      let room ← enter .object room
      match hskip : skipBlank rest with
      | .scalar '\x7d' :: after => .ok ⟨.object [], after, by
          have hshorter := length_of_skipBlank hskip
          simp only [List.length_cons]
          omega⟩
      | _ => do
          let found ← members room (skipBlank rest)
          return ⟨ofMembers found.value, found.rest, by
            have hshorter := found.shorter
            have hlength := length_skipBlank rest
            simp only [List.length_cons]
            omega⟩
  | other => scalar other
termination_by (text.length, 0)
decreasing_by
  all_goals
    have hlength := length_skipBlank rest
    simp only [List.length_cons]
    apply Prod.Lex.left
    omega

/-- One value and those after it, up to the closing bracket. -/
def elements (room : Nat) (text : Text) :
    Except JsonFailure (Parsed text (List Json)) := do
  let item ← value room text
  match hskip : skipBlank item.rest with
  | .scalar ']' :: rest => return ⟨[item.value], rest, by
      have hshorter := item.shorter
      have hlength := length_of_skipBlank hskip
      omega⟩
  | .scalar ',' :: rest =>
      let others ← elements room (skipBlank rest)
      return ⟨item.value :: others.value, others.rest, by
        have hshorter := item.shorter
        have hothers := others.shorter
        have hlength := length_of_skipBlank hskip
        have hblank := length_skipBlank rest
        omega⟩
  | rest => .error (.fault .comma rest.length)
termination_by (text.length, 1)
decreasing_by
  · apply Prod.Lex.right
    omega
  · have hshorter := item.shorter
    have hlength := length_of_skipBlank hskip
    have hblank := length_skipBlank rest
    apply Prod.Lex.left
    omega

/-- One member and those after it, up to the closing brace. -/
def members (room : Nat) (text : Text) :
    Except JsonFailure (Parsed text (List (Text × Json))) :=
  match text with
  | .scalar '\x22' :: start => do
      let name ← textBody text.length start
      match hcolon : skipBlank name.rest with
      | .scalar ':' :: afterColon =>
          let item ← value room (skipBlank afterColon)
          match hskip : skipBlank item.rest with
          | .scalar '\x7d' :: rest => return ⟨[(name.value, item.value)], rest, by
              have hname := name.shorter
              have hitem := item.shorter
              have hlength := length_of_skipBlank hskip
              have hblank := length_skipBlank afterColon
              have hafter := length_of_skipBlank hcolon
              simp only [List.length_cons]
              omega⟩
          | .scalar ',' :: rest =>
              let others ← members room (skipBlank rest)
              return ⟨(name.value, item.value) :: others.value, others.rest, by
                have hname := name.shorter
                have hitem := item.shorter
                have hothers := others.shorter
                have hlength := length_of_skipBlank hskip
                have hblank := length_skipBlank afterColon
                have hrest := length_skipBlank rest
                have hafter := length_of_skipBlank hcolon
                simp only [List.length_cons]
                omega⟩
          | rest => .error (.fault .comma rest.length)
      | rest => .error (.fault .colon rest.length)
  | _ => .error (.fault .propertyName text.length)
termination_by (text.length, 1)
decreasing_by
  · have hname := name.shorter
    have hblank := length_skipBlank afterColon
    have hafter := length_of_skipBlank hcolon
    simp only [List.length_cons]
    apply Prod.Lex.left
    omega
  · have hname := name.shorter
    have hitem := item.shorter
    have hlength := length_of_skipBlank hskip
    have hblank := length_skipBlank afterColon
    have hrest := length_skipBlank rest
    have hafter := length_of_skipBlank hcolon
    simp only [List.length_cons]
    apply Prod.Lex.left
    omega

end

/-- One value and nothing after it. -/
def document (text : Text) : Except JsonFailure Json :=
  if text.head? = some (.scalar '\ufeff') then
    .error (.fault .byteOrderMark text.length)
  else do
    let parsed ← value deepest (skipBlank text)
    match skipBlank parsed.rest with
    | [] => return parsed.value
    | rest => .error (.fault .extraData rest.length)

end Json

/-- A failure and the text in which it occurred. -/
structure JsonError where
  text : Text
  failure : JsonFailure

namespace JsonError

/-- The text is wrong, rather than too deep. -/
def isExpected (error : JsonError) : Bool :=
  match error.failure with
  | .depth _ => false
  | _ => true

/-- Line, column and index of a place; lines and columns count from one. -/
def location (text : Text) (position : Nat) : Text :=
  let before := text.take position
  let line := before.count (.scalar '\n') + 1
  let column := (before.reverse.takeWhile (· ≠ .scalar '\n')).length + 1
  Text.join ["line ", Text.ofNat line, " column ", Text.ofNat column, " (char ",
    Text.ofNat position, ")"]

def message (error : JsonError) : Text :=
  match error.failure with
  | .fault fault remaining =>
      Text.join [fault.message, ": ", location error.text (error.text.length - remaining)]
  | .digits count =>
      Text.join ["Exceeds the limit (", Text.ofNat Numeral.decimalLimit,
        " digits) for integer string conversion: value has ", Text.ofNat count,
        " digits; use sys.set_int_max_str_digits() to increase the limit"]
  | .depth container =>
      Text.join ["maximum recursion depth exceeded while decoding a JSON ", container.name,
        " from a unicode string"]

end JsonError

def Json.ofText (text : Text) : Except JsonError Json :=
  (Json.document text).mapError (⟨text, ·⟩)

end KeyLayout
