import KeyLayout.Text.CodePoint

namespace KeyLayout

/-! Lines of a text.  A carriage return and a line feed after it end one line
together; every other boundary ends a line alone. -/

def CodePoint.isLineBoundary (point : CodePoint) : Bool :=
  [0x0A, 0x0B, 0x0C, 0x0D, 0x1C, 0x1D, 0x1E, 0x85, 0x2028, 0x2029].contains point.toNat

namespace Text

/-- The lines without their boundaries; no line follows a final boundary. -/
def lines : Text → List Text
  | [] => []
  | .scalar '\r' :: .scalar '\n' :: rest => [] :: lines rest
  | point :: rest =>
      if point.isLineBoundary then
        [] :: lines rest
      else
        match lines rest with
        | [] => [[point]]
        | line :: others => (point :: line) :: others

/-- Every carriage return, and the line feed after it if there is one, as a single
line feed. -/
def unifyNewlines : Text → Text
  | [] => []
  | .scalar '\r' :: .scalar '\n' :: rest => .scalar '\n' :: unifyNewlines rest
  | .scalar '\r' :: rest => .scalar '\n' :: unifyNewlines rest
  | point :: rest => point :: unifyNewlines rest

end Text

end KeyLayout
