import KeyLayout.Text.CodePoint

namespace KeyLayout

/-! The white space of a layout text: the separators of Unicode and the control
codes that separate fields, lines and records. -/

def Text.blankRanges : List (Nat × Nat) :=
  [(0x09, 0x0D), (0x1C, 0x20), (0x85, 0x85), (0xA0, 0xA0), (0x1680, 0x1680),
    (0x2000, 0x200A), (0x2028, 0x2029), (0x202F, 0x202F), (0x205F, 0x205F),
    (0x3000, 0x3000)]

def CodePoint.isBlank (point : CodePoint) : Bool :=
  Text.blankRanges.any fun range =>
    range.1 ≤ point.toNat && point.toNat ≤ range.2

def Text.trimRight (text : Text) : Text :=
  (text.reverse.dropWhile CodePoint.isBlank).reverse

end KeyLayout
