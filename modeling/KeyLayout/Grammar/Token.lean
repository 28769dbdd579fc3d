import KeyLayout.Text.CodePoint

namespace KeyLayout

/-! The tokens of a layout text, and the lines that hold them. -/

inductive Punctuation where
  | openBrace
  | closeBrace
  | colon
  | semicolon
  | comma
  deriving DecidableEq

namespace Punctuation

def point : Punctuation → CodePoint
  | .openBrace => .scalar '\x7b'
  | .closeBrace => .scalar '\x7d'
  | .colon => .scalar ':'
  | .semicolon => .scalar ';'
  | .comma => .scalar ','

def ofPoint? : CodePoint → Option Punctuation
  | .scalar '\x7b' => some .openBrace
  | .scalar '\x7d' => some .closeBrace
  | .scalar ':' => some .colon
  | .scalar ';' => some .semicolon
  | .scalar ',' => some .comma
  | _ => none

end Punctuation

/-- A literal keeps its quotation marks. -/
inductive Token where
  | word (text : Text)
  | literal (text : Text)
  | punctuation (mark : Punctuation)
  deriving DecidableEq

def Token.text : Token → Text
  | .word text => text
  | .literal text => text
  | .punctuation mark => [mark.point]

/-- The tokens of a line with its number, the first line of a text being line 1. -/
structure TokenLine where
  number : Nat
  tokens : List Token
  deriving DecidableEq

end KeyLayout
