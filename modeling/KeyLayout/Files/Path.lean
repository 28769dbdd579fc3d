import KeyLayout.Text.Utf8

namespace KeyLayout

/-! Paths by their parts.  Empty parts and single dots say nothing and are dropped. -/

/-- The bytes of a code point in the name of a file.  A surrogate from U+DC80 to U+DCFF
stands for the byte that it ends in, and no other one can be in a name. -/
def CodePoint.nameBytes? : CodePoint → Option (List UInt8)
  | .scalar character => some (Utf8.encodeScalar character.toNat)
  | .surrogate offset =>
      if 0x480 ≤ offset.val ∧ offset.val < 0x500 then some [UInt8.ofNat offset.val] else none

/-- An absolute path starts with one slash, or with exactly two. -/
inductive PathRoot where
  | relative
  | slash
  | doubleSlash
  deriving DecidableEq

structure Path where
  root : PathRoot
  parts : List Text
  deriving DecidableEq

namespace Path

def separator : CodePoint := .scalar '/'

def rootOf (text : Text) : PathRoot :=
  match (text.takeWhile (· = separator)).length with
  | 0 => .relative
  | 2 => .doubleSlash
  | _ => .slash

def ofText (text : Text) : Path where
  root := rootOf text
  parts := (Text.splitOn separator text).filter fun part =>
    part ≠ [] ∧ part ≠ Text.ofString "."

def toText (path : Path) : Text :=
  let joined := Text.joinWith [separator] path.parts
  match path.root with
  | .relative => if joined.isEmpty then "." else joined
  | .slash => separator :: joined
  | .doubleSlash => separator :: separator :: joined

def encodeFrom (position : Nat) : Text → Except Utf8.EncodeError (List UInt8)
  | [] => .ok []
  | point :: rest =>
      match point.nameBytes? with
      | some bytes => (bytes ++ ·) <$> encodeFrom (position + 1) rest
      | none =>
          .error ⟨position, position + 1 + (rest.takeWhile CodePoint.isSurrogate).length, point⟩

/-- The bytes by which the file system is asked for the path. -/
def encode (path : Path) : Except Utf8.EncodeError (List UInt8) :=
  encodeFrom 0 path.toText

/-- The second path seen from the first; an absolute one is the same from everywhere. -/
def append (path within : Path) : Path :=
  match within.root with
  | .relative => { path with parts := path.parts ++ within.parts }
  | _ => within

end Path

end KeyLayout
