namespace KeyLayout

/-! Text is a list of code points.  Lone surrogates belong to it, although no
`Char` stands for one. -/

inductive CodePoint where
  | scalar (character : Char)
  | surrogate (offset : Fin 0x800)
  deriving DecidableEq

namespace CodePoint

def toNat : CodePoint → Nat
  | .scalar character => character.toNat
  | .surrogate offset => 0xD800 + offset.val

def ofNat? (value : Nat) : Option CodePoint :=
  if hscalar : value.isValidChar then
    some (.scalar (Char.ofNatAux value hscalar))
  else if hsurrogate : 0xD800 ≤ value ∧ value < 0xE000 then
    some (.surrogate ⟨value - 0xD800, by omega⟩)
  else
    none

def isSurrogate : CodePoint → Bool
  | .scalar _ => false
  | .surrogate _ => true

instance : Coe Char CodePoint := ⟨CodePoint.scalar⟩

end CodePoint

abbrev Text := List CodePoint

namespace Text

def ofString (string : String) : Text :=
  string.toList.map CodePoint.scalar

instance : Coe String Text := ⟨ofString⟩

/-- The string of these code points, unless one of them is a surrogate. -/
def toString? (text : Text) : Option String :=
  (text.mapM fun
    | CodePoint.scalar character => some character
    | CodePoint.surrogate _ => none).map String.ofList

def join (parts : List Text) : Text :=
  parts.flatten

/-- The parts with the separator between each two of them. -/
def joinWith (separator : Text) (parts : List Text) : Text :=
  (parts.intersperse separator).flatten

/-- The maximal parts without the separator; there is always one. -/
def splitOn (separator : CodePoint) : Text → List Text
  | [] => [[]]
  | point :: rest =>
      if point = separator then
        [] :: splitOn separator rest
      else
        match splitOn separator rest with
        | [] => [[point]]
        | part :: parts => (point :: part) :: parts

/-- The text with spaces added at the end up to the width. -/
def padRight (width : Nat) (text : Text) : Text :=
  text ++ List.replicate (width - text.length) (CodePoint.scalar ' ')

def ofNat (value : Nat) : Text :=
  ofString (toString value)

def ofInt (value : Int) : Text :=
  ofString (toString value)

def hexOfNat (value : Nat) : Text :=
  (Nat.toDigits 16 value).map CodePoint.scalar

end Text

end KeyLayout
