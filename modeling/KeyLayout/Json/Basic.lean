import KeyLayout.Decimal.Shortest
import KeyLayout.Text.Quoted

namespace KeyLayout

/-! JSON values.  The members of an object keep the order in which their names first
came in; integers are unbounded, and other numbers are of the binary64 format. -/

inductive Json where
  | null
  | bool (value : Bool)
  | int (value : Int)
  | float (value : Binary64)
  | text (value : Text)
  | array (items : List Json)
  | object (members : List (Text × Json))

namespace Json

def insertMember (name : Text) (value : Json) : List (Text × Json) → List (Text × Json)
  | [] => [(name, value)]
  | member :: rest =>
      if member.1 = name then (name, value) :: rest
      else member :: insertMember name value rest

/-- Of members with the same name the first gives the place and the last the value. -/
def ofMembers (members : List (Text × Json)) : Json :=
  .object (members.foldl (fun found member => insertMember member.1 member.2 found) [])

mutual

/-- A value inside another one, as messages show it. -/
def display : Json → Text
  | .null => "None"
  | .bool value => if value then "True" else "False"
  | .int value => Text.ofInt value
  | .float value => value.format
  | .text value => Text.quote value
  | .array items => Text.bracket (displayItems items)
  | .object members =>
      .scalar '\x7b' :: Text.joinWith ", " (displayMembers members) ++ [.scalar '\x7d']

def displayItems : List Json → List Text
  | [] => []
  | item :: rest => display item :: displayItems rest

def displayMembers : List (Text × Json) → List Text
  | [] => []
  | (name, value) :: rest =>
      Text.join [Text.quote name, ": ", display value] :: displayMembers rest

end

/-- A text as it is, and any other value as messages show it. -/
def toText : Json → Text
  | .text value => value
  | value => value.display

end Json

end KeyLayout
