import KeyLayout.Text.Utf8

namespace KeyLayout.MessagePack

/-! Writing MessagePack, every item in its shortest form. -/

inductive WriteFault where
  | range
  | text (error : Utf8.EncodeError)
  /-- There are more of these than a length of four bytes can say. -/
  | length (what : Text)
  deriving DecidableEq

def WriteFault.message : WriteFault → Text
  | .range => "can't serialize ints < -2**63 or > 2**64 - 1"
  | .text error => error.message
  | .length what => Text.join ["Can't encode ", what, " longer than 2**32 - 1"]

abbrev Written := Except WriteFault (List UInt8)

namespace Written

/-- The value in so many bytes, the most significant one first. -/
def bigEndian : Nat → Nat → List UInt8
  | 0, _ => []
  | width + 1, value => UInt8.ofNat (value / Nat.pow 256 width) :: bigEndian width value

def nil : List UInt8 := [0xC0]

def bool (value : Bool) : List UInt8 :=
  if value then [0xC3] else [0xC2]

/-- A number in the shortest of several forms: within the first byte, or in as many bytes
after a mark as that mark stands for. -/
def shortest (fault : WriteFault) (start bound : Nat) (forms : List (UInt8 × Nat))
    (value : Nat) : Written :=
  if value < bound then .ok [UInt8.ofNat (start + value)]
  else
    match forms.find? fun form => value < Nat.pow 256 form.2 with
    | some (mark, width) => .ok (mark :: bigEndian width value)
    | none => .error fault

def natural : Nat → Written :=
  shortest .range 0 0x80 [(0xCC, 1), (0xCD, 2), (0xCE, 4), (0xCF, 8)]

/-- The integer that is one more than `value` below zero. -/
def negative (value : Nat) : Written :=
  if value < 0x20 then .ok [UInt8.ofNat (0xFF - value)]
  else if value < 0x80 then .ok (0xD0 :: bigEndian 1 (0xFF - value))
  else if value < 0x8000 then .ok (0xD1 :: bigEndian 2 (0xFFFF - value))
  else if value < 0x80000000 then .ok (0xD2 :: bigEndian 4 (0xFFFFFFFF - value))
  else if value < 0x8000000000000000 then .ok (0xD3 :: bigEndian 8 (0xFFFFFFFFFFFFFFFF - value))
  else .error .range

def int : Int → Written
  | .ofNat value => natural value
  | .negSucc value => negative value

def textHead : Nat → Written :=
  shortest (.length "strings") 0xA0 0x20 [(0xD9, 1), (0xDA, 2), (0xDB, 4)]

def arrayHead : Nat → Written :=
  shortest (.length "tuples") 0x90 0x10 [(0xDC, 2), (0xDD, 4)]

def mapHead : Nat → Written :=
  shortest (.length "dicts") 0x80 0x10 [(0xDE, 2), (0xDF, 4)]

/-- The second after the first; the first fault wins. -/
def append (first second : Written) : Written := do
  let opening ← first
  let others ← second
  return opening ++ others

def text (value : Text) : Written :=
  match Utf8.encode value with
  | .ok bytes => append (textHead bytes.length) (.ok bytes)
  | .error error => .error (.text error)

def option {α : Type} (write : α → Written) : Option α → Written
  | none => .ok nil
  | some value => write value

/-- The items one after the other. -/
def sequence (items : List Written) : Written :=
  items.foldr append (.ok [])

def array {α : Type} (write : α → Written) (values : List α) : Written :=
  append (arrayHead values.length) (sequence (values.map write))

def map {α β : Type} (writeKey : α → Written) (writeValue : β → Written)
    (entries : List (α × β)) : Written :=
  append (mapHead entries.length)
    (sequence (entries.map fun entry => append (writeKey entry.1) (writeValue entry.2)))

/-- A map from names to values of any kind. -/
def record (fields : List (Text × Written)) : Written :=
  append (mapHead fields.length)
    (sequence (fields.map fun field => append (text field.1) field.2))

end Written

end KeyLayout.MessagePack
