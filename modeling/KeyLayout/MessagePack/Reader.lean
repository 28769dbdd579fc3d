import KeyLayout.Text.Utf8

namespace KeyLayout.MessagePack

/-! Reading MessagePack against the kind of item that is expected.  Bytes are read from
the front and the first fault ends the reading. -/

inductive ReadFault where
  /-- The bytes end early, go on too long, or begin no item. -/
  | malformed
  /-- An item is not of the expected kind or range. -/
  | invalid
  | text (error : Utf8.DecodeError)
  /-- One more item holds others than may be open at a time. -/
  | depth
  deriving DecidableEq

def ReadFault.message : ReadFault → Text
  | .malformed => "The bytes are no item"
  | .invalid => "An item is not of the expected kind"
  | .text error => error.message
  | .depth => "maximum recursion depth exceeded while deserializing an object"

/-- What the first byte of an item, and the number after it, say of it. -/
inductive Head where
  | nil
  | bool (value : Bool)
  | int (value : Int)
  | float
  | text (length : Nat)
  | binary (length : Nat)
  | array (length : Nat)
  | map (length : Nat)
  | extension (length : Nat)
  deriving DecidableEq

/-- So many bytes, and the bytes after them. -/
def takeBytes : Nat → List UInt8 → Except ReadFault (List UInt8 × List UInt8)
  | 0, bytes => .ok ([], bytes)
  | _ + 1, [] => .error .malformed
  | count + 1, byte :: bytes => do
      let (taken, rest) ← takeBytes count bytes
      return (byte :: taken, rest)

theorem length_takeBytes {count : Nat} {bytes taken rest : List UInt8}
    (htake : takeBytes count bytes = .ok (taken, rest)) :
    rest.length + count = bytes.length := by
  induction count generalizing bytes taken rest with
  | zero =>
      cases htake
      rfl
  | succ count ih =>
      cases bytes with
      | nil => contradiction
      | cons byte bytes =>
          rw [takeBytes] at htake
          cases hinner : takeBytes count bytes with
          | error => rw [hinner] at htake; contradiction
          | ok found =>
              rw [hinner] at htake
              have hlength := ih hinner
              cases htake
              simp only [List.length_cons]
              omega

def ofBigEndian (bytes : List UInt8) : Nat :=
  bytes.foldl (fun total byte => total * 256 + byte.toNat) 0

/-- A number in so many bytes that belongs to the head of an item. -/
def headNumber (width : Nat) (head : Nat → Head) (bytes : List UInt8) :
    Except ReadFault (Head × List UInt8) := do
  let (taken, rest) ← takeBytes width bytes
  return (head (ofBigEndian taken), rest)

/-- A number in two's complement. -/
def signed (width value : Nat) : Head :=
  .int (if value < Nat.pow 2 (8 * width - 1) then value else value - Nat.pow 2 (8 * width))

def readHead : List UInt8 → Except ReadFault (Head × List UInt8)
  | [] => .error .malformed
  | byte :: rest =>
      let code := byte.toNat
      if code < 0x80 then .ok (.int code, rest)
      else if code < 0x90 then .ok (.map (code - 0x80), rest)
      else if code < 0xA0 then .ok (.array (code - 0x90), rest)
      else if code < 0xC0 then .ok (.text (code - 0xA0), rest)
      else if 0xE0 ≤ code then .ok (.int (code - 0x100), rest)
      else
        match code with
        | 0xC0 => .ok (.nil, rest)
        | 0xC2 => .ok (.bool false, rest)
        | 0xC3 => .ok (.bool true, rest)
        | 0xC4 => headNumber 1 .binary rest
        | 0xC5 => headNumber 2 .binary rest
        | 0xC6 => headNumber 4 .binary rest
        | 0xC7 => headNumber 1 .extension rest
        | 0xC8 => headNumber 2 .extension rest
        | 0xC9 => headNumber 4 .extension rest
        | 0xCA => headNumber 4 (fun _ => .float) rest
        | 0xCB => headNumber 8 (fun _ => .float) rest
        | 0xCC => headNumber 1 (fun value => .int value) rest
        | 0xCD => headNumber 2 (fun value => .int value) rest
        | 0xCE => headNumber 4 (fun value => .int value) rest
        | 0xCF => headNumber 8 (fun value => .int value) rest
        | 0xD0 => headNumber 1 (signed 1) rest
        | 0xD1 => headNumber 2 (signed 2) rest
        | 0xD2 => headNumber 4 (signed 4) rest
        | 0xD3 => headNumber 8 (signed 8) rest
        | 0xD4 => .ok (.extension 1, rest)
        | 0xD5 => .ok (.extension 2, rest)
        | 0xD6 => .ok (.extension 4, rest)
        | 0xD7 => .ok (.extension 8, rest)
        | 0xD8 => .ok (.extension 16, rest)
        | 0xD9 => headNumber 1 .text rest
        | 0xDA => headNumber 2 .text rest
        | 0xDB => headNumber 4 .text rest
        | 0xDC => headNumber 2 .array rest
        | 0xDD => headNumber 4 .array rest
        | 0xDE => headNumber 2 .map rest
        | 0xDF => headNumber 4 .map rest
        | _ => .error .malformed

theorem length_headNumber {width : Nat} {make : Nat → Head} {bytes rest : List UInt8}
    {head : Head} (hread : headNumber width make bytes = .ok (head, rest)) :
    rest.length ≤ bytes.length := by
  unfold headNumber at hread
  cases htake : takeBytes width bytes with
  | error => rw [htake] at hread; contradiction
  | ok found =>
      rw [htake] at hread
      have hlength := length_takeBytes htake
      cases hread
      omega

theorem length_readHead {bytes rest : List UInt8} {head : Head}
    (hread : readHead bytes = .ok (head, rest)) : rest.length < bytes.length := by
  cases bytes with
  | nil => contradiction
  | cons byte tail =>
      rw [readHead] at hread
      suffices hle : rest.length ≤ tail.length by
        simp only [List.length_cons]
        omega
      repeat' split at hread
      all_goals first
        | exact length_headNumber hread
        | (cases hread; exact Nat.le_refl _)
        | contradiction

/-- The bytes of a text, of binary data or of an extension, which has a type byte too. -/
def Head.payload : Head → Nat
  | .text length => length
  | .binary length => length
  | .extension length => length + 1
  | _ => 0

/-- The items that an item holds. -/
def Head.children : Head → Nat
  | .array length => length
  | .map length => 2 * length
  | _ => 0

/-- So many items that hold others may be open at a time. -/
def deepest : Nat := 990

/-- The bytes after the items that are due, with all that they hold.  What is due comes by
levels, the innermost first. -/
def skip (due : List Nat) (bytes : List UInt8) : Except ReadFault (List UInt8) :=
  match due with
  | [] => .ok bytes
  | 0 :: outer => skip outer bytes
  | (count + 1) :: outer =>
      match _ : readHead bytes with
      | .error fault => .error fault
      | .ok (head, rest) =>
          match _ : takeBytes head.payload rest with
          | .error fault => .error fault
          | .ok (_, rest) =>
              if head.children = 0 then skip (count :: outer) rest
              else if deepest < due.length then .error .depth
              else skip (head.children :: count :: outer) rest
termination_by (bytes.length, due.length)
decreasing_by
  · apply Prod.Lex.right
    simp only [List.length_cons]
    omega
  · have hhead := length_readHead (by assumption)
    have htake := length_takeBytes (by assumption)
    apply Prod.Lex.left
    omega
  · have hhead := length_readHead (by assumption)
    have htake := length_takeBytes (by assumption)
    apply Prod.Lex.left
    omega

/-- Reads what an item holds after its head. -/
abbrev Reader (α : Type) := Head → List UInt8 → Except ReadFault (α × List UInt8)

namespace Reader

/-- An item of another kind is refused once the bytes that it is made of are read; the
items that it holds are not looked at. -/
def refuse {α : Type} (head : Head) (bytes : List UInt8) :
    Except ReadFault (α × List UInt8) :=
  match takeBytes head.payload bytes with
  | .error fault => .error fault
  | .ok _ => .error .invalid

def read {α : Type} (reader : Reader α) (bytes : List UInt8) :
    Except ReadFault (α × List UInt8) := do
  let (head, rest) ← readHead bytes
  reader head rest

/-- An integer that satisfies the condition. -/
def int (accept : Int → Bool) : Reader Int
  | .int value, bytes => if accept value then .ok (value, bytes) else .error .invalid
  | head, bytes => refuse head bytes

def bool : Reader Bool
  | .bool value, bytes => .ok (value, bytes)
  | head, bytes => refuse head bytes

def text : Reader Text
  | .text length, bytes => do
      let (taken, rest) ← takeBytes length bytes
      match Utf8.decode taken with
      | .ok text => .ok (text, rest)
      | .error error => .error (.text error)
  | head, bytes => refuse head bytes

/-- A text of one code point. -/
def character : Reader CodePoint := fun head bytes => do
  let (text, rest) ← text head bytes
  match text with
  | [point] => .ok (point, rest)
  | _ => .error .invalid

def option {α : Type} (reader : Reader α) : Reader (Option α)
  | .nil, bytes => .ok (none, bytes)
  | head, bytes => do
      let (value, rest) ← reader head bytes
      return (some value, rest)

def items {α : Type} (reader : Reader α) :
    Nat → List UInt8 → Except ReadFault (List α × List UInt8)
  | 0, bytes => .ok ([], bytes)
  | count + 1, bytes => do
      let (item, rest) ← reader.read bytes
      let (others, rest) ← items reader count rest
      return (item :: others, rest)

def array {α : Type} (reader : Reader α) : Reader (List α)
  | .array length, bytes => items reader length bytes
  | head, bytes => refuse head bytes

def entries {α β : Type} (key : Reader α) (value : Reader β) :
    Nat → List UInt8 → Except ReadFault (List (α × β) × List UInt8)
  | 0, bytes => .ok ([], bytes)
  | count + 1, bytes => do
      let (first, rest) ← key.read bytes
      let (second, rest) ← value.read rest
      let (others, rest) ← entries key value count rest
      return ((first, second) :: others, rest)

def map {α β : Type} (key : Reader α) (value : Reader β) : Reader (List (α × β))
  | .map length, bytes => entries key value length bytes
  | head, bytes => refuse head bytes

end Reader

/-- The bytes of a field's name, which need not be a text.  Anything else in its place
is refused at its first byte. -/
def fieldName (bytes : List UInt8) : Except ReadFault (List UInt8 × List UInt8) :=
  match bytes with
  | [] => .error .malformed
  | byte :: _ =>
      let code := byte.toNat
      if (0xA0 ≤ code && code < 0xC0) || (0xD9 ≤ code && code ≤ 0xDB) then do
        let (head, rest) ← readHead bytes
        takeBytes head.payload rest
      else
        .error .invalid

/-- How the field of a name changes a record. -/
abbrev FieldReader (σ : Type) :=
  List UInt8 → σ → List UInt8 → Except ReadFault (σ × List UInt8)

namespace FieldReader

def field {α σ : Type} (reader : Reader α) (set : α → σ) (bytes : List UInt8) :
    Except ReadFault (σ × List UInt8) := do
  let (value, rest) ← reader.read bytes
  return (set value, rest)

def skip {σ : Type} (state : σ) (bytes : List UInt8) :
    Except ReadFault (σ × List UInt8) := do
  let rest ← MessagePack.skip [1] bytes
  return (state, rest)

def read {σ : Type} (reader : FieldReader σ) :
    Nat → σ → List UInt8 → Except ReadFault (σ × List UInt8)
  | 0, state, bytes => .ok (state, bytes)
  | count + 1, state, bytes => do
      let (name, rest) ← fieldName bytes
      let (state, rest) ← reader name state rest
      read reader count state rest

end FieldReader

namespace Reader

/-- A record that starts from its defaults; of repeated fields the last one counts. -/
def record {σ : Type} (reader : FieldReader σ) (start : σ) : Reader σ
  | .map length, bytes => reader.read length start bytes
  | head, bytes => refuse head bytes

/-- One item and nothing after it. -/
def whole {α : Type} (reader : Reader α) (bytes : List UInt8) : Except ReadFault α := do
  let (value, rest) ← reader.read bytes
  if rest.isEmpty then .ok value else .error .malformed

end Reader

end KeyLayout.MessagePack
