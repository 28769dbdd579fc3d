import KeyLayout.Text.Quoted

namespace KeyLayout.Utf8

/-! The byte form of text.  Decoding fails at the first byte that belongs to no
character, and the failure names the span of bytes that were read as one. -/

inductive DecodeFault where
  | invalidStart
  | invalidContinuation
  | unexpectedEnd
  deriving DecidableEq

/-- The bytes from `start` up to `stop` begin no character; `lead` is the first. -/
structure DecodeError where
  fault : DecodeFault
  start : Nat
  stop : Nat
  lead : UInt8
  deriving DecidableEq

/-- The code points from `start` up to `stop` are surrogates; `lead` is the first. -/
structure EncodeError where
  start : Nat
  stop : Nat
  lead : CodePoint
  deriving DecidableEq

def DecodeFault.message : DecodeFault → Text
  | .invalidStart => "invalid start byte"
  | .invalidContinuation => "invalid continuation byte"
  | .unexpectedEnd => "unexpected end of data"

def DecodeError.message (error : DecodeError) : Text :=
  if error.stop = error.start + 1 then
    Text.join ["'utf-8' codec can't decode byte 0x", Text.paddedHex 2 error.lead.toNat,
      " in position ", Text.ofNat error.start, ": ", error.fault.message]
  else
    Text.join ["'utf-8' codec can't decode bytes in position ", Text.ofNat error.start,
      "-", Text.ofNat (error.stop - 1), ": ", error.fault.message]

def EncodeError.message (error : EncodeError) : Text :=
  if error.stop = error.start + 1 then
    Text.join ["'utf-8' codec can't encode character '", Text.numericEscape error.lead.toNat,
      "' in position ", Text.ofNat error.start, ": surrogates not allowed"]
  else
    Text.join ["'utf-8' codec can't encode characters in position ", Text.ofNat error.start,
      "-", Text.ofNat (error.stop - 1), ": surrogates not allowed"]

/-- What a first byte announces: its share of the value, how many bytes continue it,
and the range of the first of them, which keeps out long forms and surrogates. -/
structure Lead where
  value : Nat
  count : Nat
  low : Nat
  high : Nat

def Lead.ofByte? (byte : UInt8) : Option Lead :=
  let value := byte.toNat
  if value < 0x80 then some ⟨value, 0, 0x80, 0xBF⟩
  else if value < 0xC2 then none
  else if value < 0xE0 then some ⟨value - 0xC0, 1, 0x80, 0xBF⟩
  else if value = 0xE0 then some ⟨0, 2, 0xA0, 0xBF⟩
  else if value = 0xED then some ⟨0xD, 2, 0x80, 0x9F⟩
  else if value < 0xF0 then some ⟨value - 0xE0, 2, 0x80, 0xBF⟩
  else if value = 0xF0 then some ⟨0, 3, 0x90, 0xBF⟩
  else if value < 0xF4 then some ⟨value - 0xF0, 3, 0x80, 0xBF⟩
  else if value = 0xF4 then some ⟨4, 3, 0x80, 0x8F⟩
  else none

/-- The bytes that continue a character, at most `count` of them. -/
def continuation : Nat → Nat → Nat → List UInt8 → List UInt8
  | 0, _, _, _ => []
  | _ + 1, _, _, [] => []
  | count + 1, low, high, byte :: rest =>
      if low ≤ byte.toNat ∧ byte.toNat ≤ high then
        byte :: continuation count 0x80 0xBF rest
      else
        []

def Lead.combine (lead : Lead) (bytes : List UInt8) : Nat :=
  bytes.foldl (fun total byte => total * 64 + (byte.toNat - 0x80)) lead.value

def decodeFrom (position : Nat) (bytes : List UInt8) : Except DecodeError Text :=
  match bytes with
  | [] => .ok []
  | byte :: rest =>
      match Lead.ofByte? byte with
      | none => .error ⟨.invalidStart, position, position + 1, byte⟩
      | some lead =>
          let following := continuation lead.count lead.low lead.high rest
          if following.length = lead.count then
            (CodePoint.scalar (Char.ofNat (lead.combine following)) :: ·) <$>
              decodeFrom (position + 1 + lead.count) (rest.drop lead.count)
          else if following.length = rest.length then
            .error ⟨.unexpectedEnd, position, position + 1 + rest.length, byte⟩
          else
            .error ⟨.invalidContinuation, position, position + 1 + following.length, byte⟩
termination_by bytes.length
decreasing_by
  simp only [List.length_drop, List.length_cons]
  omega

def decode (bytes : List UInt8) : Except DecodeError Text :=
  decodeFrom 0 bytes

def encodeScalar (value : Nat) : List UInt8 :=
  let unit (lead place : Nat) : UInt8 := UInt8.ofNat (lead + value / place)
  let continuing (place : Nat) : UInt8 := UInt8.ofNat (0x80 + value / place % 64)
  if value < 0x80 then [unit 0 1]
  else if value < 0x800 then [unit 0xC0 64, continuing 1]
  else if value < 0x10000 then [unit 0xE0 4096, continuing 64, continuing 1]
  else [unit 0xF0 262144, continuing 4096, continuing 64, continuing 1]

def encodeFrom (position : Nat) : Text → Except EncodeError (List UInt8)
  | [] => .ok []
  | .scalar character :: rest =>
      (encodeScalar character.toNat ++ ·) <$> encodeFrom (position + 1) rest
  | .surrogate offset :: rest =>
      .error ⟨position, position + 1 + (rest.takeWhile CodePoint.isSurrogate).length,
        .surrogate offset⟩

def encode (text : Text) : Except EncodeError (List UInt8) :=
  encodeFrom 0 text

end KeyLayout.Utf8
