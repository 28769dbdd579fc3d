import KeyLayout.KeyMap.Basic
import KeyLayout.MessagePack.Reader
import KeyLayout.MessagePack.Writer

namespace KeyLayout

/-! The byte form of key maps: a MessagePack map of fields, all of which are written and
any of which but the name may be absent when it is read. -/

open MessagePack (Written Reader FieldReader)

/-- The names of fields, as texts and as the bytes that are looked for. -/
structure FieldName where
  name : String

namespace FieldName

def text (field : FieldName) : Text := Text.ofString field.name

def bytes (field : FieldName) : List UInt8 :=
  field.name.toList.map fun character => UInt8.ofNat character.toNat

end FieldName

namespace Behavior

def maskField : FieldName := ⟨"meta_state"⟩
def characterField : FieldName := ⟨"character"⟩
def fallbackField : FieldName := ⟨"fallback_key_code"⟩
def replacementField : FieldName := ⟨"replacement_key_code"⟩

end Behavior

namespace KeyCode

def write : KeyCode → Written := Written.int

def reader : Reader KeyCode := Reader.int fun code => decide (InRange code)

end KeyCode

/-- Device codes and masks are read only if they are not negative. -/
def naturalReader : Reader Int := Reader.int fun value => decide (0 ≤ value)

def CodePoint.write (point : CodePoint) : Written := Written.text [point]

namespace Behavior

def write (behavior : Behavior) : Written :=
  Written.record [
    (maskField.text, Written.int behavior.mask),
    (characterField.text, Written.option CodePoint.write behavior.character),
    (fallbackField.text, Written.option KeyCode.write behavior.fallback),
    (replacementField.text, Written.option KeyCode.write behavior.replacement)]

def fieldReader : FieldReader Behavior := fun name behavior bytes =>
  if name = maskField.bytes then
    FieldReader.field naturalReader (fun mask => { behavior with mask := mask }) bytes
  else if name = characterField.bytes then
    FieldReader.field (Reader.option Reader.character)
      (fun character => { behavior with character := character }) bytes
  else if name = fallbackField.bytes then
    FieldReader.field (Reader.option KeyCode.reader)
      (fun fallback => { behavior with fallback := fallback }) bytes
  else if name = replacementField.bytes then
    FieldReader.field (Reader.option KeyCode.reader)
      (fun replacement => { behavior with replacement := replacement }) bytes
  else
    FieldReader.skip behavior bytes

def reader : Reader Behavior := Reader.record fieldReader {}

end Behavior

namespace Key

def labelField : FieldName := ⟨"label"⟩
def numberField : FieldName := ⟨"number"⟩
def behaviorsField : FieldName := ⟨"behaviors"⟩

def write (key : Key) : Written :=
  Written.record [
    (labelField.text, Written.option CodePoint.write key.label),
    (numberField.text, Written.option CodePoint.write key.number),
    (behaviorsField.text, Written.array Behavior.write key.behaviors)]

def fieldReader : FieldReader Key := fun name key bytes =>
  if name = labelField.bytes then
    FieldReader.field (Reader.option Reader.character)
      (fun label => { key with label := label }) bytes
  else if name = numberField.bytes then
    FieldReader.field (Reader.option Reader.character)
      (fun number => { key with number := number }) bytes
  else if name = behaviorsField.bytes then
    FieldReader.field (Reader.array Behavior.reader)
      (fun behaviors => { key with behaviors := behaviors }) bytes
  else
    FieldReader.skip key bytes

def reader : Reader Key := Reader.record fieldReader {}

end Key

namespace KeyboardType

def write (type : KeyboardType) : Written := Written.int type.code

def reader : Reader KeyboardType := fun head bytes => do
  let (code, rest) ← Reader.int (fun code => (ofCode? code).isSome) head bytes
  return ((ofCode? code).getD .unknown, rest)

end KeyboardType

namespace KeyMap

def nameField : FieldName := ⟨"load_file_name"⟩
def typeField : FieldName := ⟨"keyboard_type"⟩
def keysField : FieldName := ⟨"keys"⟩
def scanCodesField : FieldName := ⟨"keys_by_scan_code"⟩
def usageCodesField : FieldName := ⟨"keys_by_usage_code"⟩
def remappingField : FieldName := ⟨"key_remapping"⟩
def overlaidField : FieldName := ⟨"layout_overlay_applied"⟩

def write (map : KeyMap) : Written :=
  Written.record [
    (nameField.text, Written.text map.name),
    (typeField.text, map.type.write),
    (keysField.text, Written.map KeyCode.write Key.write map.keys.entries),
    (scanCodesField.text,
      Written.map Written.int KeyCode.write map.scanCodes.entries),
    (usageCodesField.text,
      Written.map Written.int KeyCode.write map.usageCodes.entries),
    (remappingField.text,
      Written.map KeyCode.write KeyCode.write map.remapping.entries),
    (overlaidField.text, .ok (Written.bool map.overlaid))]

/-- The fields read so far; the name has no default. -/
structure Fields where
  name : Option Text := none
  map : KeyMap := { name := [] }

def fieldReader : FieldReader Fields := fun name found bytes =>
  if name = nameField.bytes then
    FieldReader.field Reader.text (fun name => { found with name := some name }) bytes
  else if name = typeField.bytes then
    FieldReader.field KeyboardType.reader
      (fun type => { found with map := { found.map with type := type } }) bytes
  else if name = keysField.bytes then
    FieldReader.field (Reader.map KeyCode.reader Key.reader)
      (fun keys => { found with map := { found.map with keys := .ofList keys } }) bytes
  else if name = scanCodesField.bytes then
    FieldReader.field (Reader.map naturalReader KeyCode.reader)
      (fun codes => { found with map := { found.map with scanCodes := .ofList codes } }) bytes
  else if name = usageCodesField.bytes then
    FieldReader.field (Reader.map naturalReader KeyCode.reader)
      (fun codes => { found with map := { found.map with usageCodes := .ofList codes } }) bytes
  else if name = remappingField.bytes then
    FieldReader.field (Reader.map KeyCode.reader KeyCode.reader)
      (fun codes => { found with map := { found.map with remapping := .ofList codes } }) bytes
  else if name = overlaidField.bytes then
    FieldReader.field Reader.bool
      (fun overlaid => { found with map := { found.map with overlaid := overlaid } }) bytes
  else
    FieldReader.skip found bytes

def reader : Reader KeyMap := fun head bytes => do
  let (found, rest) ← Reader.record fieldReader {} head bytes
  match found.name with
  | some name => .ok ({ found.map with name := name }, rest)
  | none => .error .invalid

def toBytes (map : KeyMap) : Written := map.write

def ofBytes (bytes : List UInt8) : Except MessagePack.ReadFault KeyMap :=
  Reader.whole reader bytes

end KeyMap

end KeyLayout
