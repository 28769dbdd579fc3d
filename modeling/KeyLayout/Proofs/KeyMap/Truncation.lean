import KeyLayout.Proofs.KeyMap.Bytes
import KeyLayout.Proofs.MessagePack.Truncation

namespace KeyLayout

/-! No part of the bytes of a key map, and nothing longer than them, is read as a key map. -/

open MessagePack (Written Read Reader FieldReader Undoes read_andThen undoes_int undoes_bool
  undoes_text undoes_option undoes_array undoes_map undoes_fieldName undoes_mapHead present_int)

section Incremental

theorem Behavior.incremental_fieldReader : fieldReader.Incremental := by
  intro name behavior
  unfold fieldReader
  split
  next => exact .field (.int _) _
  split
  next => exact .field (.option .character) _
  split
  next => exact .field (.option (.int _)) _
  split
  next => exact .field (.option (.int _)) _
  next => exact .skip behavior

theorem Behavior.incremental_reader : reader.Incremental :=
  incremental_fieldReader.record _

theorem Key.incremental_fieldReader : fieldReader.Incremental := by
  intro name key
  unfold fieldReader
  split
  next => exact .field (.option .character) _
  split
  next => exact .field (.option .character) _
  split
  next => exact .field (.array Behavior.incremental_reader) _
  next => exact .skip key

theorem Key.incremental_reader : reader.Incremental :=
  incremental_fieldReader.record _

theorem KeyboardType.incremental_reader : reader.Incremental := by
  intro head
  rw [reader_eq]
  exact (Reader.Incremental.int _ head).andThen fun _ => .pure _

theorem KeyMap.incremental_fieldReader : fieldReader.Incremental := by
  intro name found
  unfold fieldReader
  split
  next => exact .field .text _
  split
  next => exact .field KeyboardType.incremental_reader _
  split
  next => exact .field (.map (.int _) Key.incremental_reader) _
  split
  next => exact .field (.map (.int _) (.int _)) _
  split
  next => exact .field (.map (.int _) (.int _)) _
  split
  next => exact .field (.map (.int _) (.int _)) _
  split
  next => exact .field .bool _
  next => exact .skip found

theorem KeyMap.incremental_reader : reader.Incremental := by
  intro head
  rw [reader_eq]
  refine (incremental_fieldReader.record _ head).andThen fun found => ?_
  cases found.name with
  | none => exact .fault .invalid
  | some name => exact .pure _

end Incremental

/-! Maps are told apart by their bytes even where numbers are out of range: fields are written
in one order, and may be read in it whatever their numbers are. -/

section InOrder

/-- The next field, whatever its name. -/
def nextField {α : Type} (reader : Reader α) : Read α :=
  Read.andThen MessagePack.fieldName fun _ => reader.read

theorem FieldName.undoes_nextField {α : Type} {reader : Reader α} {written : Written} {value : α}
    (field : FieldName) (hname : Utf8.encode field.text = .ok field.bytes)
    (hvalue : Undoes False reader.read written value) :
    Undoes False (nextField reader) ((Written.text field.text).append written) value :=
  (undoes_fieldName hname).append hvalue

def anyInt : Reader Int := Reader.int fun _ => true

theorem undoes_anyInt (value : Int) : Undoes False anyInt.read (Written.int value) value :=
  undoes_int (.inr rfl)

theorem undoes_optionalInt (value : Option Int) :
    Undoes False (Reader.option anyInt).read (Written.option Written.int value) value :=
  undoes_option (fun own _ => present_int own) fun own _ => undoes_anyInt own

def Behavior.inOrder : Reader Behavior := fun _ =>
  Read.andThen (nextField anyInt) fun mask =>
  Read.andThen (nextField (Reader.option Reader.character)) fun character =>
  Read.andThen (nextField (Reader.option anyInt)) fun fallback =>
  Read.andThen (nextField (Reader.option anyInt)) fun replacement bytes =>
    .ok (⟨mask, character, fallback, replacement⟩, bytes)

theorem Behavior.undoes_inOrder (behavior : Behavior) :
    Undoes False inOrder.read behavior.write behavior := by
  refine undoes_mapHead.append ?_
  refine (maskField.undoes_nextField rfl (undoes_anyInt behavior.mask)).append ?_
  refine (characterField.undoes_nextField rfl
    (undoes_optionalCharacter behavior.character)).append ?_
  refine (fallbackField.undoes_nextField rfl (undoes_optionalInt behavior.fallback)).append ?_
  refine (replacementField.undoes_nextField rfl
    (undoes_optionalInt behavior.replacement)).append ?_
  exact .ok fun _ => rfl

def Key.inOrder : Reader Key := fun _ =>
  Read.andThen (nextField (Reader.option Reader.character)) fun label =>
  Read.andThen (nextField (Reader.option Reader.character)) fun number =>
  Read.andThen (nextField (Reader.array Behavior.inOrder)) fun behaviors bytes =>
    .ok (⟨label, number, behaviors⟩, bytes)

theorem Key.undoes_inOrder (key : Key) : Undoes False inOrder.read key.write key := by
  refine undoes_mapHead.append ?_
  refine (labelField.undoes_nextField rfl (undoes_optionalCharacter key.label)).append ?_
  refine (numberField.undoes_nextField rfl (undoes_optionalCharacter key.number)).append ?_
  refine (behaviorsField.undoes_nextField rfl
    (undoes_array fun behavior _ => behavior.undoes_inOrder)).append ?_
  exact .ok fun _ => rfl

namespace KeyMap

def inOrder : Reader KeyMap := fun _ =>
  Read.andThen (nextField Reader.text) fun name =>
  Read.andThen (nextField KeyboardType.reader) fun type =>
  Read.andThen (nextField (Reader.map anyInt Key.inOrder)) fun keys =>
  Read.andThen (nextField (Reader.map anyInt anyInt)) fun scanCodes =>
  Read.andThen (nextField (Reader.map anyInt anyInt)) fun usageCodes =>
  Read.andThen (nextField (Reader.map anyInt anyInt)) fun remapping =>
  Read.andThen (nextField Reader.bool) fun overlaid bytes =>
    .ok (⟨name, type, .ofList keys, .ofList scanCodes, .ofList usageCodes, .ofList remapping,
      overlaid⟩, bytes)

theorem undoes_inOrder (map : KeyMap) : Undoes False inOrder.read map.write map := by
  have hcodes (table : Table Int Int) :
      Undoes False (Reader.map anyInt anyInt).read
        (Written.map Written.int Written.int table.entries) table.entries :=
    undoes_map (fun entry _ => undoes_anyInt entry.1) fun entry _ => undoes_anyInt entry.2
  refine undoes_mapHead.append ?_
  refine (nameField.undoes_nextField rfl (undoes_text map.name)).append ?_
  refine (typeField.undoes_nextField rfl (KeyboardType.undoes_write map.type)).append ?_
  refine (keysField.undoes_nextField rfl (undoes_map (fun entry _ => undoes_anyInt entry.1)
    fun entry _ => entry.2.undoes_inOrder)).append ?_
  refine (scanCodesField.undoes_nextField rfl (hcodes map.scanCodes)).append ?_
  refine (usageCodesField.undoes_nextField rfl (hcodes map.usageCodes)).append ?_
  refine (remappingField.undoes_nextField rfl (hcodes map.remapping)).append ?_
  refine (overlaidField.undoes_nextField rfl (undoes_bool map.overlaid)).append ?_
  refine .ok fun rest => ?_
  simp only [Table.ofList_entries, List.nil_append]

end KeyMap

end InOrder

namespace KeyMap

/-- No map is read from part of the bytes or from more than them, nor written in more than them. -/
structure Delimits (map : KeyMap) (bytes : List UInt8) : Prop where
  cut : ∀ part more, part ++ more = bytes → more ≠ [] →
    ofBytes part = .error .malformed ∨ ¬map.Readable ∧ ofBytes part = .error .invalid
  continued : ∀ more, more ≠ [] →
    ofBytes (bytes ++ more) = .error .malformed ∨
      ¬map.Readable ∧ ofBytes (bytes ++ more) = .error .invalid
  unique : ∀ other more, toBytes other = .ok (bytes ++ more) → more = [] ∧ other = map

/-- The bytes of a map end where they say.  That they are cut or go on is noticed as such, unless
a number that is out of range comes before. -/
theorem toBytes_delimits {map : KeyMap} {bytes : List UInt8} (hbytes : map.toBytes = .ok bytes) :
    map.Delimits bytes := by
  have hundoes : Undoes (¬map.Readable) reader.read map.write map :=
    undoes_write (Classical.em map.Readable).symm
  constructor
  · rintro part more rfl hmore
    exact hundoes.whole_prefix incremental_reader hbytes hmore
  · exact fun more hmore => hundoes.whole_append hbytes hmore
  · exact fun other more hother =>
      map.undoes_inOrder.eq_of_append hbytes other.undoes_inOrder hother

theorem toBytes_delimits_extremes :
    ∃ bytes, extremes.toBytes = .ok bytes ∧ extremes.Delimits bytes := by
  obtain ⟨bytes, hbytes⟩ := storable_extremes.succeeds
  exact ⟨bytes, hbytes, toBytes_delimits hbytes⟩

end KeyMap

end KeyLayout
