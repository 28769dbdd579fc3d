import KeyLayout.KeyMap.Bytes
import KeyLayout.Proofs.MessagePack.Recovery
import KeyLayout.Proofs.Table

namespace KeyLayout

/-! A key map is read back from the bytes that it is written in. -/

open MessagePack (Written Read Reader FieldReader Undoes Fills read_andThen present_int present_text
  undoes_int undoes_bool undoes_text undoes_character undoes_option undoes_array undoes_map
  undoes_record undoes_field)

/-! What may be read back: numbers in the ranges that their readers ask for. -/

structure Behavior.Readable (behavior : Behavior) : Prop where
  mask : 0 ≤ behavior.mask
  fallback : ∀ code ∈ behavior.fallback, KeyCode.InRange code
  replacement : ∀ code ∈ behavior.replacement, KeyCode.InRange code

structure KeyMap.Readable (map : KeyMap) : Prop where
  keys : ∀ entry ∈ map.keys.entries,
    KeyCode.InRange entry.1 ∧ ∀ behavior ∈ entry.2.behaviors, behavior.Readable
  scanCodes : ∀ entry ∈ map.scanCodes.entries, 0 ≤ entry.1 ∧ KeyCode.InRange entry.2
  usageCodes : ∀ entry ∈ map.usageCodes.entries, 0 ≤ entry.1 ∧ KeyCode.InRange entry.2
  remapping : ∀ entry ∈ map.remapping.entries, KeyCode.InRange entry.1 ∧ KeyCode.InRange entry.2

/-! A value is refused only where it is out of these ranges. -/

variable {refused : Prop}

theorem KeyCode.undoes_write {code : KeyCode} (hcode : refused ∨ code.InRange) :
    Undoes refused KeyCode.reader.read code.write code :=
  undoes_int (hcode.imp_right decide_eq_true)

theorem undoes_naturalReader {value : Int} (hvalue : refused ∨ 0 ≤ value) :
    Undoes refused naturalReader.read (Written.int value) value :=
  undoes_int (hvalue.imp_right decide_eq_true)

theorem undoes_optionalCharacter (character : Option CodePoint) :
    Undoes refused (Reader.option Reader.character).read (Written.option CodePoint.write character)
      character :=
  undoes_option (fun point _ => present_text [point]) fun point _ => undoes_character point

theorem undoes_optionalCode {code : Option KeyCode}
    (hcode : refused ∨ ∀ own ∈ code, KeyCode.InRange own) :
    Undoes refused (Reader.option KeyCode.reader).read (Written.option KeyCode.write code) code :=
  undoes_option (fun own _ => present_int own) fun own hown =>
    KeyCode.undoes_write (hcode.imp_right fun hcode => hcode own hown)

/-- What is written under a name fills the field that is looked for under its bytes. -/
theorem FieldName.fills {α σ : Type} {reader : FieldReader σ} {state last : σ} {own : Reader α}
    {written : Written} {value : α} {rest : List (Text × Written)} (field : FieldName)
    (set : α → σ) (hname : Utf8.encode field.text = .ok field.bytes)
    (hreader : reader field.bytes state = FieldReader.field own set)
    (hvalue : Undoes refused own.read written value)
    (hrest : Fills refused reader (set value) rest last) :
    Fills refused reader state ((field.text, written) :: rest) last :=
  .cons hname (hreader ▸ undoes_field hvalue set) hrest

theorem Behavior.undoes_write {behavior : Behavior} (hreadable : refused ∨ behavior.Readable) :
    Undoes refused reader.read behavior.write behavior := by
  have hmask := hreadable.imp_right Readable.mask
  have hfallback := hreadable.imp_right Readable.fallback
  have hreplacement := hreadable.imp_right Readable.replacement
  obtain ⟨mask, character, fallback, replacement⟩ := behavior
  refine undoes_record ?_
  refine maskField.fills (fun mask => { mask := mask }) rfl rfl (undoes_naturalReader hmask) ?_
  refine characterField.fills (fun character => { mask := mask, character := character }) rfl rfl
    (undoes_optionalCharacter character) ?_
  refine fallbackField.fills (fun fallback => ⟨mask, character, fallback, none⟩) rfl rfl
    (undoes_optionalCode hfallback) ?_
  refine replacementField.fills (fun replacement => ⟨mask, character, fallback, replacement⟩) rfl rfl
    (undoes_optionalCode hreplacement) ?_
  exact .nil

theorem Key.undoes_write {key : Key}
    (hreadable : refused ∨ ∀ behavior ∈ key.behaviors, behavior.Readable) :
    Undoes refused reader.read key.write key := by
  obtain ⟨label, number, behaviors⟩ := key
  have hbehaviors := undoes_array fun behavior hmem =>
    Behavior.undoes_write (hreadable.imp_right fun hreadable => hreadable behavior hmem)
  refine undoes_record ?_
  refine labelField.fills (fun label => { label := label }) rfl rfl
    (undoes_optionalCharacter label) ?_
  refine numberField.fills (fun number => { label := label, number := number }) rfl rfl
    (undoes_optionalCharacter number) ?_
  refine behaviorsField.fills (fun behaviors => ⟨label, number, behaviors⟩) rfl rfl hbehaviors ?_
  exact .nil

theorem KeyboardType.reader_eq :
    reader = fun head => Read.andThen (Reader.int (fun code => (ofCode? code).isSome) head)
      fun code bytes => .ok ((ofCode? code).getD .unknown, bytes) :=
  rfl

theorem KeyboardType.undoes_write (type : KeyboardType) :
    Undoes refused reader.read type.write type := by
  have haccept : (ofCode? type.code).isSome = true := by
    cases type <;> rfl
  have htype : (ofCode? type.code).getD .unknown = type := by
    cases type <;> rfl
  rw [reader_eq, read_andThen]
  exact (undoes_int (.inr haccept)).followed
    (.ok fun rest => congrArg (fun type => Except.ok (type, rest)) htype)

/-- The entries of a table whose keys and values are as they are to be. -/
theorem Table.undoes_write {κ ν : Type} {table : Table κ ν} {key : Reader κ} {value : Reader ν}
    {writeKey : κ → Written} {writeValue : ν → Written} {holdsKey : κ → Prop} {holdsValue : ν → Prop}
    (htable : refused ∨ ∀ entry ∈ table.entries, holdsKey entry.1 ∧ holdsValue entry.2)
    (hkey : ∀ own, refused ∨ holdsKey own → Undoes refused key.read (writeKey own) own)
    (hvalue : ∀ own, refused ∨ holdsValue own → Undoes refused value.read (writeValue own) own) :
    Undoes refused (Reader.map key value).read (Written.map writeKey writeValue table.entries)
      table.entries :=
  undoes_map
    (fun entry hentry => hkey entry.1 (htable.imp_right fun hholds => (hholds entry hentry).1))
    fun entry hentry => hvalue entry.2 (htable.imp_right fun hholds => (hholds entry hentry).2)

variable {map : KeyMap}

namespace KeyMap

/-- The name is kept apart until all fields are read. -/
theorem undoes_fields (hreadable : refused ∨ map.Readable) :
    Undoes refused (Reader.record fieldReader {}).read map.write
      { name := some map.name, map := { map with name := [] } } := by
  have hcode : ∀ code : KeyCode, refused ∨ code.InRange →
      Undoes refused KeyCode.reader.read code.write code := fun _ => KeyCode.undoes_write
  have hnumber : ∀ value : Int, refused ∨ 0 ≤ value →
      Undoes refused naturalReader.read (Written.int value) value := fun _ => undoes_naturalReader
  have hkey : ∀ key : Key, refused ∨ (∀ behavior ∈ key.behaviors, behavior.Readable) →
      Undoes refused Key.reader.read key.write key := fun _ => Key.undoes_write
  have hkeys := hreadable.imp_right Readable.keys
  have hscan := hreadable.imp_right Readable.scanCodes
  have husage := hreadable.imp_right Readable.usageCodes
  have hremapping := hreadable.imp_right Readable.remapping
  obtain ⟨name, type, keys, scanCodes, usageCodes, remapping, overlaid⟩ := map
  refine undoes_record ?_
  refine nameField.fills (fun name => { name := some name }) rfl rfl (undoes_text name) ?_
  refine typeField.fills (fun type => ⟨some name, { name := [], type := type }⟩) rfl rfl
    (KeyboardType.undoes_write type) ?_
  refine keysField.fills
    (fun keys => ⟨some name, { name := [], type := type, keys := .ofList keys }⟩) rfl rfl
    (Table.undoes_write hkeys hcode hkey) ?_
  rw [Table.ofList_entries]
  refine scanCodesField.fills
    (fun codes => ⟨some name, ⟨[], type, keys, .ofList codes, .empty, .empty, false⟩⟩) rfl rfl
    (Table.undoes_write hscan hnumber hcode) ?_
  rw [Table.ofList_entries]
  refine usageCodesField.fills
    (fun codes => ⟨some name, ⟨[], type, keys, scanCodes, .ofList codes, .empty, false⟩⟩) rfl rfl
    (Table.undoes_write husage hnumber hcode) ?_
  rw [Table.ofList_entries]
  refine remappingField.fills
    (fun codes => ⟨some name, ⟨[], type, keys, scanCodes, usageCodes, .ofList codes, false⟩⟩) rfl rfl
    (Table.undoes_write hremapping hcode hcode) ?_
  rw [Table.ofList_entries]
  refine overlaidField.fills
    (fun overlaid =>
      ⟨some name, ⟨[], type, keys, scanCodes, usageCodes, remapping, overlaid⟩⟩) rfl rfl
    (undoes_bool overlaid) ?_
  exact .nil

theorem reader_eq :
    reader = fun head => Read.andThen (Reader.record fieldReader {} head) fun found bytes =>
      match found.name with
      | some name => .ok ({ found.map with name := name }, bytes)
      | none => .error .invalid :=
  rfl

theorem undoes_write (hreadable : refused ∨ map.Readable) :
    Undoes refused reader.read map.write map := by
  rw [reader_eq, read_andThen]
  exact (undoes_fields hreadable).followed (.ok fun _ => rfl)

theorem ofBytes_of_toBytes {bytes : List UInt8} (hreadable : map.Readable)
    (hbytes : map.toBytes = .ok bytes) : ofBytes bytes = .ok map := by
  have hread := (undoes_write (.inr hreadable)).read_eq hbytes []
  rw [List.append_nil] at hread
  exact bind_eq_ok_iff.mpr ⟨(map, []), hread, rfl⟩

end KeyMap

/-! What can be written: numbers of eight bytes at most, texts without lone surrogates, and
lengths of four bytes at most. -/

def CodePoint.Storable (point : CodePoint) : Prop :=
  point.isSurrogate = false

instance (point : CodePoint) : Decidable point.Storable :=
  inferInstanceAs (Decidable (_ = _))

/-- A mask or device code of eight bytes at most. -/
def StorableNumber (value : Int) : Prop :=
  0 ≤ value ∧ value < 2 ^ 64

instance (value : Int) : Decidable (StorableNumber value) :=
  inferInstanceAs (Decidable (_ ∧ _))

structure Text.Storable (text : Text) : Prop where
  points : ∀ point ∈ text, point.Storable
  length : ∀ bytes, Utf8.encode text = .ok bytes → bytes.length < 2 ^ 32

structure Behavior.Storable (behavior : Behavior) : Prop where
  mask : StorableNumber behavior.mask
  character : ∀ point ∈ behavior.character, point.Storable
  fallback : ∀ code ∈ behavior.fallback, KeyCode.InRange code
  replacement : ∀ code ∈ behavior.replacement, KeyCode.InRange code

instance (behavior : Behavior) : Decidable behavior.Storable :=
  decidable_of_iff
    (StorableNumber behavior.mask ∧ (∀ point ∈ behavior.character, point.Storable) ∧
      (∀ code ∈ behavior.fallback, KeyCode.InRange code) ∧
      ∀ code ∈ behavior.replacement, KeyCode.InRange code)
    ⟨fun ⟨hmask, hcharacter, hfallback, hreplacement⟩ =>
      ⟨hmask, hcharacter, hfallback, hreplacement⟩,
      fun ⟨hmask, hcharacter, hfallback, hreplacement⟩ =>
      ⟨hmask, hcharacter, hfallback, hreplacement⟩⟩

structure Key.Storable (key : Key) : Prop where
  label : ∀ point ∈ key.label, point.Storable
  number : ∀ point ∈ key.number, point.Storable
  length : key.behaviors.length < 2 ^ 32
  behaviors : ∀ behavior ∈ key.behaviors, behavior.Storable

instance (key : Key) : Decidable key.Storable :=
  decidable_of_iff
    ((∀ point ∈ key.label, point.Storable) ∧ (∀ point ∈ key.number, point.Storable) ∧
      key.behaviors.length < 2 ^ 32 ∧ ∀ behavior ∈ key.behaviors, behavior.Storable)
    ⟨fun ⟨hlabel, hnumber, hlength, hbehaviors⟩ => ⟨hlabel, hnumber, hlength, hbehaviors⟩,
      fun ⟨hlabel, hnumber, hlength, hbehaviors⟩ => ⟨hlabel, hnumber, hlength, hbehaviors⟩⟩

/-- A table of so few entries that their number can be written, and what its keys and its
values are to be. -/
structure Table.Storable {κ ν : Type} (table : Table κ ν) (key : κ → Prop) (value : ν → Prop) :
    Prop where
  size : table.size < 2 ^ 32
  keys : ∀ entry ∈ table.entries, key entry.1
  values : ∀ entry ∈ table.entries, value entry.2

structure KeyMap.Storable (map : KeyMap) : Prop where
  name : map.name.Storable
  keys : map.keys.Storable KeyCode.InRange Key.Storable
  scanCodes : map.scanCodes.Storable StorableNumber KeyCode.InRange
  usageCodes : map.usageCodes.Storable StorableNumber KeyCode.InRange
  remapping : map.remapping.Storable KeyCode.InRange KeyCode.InRange

theorem CodePoint.Storable.text {point : CodePoint} (hpoint : point.Storable) :
    Text.Storable [point] where
  points := List.forall_mem_singleton.mpr hpoint
  length bytes hbytes := by
    have hlength := Utf8.length_encode_le hbytes
    rw [List.length_singleton] at hlength
    omega

/-! What is storable is written. -/

theorem Text.Storable.succeeds {text : Text} (htext : text.Storable) :
    (Written.text text).Succeeds :=
  .text htext.points htext.length

theorem CodePoint.Storable.succeeds {point : CodePoint} (hpoint : point.Storable) :
    point.write.Succeeds :=
  hpoint.text.succeeds

theorem StorableNumber.succeeds {value : Int} (hvalue : StorableNumber value) :
    (Written.int value).Succeeds :=
  .int hvalue.1 hvalue.2

theorem KeyCode.InRange.storableNumber {code : KeyCode} (hcode : code.InRange) :
    StorableNumber code :=
  ⟨hcode.1, Int.lt_trans hcode.2 (by decide)⟩

theorem KeyCode.InRange.succeeds {code : KeyCode} (hcode : code.InRange) :
    (KeyCode.write code).Succeeds :=
  hcode.storableNumber.succeeds

theorem Behavior.Storable.succeeds {behavior : Behavior} (hbehavior : behavior.Storable) :
    behavior.write.Succeeds := by
  refine .record (by simp) ?_ ?_
  · simp only [List.forall_mem_cons]
    exact ⟨⟨_, rfl⟩, ⟨_, rfl⟩, ⟨_, rfl⟩, ⟨_, rfl⟩, by simp⟩
  · simp only [List.forall_mem_cons]
    exact ⟨hbehavior.mask.succeeds,
      .option fun point hpoint => (hbehavior.character point hpoint).succeeds,
      .option fun code hcode => (hbehavior.fallback code hcode).succeeds,
      .option fun code hcode => (hbehavior.replacement code hcode).succeeds, by simp⟩

theorem Key.Storable.succeeds {key : Key} (hkey : key.Storable) : key.write.Succeeds := by
  refine .record (by simp) ?_ ?_
  · simp only [List.forall_mem_cons]
    exact ⟨⟨_, rfl⟩, ⟨_, rfl⟩, ⟨_, rfl⟩, by simp⟩
  · simp only [List.forall_mem_cons]
    exact ⟨.option fun point hpoint => (hkey.label point hpoint).succeeds,
      .option fun point hpoint => (hkey.number point hpoint).succeeds,
      .array hkey.length fun behavior hmem => (hkey.behaviors behavior hmem).succeeds, by simp⟩

theorem KeyboardType.succeeds (type : KeyboardType) : type.write.Succeeds := by
  cases type <;> exact ⟨_, rfl⟩

theorem Table.Storable.succeeds {κ ν : Type} {table : Table κ ν} {key : κ → Prop}
    {value : ν → Prop} {writeKey : κ → Written} {writeValue : ν → Written}
    (htable : table.Storable key value) (hkey : ∀ own, key own → (writeKey own).Succeeds)
    (hvalue : ∀ own, value own → (writeValue own).Succeeds) :
    (Written.map writeKey writeValue table.entries).Succeeds :=
  .map htable.size (fun entry hentry => hkey _ (htable.keys entry hentry))
    fun entry hentry => hvalue _ (htable.values entry hentry)

namespace KeyMap

theorem Storable.succeeds (hmap : map.Storable) : map.toBytes.Succeeds := by
  have hcode : ∀ code : KeyCode, code.InRange → (KeyCode.write code).Succeeds :=
    fun _ hcode => hcode.succeeds
  have hnumber : ∀ value : Int, StorableNumber value → (Written.int value).Succeeds :=
    fun _ hvalue => hvalue.succeeds
  refine .record (by simp) ?_ ?_
  · simp only [List.forall_mem_cons]
    exact ⟨⟨_, rfl⟩, ⟨_, rfl⟩, ⟨_, rfl⟩, ⟨_, rfl⟩, ⟨_, rfl⟩, ⟨_, rfl⟩, ⟨_, rfl⟩, by simp⟩
  · simp only [List.forall_mem_cons]
    exact ⟨hmap.name.succeeds, map.type.succeeds,
      hmap.keys.succeeds hcode fun _ hkey => hkey.succeeds,
      hmap.scanCodes.succeeds hnumber hcode, hmap.usageCodes.succeeds hnumber hcode,
      hmap.remapping.succeeds hcode hcode, ⟨_, rfl⟩, by simp⟩

theorem Storable.readable (hmap : map.Storable) : map.Readable where
  keys entry hentry :=
    ⟨hmap.keys.keys entry hentry, fun behavior hmem =>
      have hbehavior := (hmap.keys.values entry hentry).behaviors behavior hmem
      ⟨hbehavior.mask.1, hbehavior.fallback, hbehavior.replacement⟩⟩
  scanCodes entry hentry :=
    ⟨(hmap.scanCodes.keys entry hentry).1, hmap.scanCodes.values entry hentry⟩
  usageCodes entry hentry :=
    ⟨(hmap.usageCodes.keys entry hentry).1, hmap.usageCodes.values entry hentry⟩
  remapping entry hentry :=
    ⟨hmap.remapping.keys entry hentry, hmap.remapping.values entry hentry⟩

/-- What can be written is read back as the same map, which is written in the same bytes. -/
theorem ofBytes_toBytes (hmap : map.Storable) :
    ∃ bytes decoded, map.toBytes = .ok bytes ∧ ofBytes bytes = .ok decoded ∧ decoded = map ∧
      decoded.toBytes = .ok bytes := by
  obtain ⟨bytes, hbytes⟩ := hmap.succeeds
  exact ⟨bytes, map, hbytes, ofBytes_of_toBytes hmap.readable hbytes, rfl, hbytes⟩

/-- Numbers at the ends of their ranges and characters of two, three and four bytes. -/
def extremes : KeyMap where
  name := [.scalar 'd', .scalar 'é', .scalar '字']
  type := .overlay
  keys := ⟨[(8191, { label := some (.scalar 'É'), behaviors := [
      { mask := 2 ^ 64 - 1, character := some (.scalar '𝄞') }, { mask := 128, fallback := some 0 },
      { replacement := some 8191 }] }), (0, { number := some (.scalar '€') })], by decide⟩
  scanCodes := ⟨[(2 ^ 64 - 1, 0), (2 ^ 32, 8191), (0, 128)], by decide⟩
  usageCodes := ⟨[(2 ^ 16, 256)], by decide⟩
  remapping := ⟨[(256, 255)], by decide⟩
  overlaid := true

theorem storable_extremes : extremes.Storable where
  name := ⟨by decide, fun bytes hbytes => by cases hbytes; decide⟩
  keys := ⟨by decide, by decide, by decide⟩
  scanCodes := ⟨by decide, by decide, by decide⟩
  usageCodes := ⟨by decide, by decide, by decide⟩
  remapping := ⟨by decide, by decide, by decide⟩

theorem ofBytes_toBytes_extremes :
    extremes.Storable ∧ ∃ bytes decoded, extremes.toBytes = .ok bytes ∧
      ofBytes bytes = .ok decoded ∧ decoded = extremes ∧ decoded.toBytes = .ok bytes :=
  ⟨storable_extremes, ofBytes_toBytes storable_extremes⟩

end KeyMap

end KeyLayout
