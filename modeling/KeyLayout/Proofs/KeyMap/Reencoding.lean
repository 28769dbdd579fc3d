import KeyLayout.Proofs.KeyMap.Bytes
import KeyLayout.Proofs.MessagePack.Acceptance
import KeyLayout.Proofs.MessagePack.Truncation

namespace KeyLayout

/-! Whatever bytes a key map is read from, it can be written, and is then read back as it is. -/

open MessagePack (Read Reader FieldReader readHead skip skip_succ text_append)

theorem Text.Storable.of_encode {text : Text} {encoded : List UInt8}
    (hencode : Utf8.encode text = .ok encoded) (hlength : encoded.length < 2 ^ 32) :
    text.Storable where
  points := Utf8.isSurrogate_of_encode hencode
  length bytes hbytes := by
    cases hencode.symm.trans hbytes
    exact hlength

theorem KeyCode.yields_reader : KeyCode.reader.Yields KeyCode.InRange := by
  intro head hbounded
  exact (Reader.Yields.int _ head hbounded).mono fun _ hcode => of_decide_eq_true hcode.1

theorem yields_naturalReader : naturalReader.Yields StorableNumber := by
  intro head hbounded
  exact (Reader.Yields.int _ head hbounded).mono fun _ hvalue =>
    ⟨of_decide_eq_true hvalue.1, hvalue.2⟩

theorem Behavior.keeps_fieldReader : fieldReader.Keeps Storable := by
  intro name behavior hbehavior
  unfold fieldReader
  split
  next => exact .field yields_naturalReader fun _ hmask => { hbehavior with mask := hmask }
  split
  next => exact .field Reader.Yields.character.option fun _ hpoint =>
    { hbehavior with character := hpoint }
  split
  next => exact .field KeyCode.yields_reader.option fun _ hcode =>
    { hbehavior with fallback := hcode }
  split
  next => exact .field KeyCode.yields_reader.option fun _ hcode =>
    { hbehavior with replacement := hcode }
  next => exact .skip hbehavior

theorem Behavior.yields_reader : reader.Yields Storable :=
  keeps_fieldReader.record (by decide)

theorem Key.keeps_fieldReader : fieldReader.Keeps Storable := by
  intro name key hkey
  unfold fieldReader
  split
  next => exact .field Reader.Yields.character.option fun _ hpoint =>
    { hkey with label := hpoint }
  split
  next => exact .field Reader.Yields.character.option fun _ hpoint =>
    { hkey with number := hpoint }
  split
  next => exact .field Behavior.yields_reader.array fun _ hbehaviors =>
    { hkey with length := hbehaviors.1, behaviors := hbehaviors.2 }
  next => exact .skip hkey

theorem Key.yields_reader : reader.Yields Storable :=
  keeps_fieldReader.record (by decide)

/-- Of the entries with one key the last counts, so that there are no more of them. -/
theorem Table.storable_ofList {κ ν : Type} [DecidableEq κ] {entries : List (κ × ν)} {key : κ → Prop}
    {value : ν → Prop}
    (hentries : entries.length < 2 ^ 32 ∧ ∀ entry ∈ entries, key entry.1 ∧ value entry.2) :
    (ofList entries).Storable key value where
  size := Nat.lt_of_le_of_lt (size_ofList_le entries) hentries.1
  keys entry hentry := (forall_ofList hentries.2 entry hentry).1
  values entry hentry := (forall_ofList hentries.2 entry hentry).2

theorem Table.storable_empty {κ ν : Type} [DecidableEq κ] {key : κ → Prop} {value : ν → Prop} :
    (empty : Table κ ν).Storable key value where
  size := Nat.two_pow_pos 32
  keys _ hmem := nomatch hmem
  values _ hmem := nomatch hmem

namespace KeyMap

/-- The fields that are read so far can be written. -/
structure Fields.Storable (found : Fields) : Prop where
  name : ∀ name ∈ found.name, name.Storable
  map : found.map.Storable

theorem Fields.storable_default : Fields.Storable {} where
  name _ hmem := nomatch hmem
  map := {
    name := .of_encode rfl (by decide)
    keys := Table.storable_empty
    scanCodes := Table.storable_empty
    usageCodes := Table.storable_empty
    remapping := Table.storable_empty }

theorem keeps_fieldReader : fieldReader.Keeps Fields.Storable := by
  intro name found ⟨hname, hmap⟩
  unfold fieldReader
  split
  next =>
    refine .field Reader.Yields.text fun _ ⟨_, hencode, hlength⟩ => ⟨?_, hmap⟩
    exact fun _ hmem => Option.mem_some.mp hmem ▸ .of_encode hencode hlength
  split
  next => exact .field Reader.Yields.any fun _ _ => ⟨hname, { hmap with }⟩
  split
  next => exact .field (KeyCode.yields_reader.map Key.yields_reader) fun _ hkeys =>
    ⟨hname, { hmap with keys := Table.storable_ofList hkeys }⟩
  split
  next => exact .field (yields_naturalReader.map KeyCode.yields_reader) fun _ hcodes =>
    ⟨hname, { hmap with scanCodes := Table.storable_ofList hcodes }⟩
  split
  next => exact .field (yields_naturalReader.map KeyCode.yields_reader) fun _ hcodes =>
    ⟨hname, { hmap with usageCodes := Table.storable_ofList hcodes }⟩
  split
  next => exact .field (KeyCode.yields_reader.map KeyCode.yields_reader) fun _ hcodes =>
    ⟨hname, { hmap with remapping := Table.storable_ofList hcodes }⟩
  split
  next => exact .field Reader.Yields.any fun _ _ => ⟨hname, { hmap with }⟩
  next => exact .skip ⟨hname, hmap⟩

theorem yields_reader : reader.Yields Storable := by
  intro head hbounded bytes map rest hread
  obtain ⟨⟨found, left⟩, hfound, hname⟩ := bind_eq_ok_iff.mp hread
  obtain ⟨hnames, hmap⟩ :=
    keeps_fieldReader.record Fields.storable_default head hbounded bytes found left hfound
  dsimp only at hname
  split at hname
  next name hsome =>
    cases hname
    exact { hmap with name := hnames name hsome }
  next => contradiction

theorem storable_of_ofBytes {bytes : List UInt8} {map : KeyMap} (hread : ofBytes bytes = .ok map) :
    map.Storable := by
  obtain ⟨⟨own, rest⟩, hown, hwhole⟩ := bind_eq_ok_iff.mp hread
  dsimp only at hwhole
  split at hwhole
  next =>
    cases hwhole
    exact yields_reader.read bytes map rest hown
  next => contradiction

/-- What is read is in range and can be written, and what is written is read as the same map. -/
theorem ofBytes_reencoded {bytes : List UInt8} {map : KeyMap} (hread : ofBytes bytes = .ok map) :
    map.Storable ∧ ∃ again, map.toBytes = .ok again ∧ ofBytes again = .ok map := by
  have hmap := storable_of_ofBytes hread
  obtain ⟨again, hagain⟩ := hmap.succeeds
  exact ⟨hmap, again, hagain, ofBytes_of_toBytes hmap.readable hagain⟩

/-- An unknown field, a table with a key twice, a field twice, and longer forms than needed. -/
def untidyBytes : List UInt8 :=
  [0xDE, 0, 4] ++
  ([0xA1, 0x3F] ++ [0x91, 0xC0] ++
  ([0xA4] ++ keysField.bytes ++ ([0xDF, 0, 0, 0, 2, 0x1D, 0x80, 0xCD, 0, 0x1D, 0x81, 0xA9] ++
    Key.behaviorsField.bytes ++ [0xDC, 0, 1, 0x81, 0xAA] ++ Behavior.maskField.bytes ++
    [0xCC, 1]) ++
  ([0xD9, 14] ++ nameField.bytes ++ [0xA1, 0x61] ++
  ([0xAE] ++ nameField.bytes ++ [0xD9, 1, 0x62]))))

/-- What these bytes are read as. -/
def tidied : KeyMap where
  name := [.scalar 'b']
  keys := .ofList [(29, {}), (29, { behaviors := [{ mask := 1 }] })]

theorem ofBytes_untidyBytes : ofBytes untidyBytes = .ok tidied := by
  have hskip (rest : List UInt8) : skip [1] (0x91 :: 0xC0 :: rest) = .ok rest := by
    have hlist : readHead (0x91 :: 0xC0 :: rest) = .ok (.array 1, 0xC0 :: rest) := rfl
    have hnil : readHead (0xC0 :: rest) = .ok (.nil, rest) := rfl
    rw [skip_succ, hlist]
    change skip [1, 0] (0xC0 :: rest) = .ok rest
    rw [skip_succ, hnil]
    change skip [0, 0] rest = .ok rest
    rw [skip, skip, skip]
  have hkeys (rest : List UInt8) : (Reader.map KeyCode.reader Key.reader).read
      ([0xDF, 0, 0, 0, 2, 0x1D, 0x80, 0xCD, 0, 0x1D, 0x81, 0xA9] ++ Key.behaviorsField.bytes ++
        [0xDC, 0, 1, 0x81, 0xAA] ++ Behavior.maskField.bytes ++ [0xCC, 1] ++ rest) =
      .ok ([(29, {}), (29, { behaviors := [{ mask := 1 }] })], rest) := rfl
  have ha : Utf8.encode [.scalar 'a'] = .ok [0x61] := rfl
  have hb : Utf8.encode [.scalar 'b'] = .ok [0x62] := rfl
  have hfirst (rest : List UInt8) : Reader.text.read (0xA1 :: 0x61 :: rest) =
      .ok ([.scalar 'a'], rest) :=
    bind_eq_ok_iff.mpr ⟨(.text 1, _), rfl, text_append ha rest⟩
  have hlast : Reader.text.read [0xD9, 1, 0x62] = .ok ([.scalar 'b'], []) :=
    bind_eq_ok_iff.mpr ⟨(.text 1, _), rfl, text_append hb []⟩
  refine bind_eq_ok_iff.mpr ⟨(tidied, []), ?_, rfl⟩
  refine bind_eq_ok_iff.mpr ⟨(.map 4, _), rfl, ?_⟩
  refine bind_eq_ok_iff.mpr ⟨(⟨some tidied.name, { tidied with name := [] }⟩, []), ?_, rfl⟩
  refine bind_eq_ok_iff.mpr ⟨([0x3F], _), rfl, bind_eq_ok_iff.mpr ⟨({}, _),
    bind_eq_ok_iff.mpr ⟨_, hskip _, rfl⟩, ?_⟩⟩
  refine bind_eq_ok_iff.mpr ⟨(keysField.bytes, _), rfl, bind_eq_ok_iff.mpr ⟨(_, _),
    bind_eq_ok_iff.mpr ⟨_, hkeys _, rfl⟩, ?_⟩⟩
  refine bind_eq_ok_iff.mpr ⟨(nameField.bytes, _), rfl, bind_eq_ok_iff.mpr ⟨(_, _),
    bind_eq_ok_iff.mpr ⟨_, hfirst _, rfl⟩, ?_⟩⟩
  exact bind_eq_ok_iff.mpr ⟨(nameField.bytes, _), rfl, bind_eq_ok_iff.mpr ⟨(_, _),
    bind_eq_ok_iff.mpr ⟨_, hlast, rfl⟩, rfl⟩⟩

theorem ofBytes_reencoded_untidyBytes :
    ofBytes untidyBytes = .ok tidied ∧ tidied.Storable ∧
      ∃ again, tidied.toBytes = .ok again ∧ ofBytes again = .ok tidied :=
  ⟨ofBytes_untidyBytes, ofBytes_reencoded ofBytes_untidyBytes⟩

end KeyMap

end KeyLayout
