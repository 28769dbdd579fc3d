import KeyLayout.Proofs.Files.Path
import KeyLayout.Proofs.Json.Ascii
import KeyLayout.Proofs.Json.Contents
import KeyLayout.Proofs.KeyCode
import KeyLayout.Proofs.Loading
import KeyLayout.Proofs.Modifier.Wording
import KeyLayout.Proofs.Numeral
import KeyLayout.Proofs.Table

namespace KeyLayout

/-! What settings are like once they have been read, whatever the document was like. -/

theorem Text.Plain.unpaired {text : Text} (hplain : text.Plain) : Json.Unpaired text :=
  Json.unpaired_of_scalars hplain

theorem Path.unpaired_toText_ofText {text : Text} (htext : Json.Unpaired text) :
    Json.Unpaired (Path.ofText text).toText := by
  rw [← Text.joinWith_splitOn separator text] at htext
  have hparts : ∀ part ∈ (ofText text).parts, Json.Unpaired part := fun part hpart =>
    Json.unpaired_joinWith_iff.mp htext part (List.mem_of_mem_filter hpart)
  have hjoined : Json.Unpaired (Text.joinWith [separator] (ofText text).parts) :=
    Json.unpaired_joinWith_iff.mpr hparts
  rw [toText]
  split
  next =>
    split
    next => exact (Text.plain_ofString ".").unpaired
    next => exact hjoined
  next => exact hjoined.cons_scalar '/'
  next => exact (hjoined.cons_scalar '/').cons_scalar '/'

namespace Json

variable {json : Json} {value : Int}

theorem Sound.unpaired_toText (hsound : Sound json) : Unpaired json.toText := by
  cases hsound with
  | text hcontent => exact hcontent
  | null => exact (plain_display .null).unpaired
  | bool => exact (plain_display (.bool _)).unpaired
  | int => exact (plain_display (.int _)).unpaired
  | float => exact (plain_display (.float _)).unpaired
  | array => exact (plain_display (.array _)).unpaired
  | object => exact (plain_display (.object _)).unpaired

theorem Sound.of_mem_items? (hsound : Sound json) {items : List Json}
    (hitems : json.items? = some items) : ∀ item ∈ items, Sound item := by
  cases hsound with
  | array hall =>
      cases hitems
      exact hall
  | @text content =>
      cases hitems
      intro item hitem
      obtain ⟨point, -, rfl⟩ := List.mem_map.mp hitem
      exact .text (List.isChain_singleton point)
  | object hnames =>
      cases hitems
      intro item hitem
      obtain ⟨member, hmember, rfl⟩ := List.mem_map.mp hitem
      exact .text (hnames member hmember)
  | null => exact nomatch hitems
  | bool => exact nomatch hitems
  | int => exact nomatch hitems
  | float => exact nomatch hitems

theorem Sound.natAbs_integer_lt (hsound : Sound json) (hinteger : json.integer? = some value) :
    value.natAbs < 10 ^ Numeral.decimalLimit := by
  cases hsound with
  | int hvalue =>
      cases hinteger
      exact hvalue
  | float hvalue => exact hvalue value hinteger
  | @bool truth =>
      cases hinteger
      have hone := Numeral.one_lt_pow_decimalLimit
      generalize 10 ^ Numeral.decimalLimit = bound at hone ⊢
      split
      next => exact hone
      next => exact Nat.zero_lt_of_lt hone
  | text => exact Numeral.natAbs_lt_of_decimalInteger? hinteger
  | null => contradiction
  | array => contradiction
  | object => contradiction

end Json

namespace Settings

variable {settings : Settings} {members : List (Text × Json)} {text : Text}

/-- The code has a label of its own. -/
def Labelled (code : KeyCode) : Prop :=
  KeyCode.ofLabel? code.label = some code

theorem Labelled.plain_label {code : KeyCode} (hcode : Labelled code) : code.label.Plain :=
  KeyCode.plain_of_ofLabel? hcode

/-- Every field is the same once it has been written and read again. -/
structure Restorable (settings : Settings) : Prop where
  paths : ∀ path ∈ settings.keymapPaths,
    (∀ part ∈ path.parts, Path.Leads part) ∧ Json.Unpaired path.toText
  base : Json.Unpaired settings.baseLayout
  overlays : ∀ name ∈ settings.overlayLayouts, Json.Unpaired name
  remapping : ∀ entry ∈ settings.remapping.entries, Labelled entry.1 ∧ Labelled entry.2
  device : settings.deviceId.natAbs < 10 ^ Numeral.decimalLimit
  state : Json.Unpaired settings.metaState

theorem exists_of_path? {json : Json} {path : Path} (hpath : json.path? = some path) :
    ∃ content, json = .text content ∧ path = .ofText content := by
  cases json with
  | text content =>
      cases hpath
      exact ⟨content, rfl, rfl⟩
  | null => contradiction
  | bool => contradiction
  | int => contradiction
  | float => contradiction
  | array => contradiction
  | object => contradiction

theorem labelled_of_ofLabel? {label : Text} {code : KeyCode}
    (hlabel : KeyCode.ofLabel? label = some code) : Labelled code := by
  rw [Labelled, KeyCode.label_of_ofLabel? hlabel, hlabel]

theorem labelled_of_keyCode? {json : Json} {code : KeyCode} (hcode : json.keyCode? = some code) :
    Labelled code := by
  cases json with
  | text label => exact labelled_of_ofLabel? hcode
  | null => contradiction
  | bool => contradiction
  | int => contradiction
  | float => contradiction
  | array => contradiction
  | object => contradiction

theorem labelled_of_keyCodes? {json : Json} {table : Table KeyCode KeyCode}
    (htable : json.keyCodes? = some table) :
    ∀ entry ∈ table.entries, Labelled entry.1 ∧ Labelled entry.2 := by
  cases json with
  | object members =>
      obtain ⟨entries, hentries, heq⟩ := Option.bind_eq_some_iff.mp htable
      cases heq
      refine Table.forall_ofList fun entry hentry => ?_
      obtain ⟨member, -, hmember⟩ := exists_of_mem_mapM hentries hentry
      obtain ⟨code, hcode, hpair⟩ := Option.bind_eq_some_iff.mp hmember
      obtain ⟨target, htarget, heq⟩ := Option.bind_eq_some_iff.mp hpair
      cases heq
      exact ⟨labelled_of_ofLabel? hcode, labelled_of_keyCode? htarget⟩
  | null => contradiction
  | bool => contradiction
  | int => contradiction
  | float => contradiction
  | text => contradiction
  | array => contradiction

theorem of_optionalField {α : Type} (holds : α → Prop) {name : Text}
    {convert : Json → Option α} {default result : α}
    (hfield : optionalField members name convert default = some result) (hdefault : holds default)
    (hconvert : ∀ value, members.lookup name = some value → ∀ result,
      convert value = some result → holds result) : holds result := by
  rw [optionalField] at hfield
  split at hfield
  next value hvalue => exact hconvert value hvalue result hfield
  next =>
    cases hfield
    exact hdefault

theorem restorable_of_ofMembers? (hread : ofMembers? members = some settings)
    (hsound : ∀ name value, members.lookup name = some value → value.Sound) :
    settings.Restorable := by
  obtain ⟨listed, hlisted, hread⟩ := Option.bind_eq_some_iff.mp hread
  obtain ⟨items, hitems, hread⟩ := Option.bind_eq_some_iff.mp hread
  obtain ⟨paths, hpaths, hread⟩ := Option.bind_eq_some_iff.mp hread
  obtain ⟨base, hbase, hread⟩ := Option.bind_eq_some_iff.mp hread
  obtain ⟨overlays, hoverlays, hread⟩ := Option.bind_eq_some_iff.mp hread
  obtain ⟨remapping, hremapping, hread⟩ := Option.bind_eq_some_iff.mp hread
  obtain ⟨device, hdevice, hread⟩ := Option.bind_eq_some_iff.mp hread
  obtain ⟨state, hstate, hread⟩ := Option.bind_eq_some_iff.mp hread
  cases hread
  have hitemsSound := (hsound _ _ hlisted).of_mem_items? hitems
  constructor
  · intro path hpath
    obtain ⟨item, hitem, hconvert⟩ := exists_of_mem_mapM hpaths hpath
    obtain ⟨content, rfl, rfl⟩ := exists_of_path? hconvert
    have hcontent : Json.Unpaired content := (hitemsSound _ hitem).unpaired_toText
    exact ⟨fun part hpart => Path.leads_of_mem_ofText hpart, Path.unpaired_toText_ofText hcontent⟩
  · exact (hsound _ _ hbase).unpaired_toText
  · refine of_optionalField (∀ name ∈ ·, Json.Unpaired name) hoverlays (List.forall_mem_nil _)
      fun value hvalue result hresult => ?_
    obtain ⟨names, hnames, rfl⟩ := Option.map_eq_some_iff.mp hresult
    intro name hname
    obtain ⟨item, hitem, rfl⟩ := List.mem_map.mp hname
    exact ((hsound _ _ hvalue).of_mem_items? hnames item hitem).unpaired_toText
  · exact of_optionalField (fun remapping => ∀ entry ∈ remapping.entries, Labelled entry.1 ∧
      Labelled entry.2) hremapping (List.forall_mem_nil _)
      fun value _ result hresult => labelled_of_keyCodes? hresult
  · refine of_optionalField (fun device : Int => device.natAbs < 10 ^ Numeral.decimalLimit) hdevice
      ?_ fun value hvalue result hresult => (hsound _ _ hvalue).natAbs_integer_lt hresult
    exact Nat.zero_lt_of_lt Numeral.one_lt_pow_decimalLimit
  · refine of_optionalField Json.Unpaired hstate (Text.plain_ofString "base").unpaired
      fun value hvalue result hresult => ?_
    cases hresult
    exact (hsound _ _ hvalue).unpaired_toText

theorem Restorable.withInitialState (hrestorable : settings.Restorable) (state : MetaState) :
    (settings.withInitialState state).Restorable :=
  { hrestorable with state := (MetaState.plain_format state).unpaired }

theorem restorable_of_ofText (hread : ofText text = .ok settings) (hplain : text.Plain) :
    settings.Restorable := by
  rw [ofText] at hread
  split at hread
  next => contradiction
  next members hjson =>
    split at hread
    next own hown =>
      cases hread
      have hsound := Json.sound_of_ofText hjson hplain
      refine restorable_of_ofMembers? hown fun name value hvalue => ?_
      cases hsound with
      | object hnames hmembers =>
          obtain ⟨before, after, heq, -⟩ := List.lookup_eq_some_iff.mp hvalue
          exact hmembers (name, value)
            (heq ▸ List.mem_append_right before (List.mem_cons_self ..))
    next => contradiction
  next => contradiction

theorem restorable_of_load {files : Files Id} {source : Path}
    (hload : (load files source).report.outcome = .ok settings) : settings.Restorable := by
  obtain ⟨text, htext, hread⟩ := load_eq_ok_iff.mp hload
  obtain ⟨bytes, -, hfile⟩ := PathStatus.readText_eq_ok_iff.mp htext
  exact restorable_of_ofText hread (Text.plain_of_ofFile hfile)

end Settings

end KeyLayout
