import KeyLayout.Proofs.Files.Writing
import KeyLayout.Proofs.Settings.Acceptance

namespace KeyLayout.Settings

/-! Settings that were read are the same when they are saved and read again. -/

variable {settings : Settings} {tree saved : FileTree} {source path : Path}

theorem nodup_labels {entries : List (KeyCode × KeyCode)}
    (hentries : ∀ entry ∈ entries, Labelled entry.1 ∧ Labelled entry.2)
    (hnodup : (entries.map Prod.fst).Nodup) :
    (entries.map fun entry => entry.1.label).Nodup := by
  rw [List.Nodup, List.pairwise_map] at hnodup ⊢
  refine hnodup.imp_of_mem fun {first second} hfirst hsecond hne heq => hne ?_
  have hsame := (hentries first hfirst).1
  rw [Labelled, heq, (hentries second hsecond).1] at hsame
  exact (Option.some.inj hsame).symm

/-- What the remapping is written as. -/
def remappingMembers (settings : Settings) : List (Text × Json) :=
  settings.remapping.entries.map fun (source, target) => (source.label, .text target.label)

theorem Restorable.lasting_remapping (hrestorable : settings.Restorable) (room : Nat) :
    Json.Lasting (room + 1) (.object settings.remappingMembers) := by
  have hmember (member : Text × Json) (hmember : member ∈ settings.remappingMembers) :
      Json.Unpaired member.1 ∧ Json.Lasting room member.2 := by
    obtain ⟨entry, hentry, rfl⟩ := List.mem_map.mp hmember
    obtain ⟨hsource, htarget⟩ := hrestorable.remapping entry hentry
    exact ⟨hsource.plain_label.unpaired, .text htarget.plain_label.unpaired⟩
  refine .object ?_ (fun member hmem => (hmember member hmem).1)
    fun member hmem => (hmember member hmem).2
  rw [remappingMembers, List.map_map]
  exact nodup_labels hrestorable.remapping settings.remapping.nodup

theorem lasting_texts {texts : List Text} (htexts : ∀ text ∈ texts, Json.Unpaired text)
    (room : Nat) : Json.Lasting (room + 1) (.array (texts.map .text)) := by
  refine .array fun item hitem => ?_
  obtain ⟨text, htext, rfl⟩ := List.mem_map.mp hitem
  exact .text (htexts text htext)

/-- The members of the document that the settings are written to. -/
def writtenMembers (settings : Settings) : List (Text × Json) := [
  (keymapPathsField, .array (settings.keymapPaths.map fun path => .text path.toText)),
  (baseLayoutField, .text settings.baseLayout),
  (overlayLayoutsField, .array (settings.overlayLayouts.map .text)),
  (remappingField, .object settings.remappingMembers),
  (deviceIdField, .int settings.deviceId),
  (metaStateField, .text settings.metaState)]

theorem toJson_eq (settings : Settings) : settings.toJson = .object settings.writtenMembers :=
  rfl

theorem Restorable.lasting_toJson (hrestorable : settings.Restorable) (room : Nat) :
    Json.Lasting (room + 2) settings.toJson := by
  rw [toJson_eq]
  refine .object ?_ ?_ ?_
  · change [keymapPathsField, baseLayoutField, overlayLayoutsField, remappingField, deviceIdField,
      metaStateField].Nodup
    decide
  · simp only [writtenMembers, List.forall_mem_cons]
    exact ⟨(Text.plain_ofString _).unpaired, (Text.plain_ofString _).unpaired,
      (Text.plain_ofString _).unpaired, (Text.plain_ofString _).unpaired,
      (Text.plain_ofString _).unpaired, (Text.plain_ofString _).unpaired, List.forall_mem_nil _⟩
  · simp only [writtenMembers, List.forall_mem_cons]
    refine ⟨?_, .text hrestorable.base, lasting_texts hrestorable.overlays room,
      hrestorable.lasting_remapping room, .int hrestorable.device, .text hrestorable.state,
      List.forall_mem_nil _⟩
    refine .array fun item hitem => ?_
    obtain ⟨path, hpath, rfl⟩ := List.mem_map.mp hitem
    exact .text (hrestorable.paths path hpath).2

theorem Restorable.keyCodes?_remapping (hrestorable : settings.Restorable) :
    (Json.object settings.remappingMembers).keyCodes? = some settings.remapping := by
  refine Option.bind_eq_some_iff.mpr ⟨settings.remapping.entries,
    mapM_map_eq_some fun entry hentry => ?_,
    congrArg some (Table.ofList_entries settings.remapping)⟩
  obtain ⟨hsource, htarget⟩ := hrestorable.remapping entry hentry
  exact Option.bind_eq_some_iff.mpr ⟨entry.1, hsource,
    Option.bind_eq_some_iff.mpr ⟨entry.2, htarget, rfl⟩⟩

theorem Restorable.mapM_path? (hrestorable : settings.Restorable) :
    (settings.keymapPaths.map fun path => Json.text path.toText).mapM Json.path? =
      some settings.keymapPaths :=
  mapM_map_eq_some fun path hpath =>
    congrArg some (Path.ofText_toText (hrestorable.paths path hpath).1)

theorem Restorable.ofMembers?_writtenMembers (hrestorable : settings.Restorable) :
    ofMembers? settings.writtenMembers = some settings := by
  have hlisted : settings.writtenMembers.lookup keymapPathsField =
      some (.array (settings.keymapPaths.map fun path => .text path.toText)) := rfl
  have hbase : settings.writtenMembers.lookup baseLayoutField =
      some (.text settings.baseLayout) := rfl
  have hoverlays : optionalField settings.writtenMembers overlayLayoutsField
      (fun value => value.items?.map (·.map Json.toText)) [] = some settings.overlayLayouts := by
    change some ((settings.overlayLayouts.map Json.text).map Json.toText) = _
    rw [List.map_map]
    exact congrArg some (List.map_id _)
  have hremapping : optionalField settings.writtenMembers remappingField Json.keyCodes? .empty =
      some settings.remapping := hrestorable.keyCodes?_remapping
  have hdevice : optionalField settings.writtenMembers deviceIdField Json.integer? 0 =
      some settings.deviceId := rfl
  have hstate : optionalField settings.writtenMembers metaStateField
      (fun value => some value.toText) "base" = some settings.metaState := rfl
  rw [ofMembers?, hlisted, hbase, hoverlays, hremapping, hdevice, hstate]
  refine Option.bind_eq_some_iff.mpr ⟨_, rfl, Option.bind_eq_some_iff.mpr ⟨_, rfl, ?_⟩⟩
  exact Option.bind_eq_some_iff.mpr ⟨_, hrestorable.mapM_path?, rfl⟩

theorem Restorable.ofText_toText (hrestorable : settings.Restorable) :
    ofText settings.toText = .ok settings := by
  rw [ofText, toText, Json.ofText_write (hrestorable.lasting_toJson 988), toJson_eq]
  dsimp only
  rw [hrestorable.ofMembers?_writtenMembers]

theorem Restorable.graphic_toText (hrestorable : settings.Restorable) :
    settings.toText.Graphic :=
  (hrestorable.lasting_toJson 988).graphic_write 0

theorem Restorable.readText_saved (hrestorable : settings.Restorable)
    (hsave : settings.save tree path = .ok saved) :
    (saved.status path).readText path = .ok settings.toText := by
  have hstatus : saved.status path = .file settings.toBytes := FileTree.status_of_write hsave
  have hfile : Text.ofFile settings.toBytes = .ok settings.toText :=
    Text.ofFile_asciiBytes hrestorable.graphic_toText
  exact PathStatus.readText_eq_ok_iff.mpr ⟨_, hstatus, hfile⟩

theorem Restorable.load_saved (hrestorable : settings.Restorable)
    (hsave : settings.save tree path = .ok saved) :
    (load saved.files path).report.outcome = .ok settings :=
  load_eq_ok_iff.mpr
    ⟨settings.toText, hrestorable.readText_saved hsave, hrestorable.ofText_toText⟩

theorem exists_save_of_load (hload : (load tree.files path).report.outcome = .ok settings)
    (other : Settings) : ∃ saved, other.save tree path = .ok saved := by
  obtain ⟨text, htext, -⟩ := load_eq_ok_iff.mp hload
  obtain ⟨bytes, hstatus, -⟩ := PathStatus.readText_eq_ok_iff.mp htext
  exact FileTree.exists_write hstatus _

/-- The fields that are saved.  The path of the settings is none of them. -/
def savedFields : List Text :=
  [keymapPathsField, baseLayoutField, overlayLayoutsField, remappingField, deviceIdField,
    metaStateField]

theorem not_mem_savedFields : Text.ofString "_path" ∉ savedFields := by
  decide

/-- Settings that can be loaded can be saved where they are.  Wherever they are saved, the file
holds their fields and no other, it is loaded as the same settings, and these are saved as the
same text again.  A meta state that is set before comes back as what its name stands for. -/
theorem load_save (hload : (load tree.files source).report.outcome = .ok settings) :
    (∃ saved, settings.save tree source = .ok saved) ∧
      (∀ (other saved : FileTree) (path : Path), settings.save other path = .ok saved →
        (saved.status path).readText path = .ok settings.toText ∧
          (load saved.files path).report.outcome = .ok settings ∧
          (∃ again, settings.save saved path = .ok again) ∧
          ∀ again, settings.save saved path = .ok again →
            again.status path = saved.status path) ∧
      (∃ members, Json.ofText settings.toText = .ok (.object members) ∧
        members.map Prod.fst = savedFields ∧ Text.ofString "_path" ∉ members.map Prod.fst) ∧
      ∀ (state : MetaState) (other saved : FileTree) (path : Path),
        (settings.withInitialState state).save other path = .ok saved →
          ∃ reloaded last, (load saved.files path).report.outcome = .ok reloaded ∧
            reloaded = settings.withInitialState state ∧
            MetaState.parse state.format = .ok last ∧ reloaded.initialState = .ok last := by
  have hrestorable := restorable_of_load hload
  refine ⟨exists_save_of_load hload settings, fun other saved path hsave => ?_,
    ⟨settings.writtenMembers, ?_, rfl, not_mem_savedFields⟩, fun state other saved path hsave => ?_⟩
  · have hreloaded := hrestorable.load_saved hsave
    refine ⟨hrestorable.readText_saved hsave, hreloaded, exists_save_of_load hreloaded settings,
      fun again hagain => ?_⟩
    rw [FileTree.status_of_write hagain, FileTree.status_of_write hsave]
  · exact Json.ofText_write (hrestorable.lasting_toJson 988)
  · obtain ⟨last, hlast⟩ := MetaState.exists_parse_format state
    exact ⟨_, last, (hrestorable.withInitialState state).load_saved hsave, rfl, hlast, hlast⟩

/-- Two directories, a smiley and half of one, and one key that stands for another. -/
def faces : Settings where
  keymapPaths := [.ofText "keymaps//./extra", .ofText "/usr/share"]
  baseLayout := "Smile 😀"
  overlayLayouts := [[.surrogate 0], "\"\\"]
  remapping := ⟨[(3, 0)], by decide⟩
  deviceId := -1
  metaState := "lshift"

theorem restorable_faces : faces.Restorable where
  paths := by
    have hpath (text : Text) (hplain : text.Plain) : (∀ part ∈ (Path.ofText text).parts,
        Path.Leads part) ∧ Json.Unpaired (Path.ofText text).toText :=
      ⟨fun _ hpart => Path.leads_of_mem_ofText hpart, Path.unpaired_toText_ofText hplain.unpaired⟩
    simp only [faces, List.forall_mem_cons]
    exact ⟨hpath _ (Text.plain_ofString _), hpath _ (Text.plain_ofString _),
      List.forall_mem_nil _⟩
  base := (Text.plain_ofString _).unpaired
  overlays := by
    simp only [faces, List.forall_mem_cons]
    exact ⟨List.isChain_singleton _, (Text.plain_ofString _).unpaired, List.forall_mem_nil _⟩
  remapping := by
    have hhome : KeyCode.ofLabel? "HOME" = some 3 := by
      rw [KeyCode.ofLabel?, KeyCode.labels, List.map_toArray, List.findIdx?_toArray]
      decide +kernel
    have hunknown : KeyCode.ofLabel? "UNKNOWN" = some 0 := by
      rw [KeyCode.ofLabel?, KeyCode.labels, List.map_toArray, List.findIdx?_toArray]
      decide +kernel
    exact List.forall_mem_singleton.mpr
      ⟨labelled_of_ofLabel? hhome, labelled_of_ofLabel? hunknown⟩
  device := Numeral.one_lt_pow_decimalLimit
  state := (Text.plain_ofString _).unpaired

/-- The tree with the settings in one file. -/
def faceTree : FileTree where
  entries := [(["s.json"], .file faces.toBytes)]

theorem save_faces : faces.save {} (.ofText "s.json") = .ok faceTree :=
  FileTree.write_eq_ok_iff.mpr ⟨["s.json"], by rfl, by decide, rfl⟩

theorem load_save_faces :
    (load faceTree.files (.ofText "s.json")).report.outcome = .ok faces ∧
      ∃ saved, faces.save faceTree (.ofText "s.json") = .ok saved ∧
        (load saved.files (.ofText "s.json")).report.outcome = .ok faces := by
  have hload : (load faceTree.files (.ofText "s.json")).report.outcome = .ok faces :=
    restorable_faces.load_saved save_faces
  obtain ⟨⟨saved, hsave⟩, hsaved, -⟩ := load_save hload
  exact ⟨hload, saved, hsave, (hsaved faceTree saved _ hsave).2.1⟩

end KeyLayout.Settings
