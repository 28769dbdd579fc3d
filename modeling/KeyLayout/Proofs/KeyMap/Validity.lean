import KeyLayout.KeyMap.Lookup
import KeyLayout.Proofs.KeyMap.Bytes
import KeyLayout.Proofs.KeyMap.Editing
import KeyLayout.Proofs.Modifier.Masks
import Mathlib.Data.List.Nodup
import Mathlib.Logic.Relation

namespace KeyLayout

/-! Every key map that is loaded, edited and stored stays valid. -/

structure Behavior.Valid (behavior : Behavior) : Prop where
  mask : behavior.mask.OfModifiers
  fallback : ∀ code ∈ behavior.fallback, KeyCode.InRange code
  replacement : ∀ code ∈ behavior.replacement, KeyCode.InRange code
  single : behavior.fallback = none ∨ behavior.replacement = none

structure Key.Valid (key : Key) : Prop where
  behaviors : ∀ behavior ∈ key.behaviors, behavior.Valid
  distinct : (key.behaviors.map Behavior.mask).Nodup
  sorted : key.behaviors.Pairwise fun first second => first.precedes second = true
  used : key.label.isSome = true ∨ key.number.isSome = true ∨ key.behaviors ≠ []

structure KeyMap.Valid (map : KeyMap) : Prop where
  keys : ∀ entry ∈ map.keys.entries, KeyCode.InRange entry.1 ∧ entry.2.Valid
  scanCodes : ∀ entry ∈ map.scanCodes.entries, 0 ≤ entry.1 ∧ KeyCode.InRange entry.2
  usageCodes : ∀ entry ∈ map.usageCodes.entries, 0 ≤ entry.1 ∧ KeyCode.InRange entry.2
  remapping : ∀ entry ∈ map.remapping.entries, KeyCode.InRange entry.1 ∧ KeyCode.InRange entry.2

theorem KeyCode.inRange_of_ofLabel? {label : Text} {code : KeyCode}
    (hlabel : ofLabel? label = some code) : code.InRange := by
  obtain ⟨index, hindex, rfl⟩ := Option.map_eq_some_iff.mp hlabel
  obtain ⟨hlt, -⟩ := Array.findIdx?_eq_some_iff_getElem.mp hindex
  have hsize : labels.size ≤ 8192 := by
    rw [labels, Array.size_map]
    decide +kernel
  exact ⟨Int.natCast_nonneg index, Int.ofNat_lt.mpr (Nat.lt_of_lt_of_le hlt hsize)⟩

/-! What a text derives names only keys that there are, and modifiers. -/

theorem ValuePart.DerivesAll.inRange {tokens : List Token} {parts : List ValuePart}
    (hparts : DerivesAll tokens parts) :
    ∀ target, .target target ∈ parts → target.code.InRange := by
  induction hparts with
  | nil => simp
  | cons hfirst _ ih =>
      intro target hmem
      rcases List.mem_cons.mp hmem with rfl | hmem
      · cases hfirst with
        | fallback hlabel => exact KeyCode.inRange_of_ofLabel? hlabel
        | replacement hlabel => exact KeyCode.inRange_of_ofLabel? hlabel
      · exact ih target hmem

theorem Value.Derives.inRange {tokens : List Token} {value : Value}
    (hvalue : Derives tokens value) : ∀ target ∈ value.target, target.code.InRange := by
  obtain ⟨hparts, -, -, -⟩ := hvalue
  intro target htarget
  obtain ⟨part, hpart, hown⟩ := List.mem_filterMap.mp (List.mem_of_mem_head? htarget)
  cases part with
  | character => contradiction
  | target own =>
      cases hown
      exact hparts.inRange target hpart

theorem Property.DerivesAll.ofModifiers {tokens : List Token} {properties : List Property}
    (hproperties : DerivesAll tokens properties) :
    ∀ mask, .mask mask ∈ properties → mask.OfModifiers := by
  have hderives {token : Token} {property : Property} (hproperty : Derives token property)
      (mask : MetaState) (heq : .mask mask = property) : mask.OfModifiers := by
    cases hproperty with
    | mask hparse =>
        cases heq
        exact MetaState.ofModifiers_of_parse hparse
    | label => contradiction
    | number => contradiction
  induction hproperties with
  | single hproperty =>
      intro mask hmem
      exact hderives hproperty mask (List.mem_singleton.mp hmem)
  | cons hproperty _ ih =>
      intro mask hmem
      rcases List.mem_cons.mp hmem with heq | hmem
      · exact hderives hproperty mask heq
      · exact ih mask hmem

namespace Statement

/-- What a block sets to what, if it can. -/
def Valid (setting : Property × Value) : Prop :=
  (∀ mask, setting.1 = .mask mask → mask.OfModifiers) ∧
    ∀ target ∈ setting.2.target, target.code.InRange

theorem Derives.valid {tokens : List Token} {statement : Statement}
    (hstatement : Derives tokens statement) :
    ∀ setting ∈ settings [statement], Valid setting := by
  have hset {properties : List Property} {value : Value}
      (hmasks : ∀ mask, .mask mask ∈ properties → mask.OfModifiers)
      (hvalue : ∀ target ∈ value.target, target.code.InRange) :
      ∀ setting ∈ settings [⟨properties, value⟩], Valid setting := by
    intro setting hmem
    obtain ⟨property, hproperty, rfl⟩ : ∃ property ∈ properties, (property, value) = setting := by
      simpa [settings] using hmem
    exact ⟨fun mask heq => hmasks mask (heq ▸ hproperty), hvalue⟩
  cases hstatement with
  | bare hvalue =>
      refine hset (fun mask hmem => ?_) hvalue.inRange
      obtain rfl : mask = 0 := by simpa using hmem
      exact .zero
  | plain hproperties hvalue => exact hset hproperties.ofModifiers hvalue.inRange
  | colon hproperties hvalue => exact hset hproperties.ofModifiers hvalue.inRange

theorem DerivesAll.valid {symbols : List Symbol} {statements : List Statement}
    (hstatements : DerivesAll symbols statements) :
    ∀ setting ∈ settings statements, Valid setting := by
  induction hstatements with
  | nil => simp [settings]
  | skip _ _ ih => exact ih
  | last hstatement => exact hstatement.valid
  | cons hstatement _ _ ih =>
      rw [Draft.settings_cons]
      exact List.forall_mem_append.mpr ⟨hstatement.valid, ih⟩

end Statement

/-- Codes in range, and in a block what can be set. -/
def Item.Valid : Item → Prop
  | .type _ => True
  | .entry own => own.code.InRange
  | .block code statements =>
      code.InRange ∧ ∀ setting ∈ Statement.settings statements, Statement.Valid setting

theorem DeviceEntry.Derives.inRange {tokens : List Token} {entry : DeviceEntry}
    (hentry : entry.Derives tokens) : entry.code.InRange := by
  cases hentry with
  | scan _ hlabel => exact KeyCode.inRange_of_ofLabel? hlabel
  | usage _ _ hlabel => exact KeyCode.inRange_of_ofLabel? hlabel

namespace Item

theorem DerivesBlock.valid {block : List Symbol} {statements : List Statement}
    (hblock : DerivesBlock block statements) :
    ∀ setting ∈ Statement.settings statements, Statement.Valid setting := by
  cases hblock with
  | braces hbody => exact hbody.valid

theorem Derives.valid {symbols : List Symbol} {items : List Item} (hitems : Derives symbols items) :
    ∀ item ∈ items, item.Valid := by
  cases hitems with
  | type => simp [Valid]
  | entry hentry => simpa [Valid] using hentry.inRange
  | block hlabel hblock =>
      simpa [Valid] using And.intro (KeyCode.inRange_of_ofLabel? hlabel) hblock.valid
  | entryBlock hentry hblock =>
      simpa [Valid] using And.intro hentry.inRange hblock.valid

theorem DerivesAll.valid {symbols : List Symbol} {items : List Item}
    (hitems : DerivesAll symbols items) : ∀ item ∈ items, item.Valid := by
  induction hitems with
  | nil => simp
  | cons hfirst _ ih => exact List.forall_mem_append.mpr ⟨hfirst.valid, ih⟩

end Item

namespace Value

variable {value : Value}

theorem valid_behavior {mask : MetaState} (hmask : mask.OfModifiers)
    (htarget : ∀ target ∈ value.target, target.code.InRange) : (value.behavior mask).Valid := by
  obtain ⟨character, target⟩ := value
  cases target with
  | none => exact ⟨hmask, by simp [behavior], by simp [behavior], .inl rfl⟩
  | some target =>
      obtain ⟨kind, code⟩ := target
      have hcode : code.InRange := htarget _ rfl
      cases kind with
      | fallback => exact ⟨hmask, by simpa [behavior] using hcode, by simp [behavior], .inr rfl⟩
      | replacement => exact ⟨hmask, by simp [behavior], by simpa [behavior] using hcode, .inl rfl⟩

end Value

namespace Key

variable {settings : List (Property × Value)}

theorem behavior?_eq_some_iff {setting : Property × Value} {behavior : Behavior} :
    Statement.behavior? setting = some behavior ↔
      ∃ mask, setting.1 = .mask mask ∧ behavior = setting.2.behavior mask := by
  obtain ⟨property, value⟩ := setting
  cases property <;> simp [Statement.behavior?, eq_comm]

theorem valid_behaviors (hvalid : ∀ setting ∈ settings, Statement.Valid setting) :
    ∀ behavior ∈ settings.filterMap Statement.behavior?, behavior.Valid := by
  intro behavior hmem
  obtain ⟨setting, hsetting, hbehavior⟩ := List.mem_filterMap.mp hmem
  obtain ⟨mask, hmask, rfl⟩ := behavior?_eq_some_iff.mp hbehavior
  obtain ⟨hmasks, htarget⟩ := hvalid setting hsetting
  exact Value.valid_behavior (hmasks mask hmask) htarget

theorem nodup_masks (hnodup : (settings.map Prod.fst).Nodup) :
    ((settings.filterMap Statement.behavior?).map Behavior.mask).Nodup := by
  rw [List.Nodup, List.pairwise_map] at hnodup ⊢
  rw [List.pairwise_filterMap]
  refine hnodup.imp fun {first second} hne own hown other hother heq => hne ?_
  obtain ⟨mask, hmask, rfl⟩ := behavior?_eq_some_iff.mp hown
  obtain ⟨otherMask, hotherMask, rfl⟩ := behavior?_eq_some_iff.mp hother
  rw [hmask, hotherMask]
  exact congrArg Property.mask heq

theorem pairwise_sort (behaviors : List Behavior) :
    (Behavior.sort behaviors).Pairwise fun first second => first.precedes second = true :=
  (Behavior.pairwise_specificity_sort behaviors).imp Behavior.precedes_iff.mpr

/-- A block that is not empty makes a key that is used. -/
theorem used_finish {pending : PendingKey} (hempty : pending.isEmpty = false) :
    pending.finish.label.isSome = true ∨ pending.finish.number.isSome = true ∨
      pending.finish.behaviors ≠ [] := by
  rw [← Bool.not_eq_true, PendingKey.isEmpty_iff, Classical.not_forall_not] at hempty
  obtain ⟨property, hhas⟩ := hempty
  cases property with
  | label => exact .inl hhas
  | number =>
      obtain ⟨point, hpoint⟩ := Option.isSome_iff_exists.mp hhas
      refine .inr (.inl ?_)
      rw [PendingKey.finish, hpoint]
      rfl
  | mask mask =>
      obtain ⟨behavior, hmem, -⟩ := hhas
      have hsorted : behavior ∈ pending.finish.behaviors := List.mem_mergeSort.mpr hmem
      exact .inr (.inr (List.ne_nil_of_mem hsorted))

theorem valid_ofSettings (hfitting : Statement.Fitting settings)
    (hvalid : ∀ setting ∈ settings, Statement.Valid setting) : (ofSettings settings).Valid := by
  have hperm : (ofSettings settings).behaviors.Perm (settings.filterMap Statement.behavior?) :=
    List.mergeSort_perm ..
  obtain ⟨haccepts, hempty⟩ :
      (PendingKey.new 0 0).Accepts settings ∧
        ((PendingKey.new 0 0).withSettings settings).isEmpty = false :=
    PendingKey.fitting_iff.mp hfitting
  refine ⟨fun behavior hmem => valid_behaviors hvalid behavior (hperm.mem_iff.mp hmem),
    (hperm.map Behavior.mask).nodup_iff.mpr (nodup_masks hfitting.nodup), pairwise_sort _, ?_⟩
  rw [← PendingKey.finish_withSettings haccepts]
  exact used_finish hempty

end Key

namespace KeyMap

variable {name text : Text} {format : Format} {map next overlay : KeyMap}

/-- What is read from a text is valid. -/
theorem valid_of_ofText (hmap : (ofText name text format).outcome = .ok map) : map.Valid := by
  obtain ⟨lines, draft, -, hcollects, rfl⟩ := ofText_eq_ok_iff_typed.mp hmap
  obtain ⟨-, hremapping, -⟩ := hcollects.map_eq
  obtain ⟨items, hitems, hadmits, rfl⟩ := hcollects
  obtain ⟨hfitting, hpairs⟩ := Draft.admitsAll_ofName_iff.mp hadmits
  have hvalid := hitems.valid
  have hdevices (kind : DeviceCodeKind) :
      ∀ entry ∈ ((items.foldl Draft.add (.ofName name)).deviceTable kind).entries,
        0 ≤ entry.1 ∧ KeyCode.InRange entry.2 := by
    rw [Draft.entries_deviceTable_foldl_add hpairs]
    intro entry hentry
    obtain ⟨item, hitem, hdevice⟩ := List.mem_filterMap.mp hentry
    obtain ⟨own, rfl, -, rfl⟩ := Item.device?_eq_some_iff.mp hdevice
    exact ⟨Int.natCast_nonneg _, hvalid _ hitem⟩
  refine ⟨?_, hdevices .scan, hdevices .usage, ?_⟩
  · rw [Draft.entries_keys_foldl_add hpairs]
    intro entry hentry
    obtain ⟨item, hitem, hkey⟩ := List.mem_filterMap.mp hentry
    obtain ⟨code, statements, rfl, rfl⟩ := Item.key?_eq_some_iff.mp hkey
    obtain ⟨hcode, hsettings⟩ := hvalid _ hitem
    exact ⟨hcode, Key.valid_ofSettings (hfitting _ hitem) hsettings⟩
  · rw [hremapping]
    simp [Table.empty]

namespace Valid

theorem remap (hmap : map.Valid) {source target : KeyCode} (hsource : source.InRange)
    (htarget : target.InRange) :
    { map with remapping := map.remapping.insert source target }.Valid where
  keys := hmap.keys
  scanCodes := hmap.scanCodes
  usageCodes := hmap.usageCodes
  remapping := Table.forall_insert hmap.remapping ⟨hsource, htarget⟩

theorem combine (hmap : map.Valid) (hoverlay : overlay.Valid) : (map.combine overlay).Valid where
  keys := Table.forall_override hmap.keys hoverlay.keys
  scanCodes := Table.forall_override hmap.scanCodes hoverlay.scanCodes
  usageCodes := Table.forall_override hmap.usageCodes hoverlay.usageCodes
  remapping := Table.forall_override hmap.remapping hoverlay.remapping

theorem readable (hmap : map.Valid) : map.Readable where
  keys entry hentry :=
    ⟨(hmap.keys entry hentry).1, fun behavior hmem =>
      have hbehavior := (hmap.keys entry hentry).2.behaviors behavior hmem
      ⟨hbehavior.mask.nonneg, hbehavior.fallback, hbehavior.replacement⟩⟩
  scanCodes := hmap.scanCodes
  usageCodes := hmap.usageCodes
  remapping := hmap.remapping

end Valid

end KeyMap

/-- Overlays are combined that are valid themselves. -/
def Edit.Valid : Edit → Prop
  | .combine overlay => overlay.Valid
  | _ => True

namespace KeyMap

variable {name text : Text} {format : Format} {map next : KeyMap}

/-- An edit, or reading back what was written. -/
inductive Step (map : KeyMap) : KeyMap → Prop
  | edit (edit : Edit) (hedit : edit.Valid) : Step map (edit.after map)
  | store {next : KeyMap} {bytes : List UInt8} (hbytes : map.toBytes = .ok bytes)
      (hread : ofBytes bytes = .ok next) : Step map next

namespace Valid

theorem after (hmap : map.Valid) {edit : Edit} (hedit : edit.Valid) : (edit.after map).Valid := by
  rw [Edit.after, Edit.result_eq_of_outcome]
  cases houtcome : edit.outcome map with
  | error => exact hmap
  | ok next =>
      cases edit with
      | remap source target =>
          rw [Edit.outcome, addRemapping] at houtcome
          split at houtcome
          next hrange =>
            cases houtcome
            exact hmap.remap hrange.1 hrange.2
          next => contradiction
      | combine overlay =>
          cases houtcome
          exact hmap.combine hedit
      | clear source =>
          rcases Edit.of_outcome_clear houtcome with rfl | ⟨text, htext⟩
          · exact hmap
          · exact valid_of_ofText htext

theorem step (hmap : map.Valid) (hstep : Step map next) : next.Valid := by
  cases hstep with
  | edit edit hedit => exact hmap.after hedit
  | store hbytes hread =>
      have hsame := ofBytes_of_toBytes hmap.readable hbytes
      rw [hread] at hsame
      cases hsame
      exact hmap

theorem reaches (hmap : map.Valid) (hreaches : Relation.ReflTransGen Step map next) :
    next.Valid := by
  induction hreaches with
  | refl => exact hmap
  | tail _ hstep ih => exact ih.step hstep

end Valid

end KeyMap

namespace Key.Valid

variable {key : Key} {behavior : Behavior}

/-- The behavior without modifiers comes last. -/
theorem getLast?_eq (hkey : key.Valid) (hmem : behavior ∈ key.behaviors)
    (hmask : behavior.mask = 0) : key.behaviors.getLast? = some behavior := by
  obtain ⟨before, after, heq⟩ := List.append_of_mem hmem
  cases after with
  | nil => rw [heq, List.getLast?_concat]
  | cons other rest =>
      have hother : other ∈ key.behaviors := by
        rw [heq]
        simp
      have hsorted := hkey.sorted
      have hdistinct := hkey.distinct
      rw [heq, List.pairwise_append] at hsorted
      rw [heq, List.map_append, List.map_cons, List.nodup_append, List.nodup_cons] at hdistinct
      have hprecedes : behavior.precedes other = true :=
        (List.pairwise_cons.mp hsorted.2.1).1 other (List.mem_cons_self ..)
      rw [Behavior.precedes, hmask] at hprecedes
      have hzero : other.mask = 0 :=
        Specificity.eq_zero_of_zero_atLeast (hkey.behaviors other hother).mask hprecedes
      have hnew := hdistinct.2.1.1
      rw [hmask, ← hzero] at hnew
      exact absurd (List.mem_map_of_mem (List.mem_cons_self ..)) hnew

/-- Without modifiers it is the one that answers. -/
theorem find?_zero (hkey : key.Valid) (hmem : behavior ∈ key.behaviors)
    (hmask : behavior.mask = 0) : Behavior.find? key.behaviors 0 = some behavior := by
  have hanswers (own : Behavior) (hown : own ∈ key.behaviors) :
      own.mask.compatible 0 = true ↔ own.mask = 0 :=
    MetaState.compatible_zero_iff (hkey.behaviors own hown).mask
  have hsome : (Behavior.find? key.behaviors 0).isSome = true :=
    List.find?_isSome.mpr ⟨behavior, hmem, (hanswers behavior hmem).mpr hmask⟩
  obtain ⟨found, hfound⟩ := Option.isSome_iff_exists.mp hsome
  have hown : found ∈ key.behaviors := List.mem_of_find?_eq_some hfound
  have hcompatible := List.find?_some hfound
  have hzero : found.mask = 0 := (hanswers found hown).mp hcompatible
  rw [hfound, List.inj_on_of_nodup_map hkey.distinct hown hmem (hzero.trans hmask.symm)]

end Key.Valid

namespace KeyMap

variable {map : KeyMap}

theorem Valid.character?_zero (hmap : map.Valid) {entry : KeyCode × Key} {behavior : Behavior}
    (hentry : entry ∈ map.keys.entries) (hmem : behavior ∈ entry.2.behaviors)
    (hmask : behavior.mask = 0) : map.character? entry.1 0 = behavior.character := by
  have hget : map.keys.get? entry.1 = some entry.2 := Table.get?_eq_some_iff.mpr hentry
  rw [character?, behavior?, hget, Option.bind_some,
    (hmap.keys entry hentry).2.find?_zero hmem hmask, Option.bind_some]

/-- A text is refused or makes a map that stays valid in whatever way it is edited and
stored; the behavior of a key without modifiers is its last, and the one that gives the
character without modifiers. -/
theorem valid_of_reaches (name text : Text) (format : Format) :
    (∃ error, (ofText name text format).outcome = .error error) ∨
      ∃ map, (ofText name text format).outcome = .ok map ∧
        ∀ last, Relation.ReflTransGen Step map last →
          last.Valid ∧ (∀ bytes, last.toBytes = .ok bytes → ofBytes bytes = .ok last) ∧
            ∀ entry ∈ last.keys.entries, ∀ behavior ∈ entry.2.behaviors, behavior.mask = 0 →
              entry.2.behaviors.getLast? = some behavior ∧
                last.character? entry.1 0 = behavior.character := by
  cases houtcome : (ofText name text format).outcome with
  | error error => exact .inl ⟨error, rfl⟩
  | ok map =>
      refine .inr ⟨map, rfl, fun last hreaches => ?_⟩
      have hlast := (valid_of_ofText houtcome).reaches hreaches
      refine ⟨hlast, fun bytes hbytes => ofBytes_of_toBytes hlast.readable hbytes, ?_⟩
      exact fun entry hentry behavior hmem hmask =>
        ⟨(hlast.keys entry hentry).2.getLast?_eq hmem hmask,
          hlast.character?_zero hentry hmem hmask⟩

theorem valid_of_reaches_pad :
    (pad.combine backOverlay).Valid ∧
      (pad.combine backOverlay).character? 4 0 = some (.scalar 'b') := by
  rcases valid_of_reaches "pad" padText .base with ⟨error, herror⟩ | ⟨map, hmap, hreaches⟩
  · rw [ofText_pad] at herror
    contradiction
  · obtain rfl := Except.ok.inj (ofText_pad.symm.trans hmap)
    have hstep : Step pad (pad.combine backOverlay) :=
      .edit (.combine backOverlay) (valid_of_ofText ofText_back)
    obtain ⟨hvalid, -, hzero⟩ := hreaches _ (.single hstep)
    have hback : (4, { behaviors := [{ character := some (.scalar 'b'), fallback := some 3 }] }) ∈
        (pad.combine backOverlay).keys.entries := by decide
    exact ⟨hvalid, (hzero _ hback _ (List.mem_singleton_self _) rfl).2⟩

end KeyMap

end KeyLayout
