import KeyLayout.Proofs.Grammar.Parsing
import KeyLayout.Proofs.Table
import Mathlib.Data.List.Forall2

namespace KeyLayout

/-! A layout text is accepted exactly when it derives items that fit its format and do
not bar one another, and its key map is the one that they declare. -/

namespace Item

variable {format : Format} {item : Item} {items : List Item}

/-- The key that a block ends up with. -/
def key? : Item → Option (KeyCode × Key)
  | .block code statements => some (code, Key.ofSettings (Statement.settings statements))
  | _ => none

theorem key?_eq_some_iff {declared : KeyCode × Key} :
    item.key? = some declared ↔ ∃ code statements, item = .block code statements ∧
      declared = (code, Key.ofSettings (Statement.settings statements)) := by
  cases item <;> simp [key?, eq_comm]

theorem device?_eq_some_iff {kind : DeviceCodeKind} {declared : DeviceCode × KeyCode} :
    item.device? kind = some declared ↔ ∃ entry, item = .entry entry ∧ entry.kind = kind ∧
      declared = (.ofNat entry.device, entry.code) := by
  cases item <;> simp [device?, eq_comm]

/-- Items that do not bar one another declare each key once. -/
theorem nodup_keys (hpairs : items.Pairwise fun first second => ¬first.Bars second) :
    ((items.filterMap Item.key?).map Prod.fst).Nodup := by
  rw [List.Nodup, List.pairwise_map, List.pairwise_filterMap]
  refine hpairs.imp fun {first second} hbars own hown other hother heq => hbars ?_
  obtain ⟨code, statements, rfl, rfl⟩ := key?_eq_some_iff.mp hown
  obtain ⟨otherCode, others, rfl, rfl⟩ := key?_eq_some_iff.mp hother
  exact heq

theorem nodup_devices (hpairs : items.Pairwise fun first second => ¬first.Bars second)
    (kind : DeviceCodeKind) : ((items.filterMap (Item.device? kind)).map Prod.fst).Nodup := by
  rw [List.Nodup, List.pairwise_map, List.pairwise_filterMap]
  refine hpairs.imp fun {first second} hbars own hown other hother heq => hbars ?_
  obtain ⟨entry, rfl, hkind, rfl⟩ := device?_eq_some_iff.mp hown
  obtain ⟨otherEntry, rfl, rfl, rfl⟩ := device?_eq_some_iff.mp hother
  exact ⟨hkind, Int.ofNat.inj heq⟩

end Item

/-- The key map that reading puts together from the items. -/
def KeyMap.ofItems (name : Text) (format : Format) (items : List Item) : KeyMap where
  name := name
  type :=
    if format = .overlay then .overlay
    else (items.filterMap Item.type?).getLast?.getD .unknown
  keys := .ofList (items.filterMap Item.key?)
  scanCodes := .ofList (items.filterMap (Item.device? .scan))
  usageCodes := .ofList (items.filterMap (Item.device? .usage))

section Declarations

variable {format : Format} {name : Text} {items : List Item} {map : KeyMap}

theorem Item.filterMap_key? (items : List Item) :
    items.filterMap key? =
      (items.filterMap block?).map fun block => (block.1, Key.ofSettings block.2) := by
  rw [List.map_filterMap]
  refine congrArg (items.filterMap ·) (funext fun item => ?_)
  cases item <;> rfl

theorem Item.fitting_of_mem_blocks (hfitting : ∀ item ∈ items, item.Fitting format) :
    ∀ block ∈ items.filterMap block?, Statement.Fitting block.2 := by
  intro block hblock
  obtain ⟨item, hitem, heq⟩ := List.mem_filterMap.mp hblock
  have hown := hfitting item hitem
  cases item with
  | type => contradiction
  | entry => contradiction
  | block code statements =>
      cases heq
      exact hown

theorem forall₂_declares_iff {blocks : List (KeyCode × List (Property × Value))}
    {entries : List (KeyCode × Key)}
    (hfitting : ∀ block ∈ blocks, Statement.Fitting block.2) :
    List.Forall₂ (fun block entry => entry.1 = block.1 ∧ Statement.Declares block.2 entry.2)
        blocks entries ↔
      entries = blocks.map fun block => (block.1, Key.ofSettings block.2) := by
  induction blocks generalizing entries with
  | nil => exact List.forall₂_nil_left_iff
  | cons block rest ih =>
      obtain ⟨hblock, hrest⟩ := List.forall_mem_cons.mp hfitting
      rw [List.forall₂_cons_left_iff, List.map_cons]
      constructor
      · rintro ⟨⟨code, key⟩, others, ⟨hcode, hkey⟩, hothers, rfl⟩
        obtain rfl : key = Key.ofSettings block.2 := (Statement.declares_iff hblock).mp hkey
        obtain rfl : code = block.1 := hcode
        rw [(ih hrest).mp hothers]
      · rintro rfl
        exact ⟨_, _, ⟨rfl, (Statement.declares_iff hblock).mpr rfl⟩, (ih hrest).mpr rfl, rfl⟩

/-- Items that fit and do not bar one another declare just one key map. -/
theorem Item.declareAll_iff (hfitting : ∀ item ∈ items, item.Fitting format)
    (hpairs : items.Pairwise fun first second => ¬first.Bars second) :
    DeclareAll name format items map ↔ map = KeyMap.ofItems name format items := by
  have hblocks := fitting_of_mem_blocks hfitting
  constructor
  · rintro ⟨hname, htype, hkeys, hscan, husage, hremapping, hoverlaid⟩
    rw [forall₂_declares_iff hblocks, ← filterMap_key?] at hkeys
    have htables : map.keys = .ofList (items.filterMap key?) ∧
        map.scanCodes = .ofList (items.filterMap (device? .scan)) ∧
          map.usageCodes = .ofList (items.filterMap (device? .usage)) ∧
            map.remapping = .ofList [] := by
      rw [← hkeys, ← hscan, ← husage, ← hremapping]
      simp only [Table.ofList_entries, and_self]
    obtain ⟨hkeys, hscan, husage, hremapping⟩ := htables
    cases map
    rw [KeyMap.ofItems, KeyMap.mk.injEq]
    exact ⟨hname, htype, hkeys, hscan, husage, hremapping, hoverlaid⟩
  · rintro rfl
    refine ⟨rfl, rfl, (forall₂_declares_iff hblocks).mpr ?_, ?_, ?_, rfl, rfl⟩
    · exact (Table.entries_ofList (nodup_keys hpairs)).trans (filterMap_key? items)
    · exact Table.entries_ofList (nodup_devices hpairs .scan)
    · exact Table.entries_ofList (nodup_devices hpairs .usage)

end Declarations

namespace Draft

variable {format : Format} {draft : Draft} {item first : Item} {items : List Item}

/-- The draft holds something that the item may not follow. -/
def Bars (draft : Draft) : Item → Prop
  | .type _ => draft.typeDeclared = true ∨ draft.blockSeen = true
  | .entry entry => (draft.deviceTable entry.kind).contains (.ofNat entry.device) = true
  | .block code _ => draft.map.keys.contains code = true

theorem admits_iff : draft.Admits format item ↔ item.Fitting format ∧ ¬draft.Bars item := by
  cases item with
  | type declared => simp [Admits, Bars]
  | entry entry => simp [Admits, Bars, Item.Fitting]
  | block code statements => simp [Admits, Bars]

theorem bars_add_iff : (draft.add first).Bars item ↔ draft.Bars item ∨ first.Bars item := by
  cases first with
  | type declared =>
      cases item with
      | type => simp [add, Bars, Item.Bars]
      | entry entry => cases hkind : entry.kind <;> simp [add, Bars, Item.Bars, deviceTable, hkind]
      | block => simp [add, Bars, Item.Bars]
  | entry own =>
      cases item with
      | type => cases hkind : own.kind <;> simp [add, Bars, Item.Bars, addDeviceCode, hkind]
      | entry entry =>
          have hdevice : (entry.device : DeviceCode) = own.device ↔ own.device = entry.device := by
            unfold DeviceCode
            omega
          cases hkind : own.kind <;> cases hother : entry.kind <;>
            simp [add, Bars, Item.Bars, addDeviceCode, deviceTable, hkind, hother,
              Table.contains_insert_iff, hdevice]
      | block => cases hkind : own.kind <;> simp [add, Bars, Item.Bars, addDeviceCode, hkind]
  | block code statements =>
      cases item with
      | type => simp [add, Bars, Item.Bars]
      | entry entry => cases hkind : entry.kind <;> simp [add, Bars, Item.Bars, deviceTable, hkind]
      | block other inside =>
          have hcode : other = code ↔ code = other := eq_comm
          simp [add, Bars, Item.Bars, Table.contains_insert_iff, hcode]

theorem admitsAll_iff :
    draft.AdmitsAll format items ↔
      (∀ item ∈ items, item.Fitting format ∧ ¬draft.Bars item) ∧
        items.Pairwise fun first second => ¬first.Bars second := by
  induction items generalizing draft with
  | nil => simp [AdmitsAll]
  | cons item rest ih =>
      rw [AdmitsAll, ih, admits_iff, List.forall_mem_cons, List.pairwise_cons]
      simp only [bars_add_iff, not_or]
      constructor
      · rintro ⟨hitem, hrest, hpairs⟩
        exact ⟨⟨hitem, fun own hown => ⟨(hrest own hown).1, (hrest own hown).2.1⟩⟩,
          fun own hown => (hrest own hown).2.2, hpairs⟩
      · rintro ⟨⟨hitem, hrest⟩, hown, hpairs⟩
        exact ⟨hitem, fun own hmem => ⟨(hrest own hmem).1, (hrest own hmem).2, hown own hmem⟩,
          hpairs⟩

theorem not_bars_ofName (name : Text) (item : Item) : ¬(ofName name).Bars item := by
  cases item with
  | type => simp [ofName, Bars]
  | entry entry => cases hkind : entry.kind <;> simp [ofName, Bars, deviceTable, hkind] <;> rfl
  | block => simp [ofName, Bars]; rfl

theorem admitsAll_ofName_iff {name : Text} :
    (ofName name).AdmitsAll format items ↔
      (∀ item ∈ items, item.Fitting format) ∧
        items.Pairwise fun first second => ¬first.Bars second := by
  simp only [admitsAll_iff, not_bars_ofName, not_false_eq_true, and_true]

/-- The map is put together field by field from what the items declare. -/
theorem map_foldl_add (draft : Draft) (items : List Item) :
    (items.foldl add draft).map =
      { draft.map with
        type := (items.filterMap Item.type?).getLast?.getD draft.map.type
        keys := (items.filterMap Item.key?).foldl
          (fun table entry => table.insert entry.1 entry.2) draft.map.keys
        scanCodes := (items.filterMap (Item.device? .scan)).foldl
          (fun table entry => table.insert entry.1 entry.2) draft.map.scanCodes
        usageCodes := (items.filterMap (Item.device? .usage)).foldl
          (fun table entry => table.insert entry.1 entry.2) draft.map.usageCodes } := by
  induction items generalizing draft with
  | nil => rfl
  | cons item rest ih =>
      rw [List.foldl_cons, ih]
      cases item with
      | type declared =>
          simp [add, List.filterMap_cons, Item.type?, Item.key?, Item.device?, List.getLast?_cons]
      | entry entry =>
          cases hkind : entry.kind <;>
            simp [add, addDeviceCode, List.filterMap_cons, Item.type?, Item.key?, Item.device?,
              hkind]
      | block code statements =>
          simp [add, List.filterMap_cons, Item.type?, Item.key?, Item.device?]

theorem finish_eq_ok_iff {map : KeyMap} :
    (draft.finish format).outcome = .ok map ↔
      draft.pending = none ∧
        map =
          if format = .overlay then { draft.map with type := .overlay } else draft.map := by
  unfold finish
  cases hpending : draft.pending with
  | some pending => simp [Report.fail]
  | none =>
      dsimp only
      by_cases hformat : format = .overlay
      · rw [if_pos hformat, if_pos hformat]
        simp [eq_comm]
      · rw [if_neg hformat, if_neg hformat]
        split <;> simp [eq_comm]

theorem finish_foldl_add (name : Text) (format : Format) (items : List Item) :
    (if format = .overlay then
        { (items.foldl add (ofName name)).map with type := .overlay }
      else (items.foldl add (ofName name)).map) = KeyMap.ofItems name format items := by
  rw [map_foldl_add]
  by_cases hformat : format = .overlay
  · rw [if_pos hformat, KeyMap.ofItems, if_pos hformat]
    rfl
  · rw [if_neg hformat, KeyMap.ofItems, if_neg hformat]
    rfl

end Draft

theorem TokenLine.filled_of_ofLines {layout : Text} {first : Nat} {texts : List Text}
    {lines : List TokenLine} (hlines : ofLines layout first texts = .ok lines) :
    Draft.Filled lines := by
  induction texts generalizing first lines with
  | nil =>
      cases hlines
      exact List.forall_mem_nil _
  | cons text rest ih =>
      rw [ofLines] at hlines
      split at hlines
      next => contradiction
      next => exact ih hlines
      next tokens hsome _ =>
        cases hmore : ofLines layout (first + 1) rest with
        | error error =>
            rw [hmore] at hlines
            contradiction
        | ok more =>
            rw [hmore] at hlines
            cases hlines
            exact List.forall_mem_cons.mpr ⟨hsome, ih hmore⟩

namespace KeyMap

variable {name text : Text} {format : Format} {map : KeyMap}

theorem ofText_eq_ok_iff_reads :
    (ofText name text format).outcome = .ok map ↔
      ∃ lines draft, TokenLine.ofText name text = .ok lines ∧
        Draft.Reads format name (Cursor.ofLines name lines).lastLine (.ofName name) lines draft ∧
          (draft.finish format).outcome = .ok map := by
  unfold ofText
  rw [Report.bind_eq_ok_iff]
  constructor
  · rintro ⟨cursor, hcursor, hreads⟩
    obtain ⟨draft, hdraft, hrest⟩ := Report.bind_eq_ok_iff.mp hreads
    obtain ⟨own, hfinish, heq⟩ := Report.bind_eq_ok_iff.mp hrest
    cases heq
    cases hlines : TokenLine.ofText name text with
    | error error =>
        rw [Cursor.ofText, hlines] at hcursor
        contradiction
    | ok lines =>
        rw [Cursor.ofText, hlines] at hcursor
        cases hcursor
        exact ⟨lines, draft, rfl, hdraft, hfinish⟩
  · rintro ⟨lines, draft, hlines, hdraft, hfinish⟩
    refine ⟨Cursor.ofLines name lines, by rw [Cursor.ofText, hlines]; rfl, ?_⟩
    refine Report.bind_eq_ok_iff.mpr ⟨draft, hdraft, ?_⟩
    exact Report.bind_eq_ok_iff.mpr ⟨map, hfinish, rfl⟩

/-- What is read from the lines is what the items that they derive add up to. -/
theorem ofText_eq_ok_iff_collects :
    (ofText name text format).outcome = .ok map ↔
      ∃ lines draft, TokenLine.ofText name text = .ok lines ∧
        Draft.Collects format (.ofName name) (Symbol.ofLines lines) draft ∧
          map = if format = .overlay then { draft.map with type := .overlay } else draft.map := by
  rw [ofText_eq_ok_iff_reads]
  constructor
  · rintro ⟨lines, draft, hlines, hreads, hfinish⟩
    obtain ⟨hpending, hmap⟩ := Draft.finish_eq_ok_iff.mp hfinish
    have hfilled := TokenLine.filled_of_ofLines hlines
    have hcollects := (Draft.reads_iff_collects rfl hfilled).mp ⟨hreads, hpending⟩
    exact ⟨lines, draft, hlines, hcollects, hmap⟩
  · rintro ⟨lines, draft, hlines, hcollects, hmap⟩
    have hfilled := TokenLine.filled_of_ofLines hlines
    obtain ⟨hreads, hpending⟩ :
        Draft.Reads format name (Cursor.ofLines name lines).lastLine (.ofName name) lines draft ∧
          draft.pending = none := (Draft.reads_iff_collects rfl hfilled).mpr hcollects
    exact ⟨lines, draft, hlines, hreads, Draft.finish_eq_ok_iff.mpr ⟨hpending, hmap⟩⟩

/-- A layout text is accepted exactly if it derives items that fit its format and of
which none bars a later one, and then its key map is the one that they declare. -/
theorem ofText_eq_ok_iff_derives (name text : Text) (format : Format) (map : KeyMap) :
    (ofText name text format).outcome = .ok map ↔
      ∃ lines items, TokenLine.ofText name text = .ok lines ∧
        Item.DerivesAll (Symbol.ofLines lines) items ∧
          (∀ item ∈ items, item.Fitting format) ∧
            items.Pairwise (fun first second => ¬first.Bars second) ∧
              Item.DeclareAll name format items map := by
  rw [ofText_eq_ok_iff_collects]
  constructor
  · rintro ⟨lines, draft, hlines, ⟨items, hitems, hadmits, rfl⟩, hmap⟩
    rw [Draft.finish_foldl_add] at hmap
    obtain ⟨hfitting, hpairs⟩ := Draft.admitsAll_ofName_iff.mp hadmits
    exact ⟨lines, items, hlines, hitems, hfitting, hpairs,
      (Item.declareAll_iff hfitting hpairs).mpr hmap⟩
  · rintro ⟨lines, items, hlines, hitems, hfitting, hpairs, hmap⟩
    rw [Item.declareAll_iff hfitting hpairs, ← Draft.finish_foldl_add] at hmap
    have hadmits : (Draft.ofName name).AdmitsAll format items :=
      Draft.admitsAll_ofName_iff.mpr ⟨hfitting, hpairs⟩
    exact ⟨lines, _, hlines, ⟨items, hitems, hadmits, rfl⟩, hmap⟩

end KeyMap

end KeyLayout
