import KeyLayout.KeyMap.Overlay
import KeyLayout.Proofs.Grammar.Lines
import KeyLayout.Proofs.Grammar.Meaning

namespace KeyLayout

/-! Reading two layout texts as one is reading the second one on top of the first. -/

namespace Draft

variable {format : Format} {layout : Text} {lastLine otherLine : Nat}
  {draft middle last other : Draft} {lines more : List TokenLine}

theorem Steps.length_le {line : Nat} {token : Token} {rest left : List Token} {next : Draft}
    (hsteps : draft.Steps format line token rest next left) : left.length ≤ rest.length := by
  obtain ⟨notes, hstep⟩ := hsteps
  exact step_leaves format line draft token rest _ hstep

/-- What is left of a line after a step is less than the line. -/
theorem length_ofLines_lt {line : Nat} {token : Token} {rest left : List Token}
    (hleft : left.length ≤ rest.length) :
    (Symbol.ofLines (⟨line, left⟩ :: lines)).length <
      (Symbol.ofLines (⟨line, token :: rest⟩ :: lines)).length := by
  rw [ofLines_cons_cons, ofLines_cons, ofLines_cons]
  simp only [Symbol.ofTokens, List.length_append, List.length_map, List.length_cons]
  omega

theorem length_ofLines_tail_lt {own : TokenLine} :
    (Symbol.ofLines lines).length < (Symbol.ofLines (own :: lines)).length := by
  obtain ⟨line, tokens⟩ := own
  rw [ofLines_cons]
  simp only [List.length_append, List.length_cons]
  omega

/-- The second lines are read from where the first ones lead to, in a line's middle too. -/
theorem reads_append_iff :
    Reads format layout lastLine draft (lines ++ more) last ↔
      ∃ middle, Reads format layout lastLine draft lines middle ∧
        Reads format layout lastLine middle more last := by
  have hrun : (Reading.run format ⟨draft, ⟨layout, lastLine, lines ++ more⟩⟩).outcome = _ :=
    Reading.outcome_run_before ⟨draft, ⟨layout, lastLine, lines⟩⟩
  rw [Reads, hrun, bind_eq_ok_iff]
  rfl

/-- Induction on a reading, step by step: past a line end, within a line while a block is
open, or beyond a line whose end is reached outside of blocks. -/
@[elab_as_elim]
theorem Reads.induct
    {motive : ∀ draft lines, Reads format layout lastLine draft lines last → Prop}
    (nil : motive last [] (reads_nil_iff.mpr rfl))
    (lineEnd : ∀ {draft line more} (hmore : Reads format layout lastLine draft more last),
      motive draft more hmore → motive draft (⟨line, []⟩ :: more) (reads_lineEnd_iff.mpr hmore))
    (within : ∀ {draft next line token rest left more}
      (hsteps : draft.Steps format line token rest next left) (hsome : next.pending.isSome = true)
      (hleft : Reads format layout lastLine next (⟨line, left⟩ :: more) last),
      motive next (⟨line, left⟩ :: more) hleft → motive draft (⟨line, token :: rest⟩ :: more)
        (reads_token_iff.mpr ⟨next, left, hsteps, .inl ⟨hsome, hleft⟩⟩))
    (beyond : ∀ {draft next line token rest more}
      (hsteps : draft.Steps format line token rest next []) (hnone : next.pending = none)
      (hmore : Reads format layout lastLine next more last),
      motive next more hmore → motive draft (⟨line, token :: rest⟩ :: more)
        (reads_token_iff.mpr ⟨next, [], hsteps, .inr ⟨hnone, rfl, hmore⟩⟩))
    (hreads : Reads format layout lastLine draft lines last) : motive draft lines hreads := by
  -- a step may end within a line, so what gets less is the number of symbols, not of lines
  generalize hsize : (Symbol.ofLines lines).length = size
  induction size using Nat.strongRecOn generalizing draft lines with
  | ind size ih =>
      subst hsize
      cases lines with
      | nil =>
          obtain rfl := reads_nil_iff.mp hreads
          exact nil
      | cons own more =>
          obtain ⟨line, tokens⟩ := own
          cases tokens with
          | nil =>
              have hmore := reads_lineEnd_iff.mp hreads
              exact lineEnd hmore (ih _ length_ofLines_tail_lt hmore rfl)
          | cons token rest =>
              obtain ⟨next, left, hsteps, ⟨hsome, hleft⟩ | ⟨hnone, rfl, hmore⟩⟩ :=
                reads_token_iff.mp hreads
              · exact within hsteps hsome hleft
                  (ih _ (length_ofLines_lt hsteps.length_le) hleft rfl)
              · exact beyond hsteps hnone hmore (ih _ length_ofLines_tail_lt hmore rfl)

theorem Reads.unique (hlast : Reads format layout lastLine draft lines last)
    (hother : Reads format layout lastLine draft lines other) : last = other :=
  Except.ok.inj (hlast.symm.trans hother)

theorem Reads.of_collects (hpending : draft.pending = none)
    (hcollects : Collects format draft (Symbol.ofLines lines) last) :
    Reads format layout lastLine draft lines last :=
  reads_of_collects hpending hcollects lines rfl

theorem Collects.pending (hcollects : Collects format draft (Symbol.ofLines lines) last)
    (hpending : draft.pending = none) : last.pending = none := by
  obtain ⟨items, -, -, rfl⟩ := hcollects
  rw [pending_foldl_add, hpending]

theorem Collects.unique (hlast : Collects format draft (Symbol.ofLines lines) last)
    (hpending : draft.pending = none)
    (hother : Collects format draft (Symbol.ofLines lines) other) : last = other :=
  have hreads : Reads format [] 0 draft lines last := .of_collects hpending hlast
  hreads.unique (.of_collects hpending hother)

/-- The items of the second lines are added to those of the first lines. -/
theorem collects_append_iff (hpending : draft.pending = none) (hfilled : Filled (lines ++ more))
    (hfirst : Collects format draft (Symbol.ofLines lines) middle) :
    Collects format draft (Symbol.ofLines (lines ++ more)) last ↔
      Collects format middle (Symbol.ofLines more) last := by
  have hmiddle := hfirst.pending hpending
  have hmore : Filled more := fun line hline => hfilled line (List.mem_append_right _ hline)
  have hlines : Reads format [] 0 draft lines middle := .of_collects hpending hfirst
  constructor
  · intro hall
    have hreads : Reads format [] 0 draft (lines ++ more) last := .of_collects hpending hall
    obtain ⟨own, hown, hrest⟩ := reads_append_iff.mp hreads
    obtain rfl := hlines.unique hown
    exact (reads_iff_collects hmiddle hmore).mp ⟨hrest, hall.pending hpending⟩
  · intro hrest
    have hreads : Reads format [] 0 draft (lines ++ more) last :=
      reads_append_iff.mpr ⟨middle, hlines, .of_collects hmiddle hrest⟩
    exact (reads_iff_collects hpending hfilled).mp ⟨hreads, hrest.pending hmiddle⟩

end Draft

namespace Item

variable {format : Format} {item : Item} {items : List Item}

/-- What some format may declare may be declared where any format is read. -/
theorem Fitting.any (hitem : item.Fitting format) : item.Fitting .any := by
  cases item with
  | type declared => exact ⟨by decide, hitem.2.1, by simp⟩
  | entry => trivial
  | block => exact hitem

theorem Fitting.of_overlay (hitem : item.Fitting .overlay) (format : Format) :
    item.Fitting format := by
  cases item with
  | type => exact absurd rfl hitem.1
  | entry => trivial
  | block => exact hitem

theorem fitting_overlay_iff : item.Fitting .overlay ↔ item.Fitting .any ∧ item.type? = none := by
  cases item <;> simp [Fitting, type?]

end Item

/-- No block and no device code of either kind is in both maps. -/
structure KeyMap.Apart (first second : KeyMap) : Prop where
  keys : first.keys.Disjoint second.keys
  scanCodes : first.scanCodes.Disjoint second.scanCodes
  usageCodes : first.usageCodes.Disjoint second.usageCodes

namespace Draft

variable {format : Format} {base : Draft} {name : Text} {item : Item} {items : List Item}

theorem entries_keys_foldl_add
    (hpairs : items.Pairwise fun first second => ¬first.Bars second) :
    (items.foldl add (ofName name)).map.keys.entries = items.filterMap Item.key? := by
  rw [map_foldl_add]
  exact Table.entries_ofList (Item.nodup_keys hpairs)

theorem entries_deviceTable_foldl_add
    (hpairs : items.Pairwise fun first second => ¬first.Bars second) (kind : DeviceCodeKind) :
    ((items.foldl add (ofName name)).deviceTable kind).entries =
      items.filterMap (Item.device? kind) := by
  cases kind with
  | scan =>
      rw [deviceTable, map_foldl_add]
      exact Table.entries_ofList (Item.nodup_devices hpairs .scan)
  | usage =>
      rw [deviceTable, map_foldl_add]
      exact Table.entries_ofList (Item.nodup_devices hpairs .usage)

theorem typeDeclared_foldl_add :
    (items.foldl add base).typeDeclared = false ↔
      base.typeDeclared = false ∧ ∀ item ∈ items, item.type? = none := by
  induction items generalizing base with
  | nil => simp
  | cons item rest ih =>
      rw [List.foldl_cons, ih, List.forall_mem_cons, ← and_assoc]
      refine and_congr_left fun _ => ?_
      cases item with
      | type => simp [add, Item.type?]
      | entry entry => cases hkind : entry.kind <;> simp [add, addDeviceCode, Item.type?, hkind]
      | block => simp [add, Item.type?]

theorem not_bars_iff (htype : item.type? = none) :
    ¬base.Bars item ↔ (∀ own ∈ item.key?, base.map.keys.contains own.1 = false) ∧
      ∀ kind, ∀ own ∈ item.device? kind, (base.deviceTable kind).contains own.1 = false := by
  cases item with
  | type => contradiction
  | entry entry => simp [Bars, Item.key?, Item.device?]
  | block code statements => simp [Bars, Item.key?, Item.device?]

theorem apart_iff {first second : Draft} :
    first.map.Apart second.map ↔ first.map.keys.Disjoint second.map.keys ∧
      ∀ kind, (first.deviceTable kind).Disjoint (second.deviceTable kind) := by
  constructor
  · rintro ⟨hkeys, hscan, husage⟩
    refine ⟨hkeys, fun kind => ?_⟩
    cases kind
    · exact hscan
    · exact husage
  · exact fun ⟨hkeys, hdevices⟩ => ⟨hkeys, hdevices .scan, hdevices .usage⟩

/-- What an overlay declares may be added to a draft if it declares none of it. -/
theorem admitsAll_iff_apart (hfitting : ∀ item ∈ items, item.Fitting .overlay)
    (hpairs : items.Pairwise fun first second => ¬first.Bars second) :
    base.AdmitsAll format items ↔ base.map.Apart (items.foldl add (ofName name)).map := by
  have hbars : (∀ item ∈ items, ¬base.Bars item) ↔
      (∀ own ∈ items.filterMap Item.key?, base.map.keys.contains own.1 = false) ∧
        ∀ kind, ∀ own ∈ items.filterMap (Item.device? kind),
          (base.deviceTable kind).contains own.1 = false := by
    simp only [List.mem_filterMap]
    constructor
    · intro hall
      have hitem := fun item hmem =>
        (not_bars_iff (Item.fitting_overlay_iff.mp (hfitting item hmem)).2).mp (hall item hmem)
      constructor
      · rintro own ⟨item, hmem, hown⟩
        exact (hitem item hmem).1 own hown
      · rintro kind own ⟨item, hmem, hown⟩
        exact (hitem item hmem).2 kind own hown
    · rintro ⟨hkeys, hdevices⟩ item hmem
      exact (not_bars_iff (Item.fitting_overlay_iff.mp (hfitting item hmem)).2).mpr
        ⟨fun own hown => hkeys own ⟨item, hmem, hown⟩,
          fun kind own hown => hdevices kind own ⟨item, hmem, hown⟩⟩
  rw [admitsAll_iff, apart_iff]
  simp only [Table.disjoint_iff, entries_keys_foldl_add hpairs,
    entries_deviceTable_foldl_add hpairs, ← hbars]
  constructor
  · rintro ⟨hall, -⟩ item hitem
    exact (hall item hitem).2
  · intro hall
    exact ⟨fun item hitem => ⟨(hfitting item hitem).of_overlay format, hall item hitem⟩, hpairs⟩

section Overlay

variable {lines : List TokenLine} {overlay last : Draft}

/-- Lines that are read as an overlay and also after a draft declare the same both times. -/
theorem exists_overlay_items
    (hoverlay : Collects .overlay (ofName name) (Symbol.ofLines lines) overlay)
    (hlast : Collects format base (Symbol.ofLines lines) last) :
    ∃ items, (∀ item ∈ items, item.Fitting .overlay) ∧
      items.Pairwise (fun first second => ¬first.Bars second) ∧
        overlay = items.foldl add (ofName name) ∧ base.AdmitsAll format items ∧
          last = items.foldl add base := by
  obtain ⟨own, hown, hownAdmits, rfl⟩ := hoverlay
  obtain ⟨items, hitems, hadmits, rfl⟩ := hlast
  obtain ⟨hownFitting, hownPairs⟩ := admitsAll_ofName_iff.mp hownAdmits
  obtain ⟨hfitting, hpairs⟩ := admitsAll_iff.mp hadmits
  -- whatever format both are read in, the same lines lead to the same draft
  have hownAny : Collects .any (ofName name) (Symbol.ofLines lines) (own.foldl add (ofName name)) :=
    ⟨own, hown, admitsAll_ofName_iff.mpr
      ⟨fun item hitem => (hownFitting item hitem).any, hownPairs⟩, rfl⟩
  have hany : Collects .any (ofName name) (Symbol.ofLines lines) (items.foldl add (ofName name)) :=
    ⟨items, hitems, admitsAll_ofName_iff.mpr
      ⟨fun item hitem => (hfitting item hitem).1.any, hpairs⟩, rfl⟩
  have hsame : own.foldl add (ofName name) = items.foldl add (ofName name) :=
    hownAny.unique rfl hany
  have htyped : (own.foldl add (ofName name)).typeDeclared = false :=
    typeDeclared_foldl_add.mpr
      ⟨rfl, fun item hitem => (Item.fitting_overlay_iff.mp (hownFitting item hitem)).2⟩
  rw [hsame, typeDeclared_foldl_add] at htyped
  refine ⟨items, fun item hitem => ?_, hpairs, hsame, hadmits, rfl⟩
  exact Item.fitting_overlay_iff.mpr ⟨(hfitting item hitem).1.any, htyped.2 item hitem⟩

theorem exists_collects_iff_apart
    (hoverlay : Collects .overlay (ofName name) (Symbol.ofLines lines) overlay) :
    (∃ last, Collects format base (Symbol.ofLines lines) last) ↔
      base.map.Apart overlay.map := by
  constructor
  · rintro ⟨last, hlast⟩
    obtain ⟨items, hfitting, hpairs, rfl, hadmits, -⟩ := exists_overlay_items hoverlay hlast
    exact (admitsAll_iff_apart hfitting hpairs).mp hadmits
  · obtain ⟨items, hitems, hadmits, rfl⟩ := hoverlay
    obtain ⟨hfitting, hpairs⟩ := admitsAll_ofName_iff.mp hadmits
    exact fun hapart =>
      ⟨_, items, hitems, (admitsAll_iff_apart hfitting hpairs).mpr hapart, rfl⟩

theorem map_of_collects
    (hoverlay : Collects .overlay (ofName name) (Symbol.ofLines lines) overlay)
    (hlast : Collects format base (Symbol.ofLines lines) last) :
    last.map = { base.map with
      keys := base.map.keys.override overlay.map.keys
      scanCodes := base.map.scanCodes.override overlay.map.scanCodes
      usageCodes := base.map.usageCodes.override overlay.map.usageCodes } := by
  obtain ⟨items, hfitting, hpairs, rfl, -, rfl⟩ := exists_overlay_items hoverlay hlast
  have htypes : items.filterMap Item.type? = [] :=
    List.filterMap_eq_nil_iff.mpr fun item hitem =>
      (Item.fitting_overlay_iff.mp (hfitting item hitem)).2
  have hscan : (items.foldl add (ofName name)).map.scanCodes.entries = _ :=
    entries_deviceTable_foldl_add hpairs .scan
  have husage : (items.foldl add (ofName name)).map.usageCodes.entries = _ :=
    entries_deviceTable_foldl_add hpairs .usage
  simp only [Table.override, entries_keys_foldl_add hpairs, hscan, husage]
  rw [map_foldl_add, htypes]
  rfl

/-- A text declares neither a remapping nor an overlay. -/
theorem Collects.map_eq (hlast : Collects format (ofName name) (Symbol.ofLines lines) last) :
    last.map.name = name ∧ last.map.remapping = .empty ∧ last.map.overlaid = false := by
  obtain ⟨items, -, -, rfl⟩ := hlast
  rw [map_foldl_add]
  exact ⟨rfl, rfl, rfl⟩

end Overlay

end Draft

namespace KeyMap

variable {name text first second : Text} {format : Format} {map base overlay : KeyMap}

theorem ofText_eq_ok_iff_typed :
    (ofText name text format).outcome = .ok map ↔
      ∃ lines draft, TokenLine.ofText name text = .ok lines ∧
        Draft.Collects format (.ofName name) (Symbol.ofLines lines) draft ∧
          map = { draft.map with
            type := if format = .overlay then .overlay else draft.map.type } := by
  have htyped (own : KeyMap) : (if format = .overlay then { own with type := .overlay } else own) =
      { own with type := if format = .overlay then .overlay else own.type } := by
    split <;> rfl
  simp only [ofText_eq_ok_iff_collects, htyped]

theorem name_of_ofText (hmap : (ofText name text format).outcome = .ok map) :
    map.name = name := by
  obtain ⟨lines, draft, -, hdraft, rfl⟩ := ofText_eq_ok_iff_typed.mp hmap
  exact hdraft.map_eq.1

theorem overlaid_of_ofText (hmap : (ofText name text format).outcome = .ok map) :
    map.overlaid = false := by
  obtain ⟨lines, draft, -, hdraft, rfl⟩ := ofText_eq_ok_iff_typed.mp hmap
  exact hdraft.map_eq.2.2

/-- Where the first lines lead to a draft, the whole text is read if the others are read on
from there. -/
theorem ofText_eq_ok_iff_after {lines others : List TokenLine} {draft : Draft}
    (hlines : TokenLine.ofText name text = .ok (lines ++ others))
    (hdraft : Draft.Collects format (.ofName name) (Symbol.ofLines lines) draft) :
    (ofText name text format).outcome = .ok map ↔
      ∃ last, Draft.Collects format draft (Symbol.ofLines others) last ∧
        map = { last.map with
          type := if format = .overlay then .overlay else last.map.type } := by
  have hfilled := TokenLine.filled_of_ofLines hlines
  rw [ofText_eq_ok_iff_typed]
  constructor
  · rintro ⟨own, last, hown, hlast, hmap⟩
    obtain rfl := Except.ok.inj (hlines.symm.trans hown)
    exact ⟨last, (Draft.collects_append_iff rfl hfilled hdraft).mp hlast, hmap⟩
  · rintro ⟨last, hlast, hmap⟩
    exact ⟨lines ++ others, last, hlines,
      (Draft.collects_append_iff rfl hfilled hdraft).mpr hlast, hmap⟩

/-- A text with an overlay text behind it is read exactly if the overlay declares no block
and no device code that the first one declares, and then its map is the one of the first
text with that of the overlay written over it. -/
theorem ofText_append (hbase : (ofText name first format).outcome = .ok base)
    (hoverlay : (ofText name second .overlay).outcome = .ok overlay) :
    ((∃ map, (ofText name (first ++ .scalar '\n' :: second) format).outcome = .ok map) ↔
      base.Apart overlay) ∧
    ∀ map, (ofText name (first ++ .scalar '\n' :: second) format).outcome = .ok map →
      map.type = base.type ∧
      map.keys.entries = base.keys.entries ++ overlay.keys.entries ∧
      map.scanCodes.entries = base.scanCodes.entries ++ overlay.scanCodes.entries ∧
      map.usageCodes.entries = base.usageCodes.entries ++ overlay.usageCodes.entries ∧
      map = { base.combine overlay with overlaid := false } := by
  obtain ⟨lines, draft, hlines, hdraft, rfl⟩ := ofText_eq_ok_iff_typed.mp hbase
  obtain ⟨others, added, hothers, hadded, rfl⟩ := ofText_eq_ok_iff_typed.mp hoverlay
  obtain ⟨moved, hjoined, htokens⟩ := TokenLine.exists_ofText_append hlines hothers
  rw [← Symbol.ofLines_congr htokens] at hadded
  have hapart : (∃ last, Draft.Collects format draft (Symbol.ofLines moved) last) ↔
      draft.map.Apart added.map := Draft.exists_collects_iff_apart hadded
  simp only [ofText_eq_ok_iff_after hjoined hdraft]
  refine ⟨⟨?_, ?_⟩, ?_⟩
  · rintro ⟨map, last, hlast, -⟩
    obtain ⟨hkeys, hscan, husage⟩ := hapart.mp ⟨last, hlast⟩
    exact ⟨hkeys, hscan, husage⟩
  · rintro ⟨hkeys, hscan, husage⟩
    obtain ⟨last, hlast⟩ := hapart.mpr ⟨hkeys, hscan, husage⟩
    exact ⟨_, last, hlast, rfl⟩
  · rintro map ⟨last, hlast, rfl⟩
    obtain ⟨hkeys, hscan, husage⟩ := hapart.mp ⟨last, hlast⟩
    obtain ⟨-, hremapping, hoverlaid⟩ := hdraft.map_eq
    obtain ⟨-, hnone, -⟩ := hadded.map_eq
    rw [Draft.map_of_collects hadded hlast]
    refine ⟨rfl, hkeys.entries_override, hscan.entries_override, husage.entries_override, ?_⟩
    simp only [combine, hremapping, hnone, hoverlaid]
    rfl

/-! A pad of one key, and an overlay that adds another key to it. -/

def pad : KeyMap where
  name := "pad"
  type := .alpha
  keys := ⟨[(3, { label := some (.scalar 'H'), behaviors := [{ mask := 1 }] })], by decide⟩

def padText : Text := "type ALPHA\nkey HOME \x7b label: 'H'; shift: none \x7d"

def padLines : List TokenLine :=
  [⟨1, [.word "type", .word "ALPHA"]⟩,
    ⟨2, [.word "key", .word "HOME", .punctuation .openBrace, .word "label", .punctuation .colon,
      .literal "'H'", .punctuation .semicolon, .word "shift", .punctuation .colon, .word "none",
      .punctuation .closeBrace]⟩]

def padItems : List Item :=
  [.type .alpha, .block 3 [⟨[.label], ⟨some (some (.scalar 'H')), none⟩⟩,
    ⟨[.mask 1], ⟨some none, none⟩⟩]]

def backOverlay : KeyMap where
  name := "pad"
  type := .overlay
  keys := ⟨[(4, { behaviors := [{ character := some (.scalar 'b'), fallback := some 3 }] })],
    by decide⟩
  scanCodes := ⟨[(158, 4)], by decide⟩

def backText : Text := "map key 158 BACK \x7b\n : 'b' fallback HOME\n\x7d"

def backLines : List TokenLine :=
  [⟨1, [.word "map", .word "key", .word "158", .word "BACK", .punctuation .openBrace]⟩,
    ⟨2, [.punctuation .colon, .literal "'b'", .word "fallback", .word "HOME"]⟩,
    ⟨3, [.punctuation .closeBrace]⟩]

def backItems : List Item :=
  [.entry ⟨.scan, 158, 4⟩,
    .block 4 [⟨[.mask 0], ⟨some (some (.scalar 'b')), some ⟨.fallback, 3⟩⟩⟩]]

theorem derives_of_gives {token : Token} {point : Option CodePoint} (hgives : token.Gives point) :
    Value.Derives [token] ⟨some point, none⟩ :=
  @Value.Derives.parts _ [.character point] (.cons (.character hgives) .nil) (by simp)
    (Nat.le_refl 1) (Nat.zero_le 1)

theorem ofLabel?_home : KeyCode.ofLabel? "HOME" = some 3 := by
  rw [KeyCode.ofLabel?, KeyCode.labels, List.map_toArray, List.findIdx?_toArray]
  decide +kernel

theorem ofLabel?_back : KeyCode.ofLabel? "BACK" = some 4 := by
  rw [KeyCode.ofLabel?, KeyCode.labels, List.map_toArray, List.findIdx?_toArray]
  decide +kernel

theorem ofText_pad : (ofText "pad" padText .base).outcome = .ok pad := by
  have hlabel : Value.Derives [.literal "'H'"] ⟨some (some (.scalar 'H')), none⟩ :=
    derives_of_gives (.literal rfl)
  have hnone : Value.Derives [.word "none"] ⟨some none, none⟩ := derives_of_gives .none
  have hshift : MetaState.parse "shift" = .ok 1 := by rfl
  have hblock := Item.Derives.block ofLabel?_home <|
    .braces <| .cons (.colon (.single .label) hlabel) .semicolon <|
      .last (.colon (.single (.mask hshift)) hnone)
  have htype := Item.Derives.type (show KeyboardType.ofName? "ALPHA" = some .alpha from rfl)
  have hitems : Item.DerivesAll (Symbol.ofLines padLines) padItems :=
    .cons htype (.cons hblock .nil)
  have hfitting : ∀ item ∈ padItems, item.Fitting .base := by
    simp only [padItems, List.forall_mem_cons]
    refine ⟨⟨by decide, by decide, by decide⟩, ⟨by decide, by decide, ?_⟩, by simp⟩
    simp [Statement.settings]
  have hpairs : padItems.Pairwise fun first second => ¬first.Bars second := by
    simp [padItems, Item.Bars]
  exact ofText_eq_ok_iff_typed.mpr ⟨padLines, _, by with_unfolding_all rfl,
    ⟨padItems, hitems, Draft.admitsAll_ofName_iff.mpr ⟨hfitting, hpairs⟩, rfl⟩, by decide +kernel⟩

theorem ofText_back : (ofText "pad" backText .overlay).outcome = .ok backOverlay := by
  have hvalue : Value.Derives [.literal "'b'", .word "fallback", .word "HOME"]
      ⟨some (some (.scalar 'b')), some ⟨.fallback, 3⟩⟩ :=
    @Value.Derives.parts _ [.character (some (.scalar 'b')), .target ⟨.fallback, 3⟩]
      (.cons (.character (.literal rfl)) (.cons (.fallback ofLabel?_home) .nil)) (by simp)
      (by decide) (by decide)
  have hentry : DeviceEntry.Derives [.word "map", .word "key", .word "158", .word "BACK"]
      ⟨.scan, 158, 4⟩ := .scan (by rfl) ofLabel?_back
  have hitems : Item.DerivesAll (Symbol.ofLines backLines) backItems :=
    .cons (.entryBlock hentry <| .braces <| .skip .lineEnd <|
      .cons (.bare hvalue) .lineEnd .nil) .nil
  have hfitting : ∀ item ∈ backItems, item.Fitting .overlay := by
    simp only [backItems, List.forall_mem_cons]
    refine ⟨trivial, ⟨by decide, by decide, ?_⟩, by simp⟩
    simp [Statement.settings]
  have hpairs : backItems.Pairwise fun first second => ¬first.Bars second := by
    simp [backItems, Item.Bars]
  exact ofText_eq_ok_iff_typed.mpr ⟨backLines, _, by with_unfolding_all rfl,
    ⟨backItems, hitems, Draft.admitsAll_ofName_iff.mpr ⟨hfitting, hpairs⟩, rfl⟩, by decide +kernel⟩

theorem ofText_append_pad :
    (ofText "pad" padText .base).outcome = .ok pad ∧
      (ofText "pad" backText .overlay).outcome = .ok backOverlay ∧ pad.Apart backOverlay ∧
        (ofText "pad" (padText ++ .scalar '\n' :: backText) .base).outcome =
          .ok { pad.combine backOverlay with overlaid := false } := by
  have hapart : pad.Apart backOverlay := ⟨by decide, by decide, by decide⟩
  obtain ⟨hread, hmap⟩ := ofText_append ofText_pad ofText_back
  obtain ⟨map, hok⟩ := hread.mpr hapart
  obtain ⟨-, -, -, -, rfl⟩ := hmap map hok
  exact ⟨ofText_pad, ofText_back, hapart, hok⟩

end KeyMap

end KeyLayout
