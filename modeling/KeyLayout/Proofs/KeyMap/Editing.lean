import KeyLayout.KeyMap.Editing
import KeyLayout.Proofs.Grammar.Joining
import KeyLayout.Proofs.Outcome

namespace KeyLayout

/-! A key map that is edited holds what was written over its layout since the layout was
last read. -/

theorem KeyMap.outcome_clearOverlay (map : KeyMap) (source : Text → Except SourceError Text) :
    (map.clearOverlay source).outcome =
      if map.overlaid then
        match source map.name with
        | .error error =>
            .error (if error.isUnavailable then .unavailable map.name else .source error)
        | .ok text => (ofText map.name text .base).outcome.mapError .parse
      else
        .ok map := by
  rw [clearOverlay]
  split
  next =>
    cases source map.name with
    | error => rfl
    | ok text =>
        dsimp only
        rw [Report.outcome_bind, Report.mapError]
        cases (ofText map.name text .base).outcome <;> rfl
  next => rfl

namespace Edit

variable {map : KeyMap} {edit : Edit} {error : EditError}

/-- Editing in place is what the map's own operations make of it. -/
def outcome (map : KeyMap) : Edit → Except EditError KeyMap
  | .remap source target => (map.addRemapping source target).mapError .remapping
  | .combine overlay => .ok (map.combine overlay)
  | .clear source => (map.clearOverlay source).outcome.mapError .clearing

theorem run_reload (source : Text → Except SourceError Text) (name : Text) :
    (Editing.reload source name).run.run map =
      match source name with
      | .error error =>
          (.error (.clearing (if error.isUnavailable then .unavailable name else .source error)), map)
      | .ok text =>
          match (KeyMap.ofText name text .base).outcome with
          | .error error => (.error (.clearing (.parse error)), map)
          | .ok reloaded => (.ok (), reloaded) := by
  rw [Editing.reload]
  cases source name with
  | error => rfl
  | ok text =>
      dsimp only
      cases (KeyMap.ofText name text .base).outcome with
      | error => rfl
      | ok reloaded => rfl

theorem result_clear (source : Text → Except SourceError Text) :
    (clear source).result map =
      if map.overlaid then (Editing.reload source map.name).run.run map else (.ok (), map) := by
  change (if map.overlaid then Editing.reload source map.name else pure () : Editing Unit).run.run
    map = _
  split <;> rfl

theorem result_eq_of_outcome :
    edit.result map =
      match edit.outcome map with
      | .ok new => (.ok (), new)
      | .error error => (.error error, map) := by
  cases edit with
  | remap source target =>
      rw [outcome, KeyMap.addRemapping, result, perform, Editing.remap]
      split <;> rfl
  | combine overlay => rfl
  | clear source =>
      rw [outcome, KeyMap.outcome_clearOverlay, result_clear]
      split
      next =>
        rw [run_reload]
        cases source map.name with
        | error => rfl
        | ok text =>
            dsimp only
            cases (KeyMap.ofText map.name text .base).outcome <;> rfl
      next => rfl

section Clear

variable {source : Text → Except SourceError Text}

theorem outcome_clear_of_plain (hplain : map.overlaid = false) :
    (clear source).outcome map = .ok map := by
  rw [outcome, KeyMap.outcome_clearOverlay, hplain]
  rfl

theorem outcome_clear_of_error {fault : SourceError} (hoverlaid : map.overlaid = true)
    (hsource : source map.name = .error fault) :
    (clear source).outcome map =
      .error (.clearing (if fault.isUnavailable then .unavailable map.name else .source fault)) := by
  rw [outcome, KeyMap.outcome_clearOverlay, if_pos hoverlaid, hsource]
  rfl

theorem outcome_clear_of_text {text : Text} (hoverlaid : map.overlaid = true)
    (hsource : source map.name = .ok text) :
    (clear source).outcome map =
      (KeyMap.ofText map.name text .base).outcome.mapError fun error =>
        .clearing (.parse error) := by
  rw [outcome, KeyMap.outcome_clearOverlay, if_pos hoverlaid, hsource]
  dsimp only
  cases (KeyMap.ofText map.name text .base).outcome <;> rfl

/-- A clear changes nothing or reads the layout anew. -/
theorem of_outcome_clear {new : KeyMap} (houtcome : (clear source).outcome map = .ok new) :
    new = map ∨ ∃ text, (KeyMap.ofText map.name text .base).outcome = .ok new := by
  cases hoverlaid : map.overlaid with
  | false =>
      rw [outcome_clear_of_plain hoverlaid] at houtcome
      cases houtcome
      exact .inl rfl
  | true =>
      cases hsource : source map.name with
      | error fault =>
          rw [outcome_clear_of_error hoverlaid hsource] at houtcome
          contradiction
      | ok text =>
          rw [outcome_clear_of_text hoverlaid hsource] at houtcome
          exact .inr ⟨text, mapError_eq_ok_iff.mp houtcome⟩

end Clear

/-- When an edit fails, and how. -/
inductive Fails (map : KeyMap) : Edit → EditError → Prop
  | range {source target : KeyCode} (hrange : ¬(source.InRange ∧ target.InRange)) :
      Fails map (.remap source target) (.remapping ⟨source, target⟩)
  | unavailable {source : Text → Except SourceError Text} {error : SourceError}
      (hoverlaid : map.overlaid = true) (hsource : source map.name = .error error)
      (hgone : error.isUnavailable = true) :
      Fails map (.clear source) (.clearing (.unavailable map.name))
  | source {source : Text → Except SourceError Text} {error : SourceError}
      (hoverlaid : map.overlaid = true) (hsource : source map.name = .error error)
      (hthere : error.isUnavailable = false) : Fails map (.clear source) (.clearing (.source error))
  | parse {source : Text → Except SourceError Text} {text : Text} {error : ParseError}
      (hoverlaid : map.overlaid = true) (hsource : source map.name = .ok text)
      (hparse : (KeyMap.ofText map.name text .base).outcome = .error error) :
      Fails map (.clear source) (.clearing (.parse error))

theorem outcome_eq_error_iff : edit.outcome map = .error error ↔ edit.Fails map error := by
  constructor
  · intro houtcome
    cases edit with
    | remap source target =>
        rw [outcome, KeyMap.addRemapping] at houtcome
        split at houtcome
        next => contradiction
        next hrange =>
          cases houtcome
          exact .range hrange
    | combine overlay => contradiction
    | clear source =>
        cases hoverlaid : map.overlaid with
        | false =>
            rw [outcome_clear_of_plain hoverlaid] at houtcome
            contradiction
        | true =>
            cases hsource : source map.name with
            | error fault =>
                rw [outcome_clear_of_error hoverlaid hsource] at houtcome
                cases hgone : fault.isUnavailable with
                | true =>
                    rw [hgone] at houtcome
                    cases houtcome
                    exact .unavailable hoverlaid hsource hgone
                | false =>
                    rw [hgone] at houtcome
                    cases houtcome
                    exact .source hoverlaid hsource hgone
            | ok text =>
                rw [outcome_clear_of_text hoverlaid hsource, mapError_eq_error_iff] at houtcome
                obtain ⟨fault, hparse, rfl⟩ := houtcome
                exact .parse hoverlaid hsource hparse
  · intro hfails
    cases hfails with
    | range hrange =>
        rw [outcome, KeyMap.addRemapping, if_neg hrange]
        rfl
    | unavailable hoverlaid hsource hgone =>
        rw [outcome_clear_of_error hoverlaid hsource, if_pos hgone]
    | source hoverlaid hsource hthere =>
        rw [outcome_clear_of_error hoverlaid hsource, hthere]
        rfl
    | parse hoverlaid hsource hparse =>
        rw [outcome_clear_of_text hoverlaid hsource, hparse]
        rfl

theorem result_error_iff : (edit.result map).1 = .error error ↔ edit.Fails map error := by
  rw [result_eq_of_outcome, ← outcome_eq_error_iff]
  cases edit.outcome map <;> simp

theorem Fails.result_eq (hfails : edit.Fails map error) :
    edit.result map = (.error error, map) := by
  rw [result_eq_of_outcome, outcome_eq_error_iff.mpr hfails]

end Edit

/-- What is behind an edited map: its layout as it was last read, and the edits that have
written over it since, the oldest first. -/
structure History where
  loaded : KeyMap
  writes : List Edit := []

namespace Edit

/-- What a combined overlay writes into one of the tables. -/
def written? {κ ν : Type} [DecidableEq κ] (table : KeyMap → Table κ ν) (key : κ) :
    Edit → Option ν
  | .combine overlay => (table overlay).get? key
  | _ => none

/-- What an edit writes into the remapping. -/
def target? (code : KeyCode) : Edit → Option KeyCode
  | .remap source target => if code = source then some target else none
  | edit => edit.written? KeyMap.remapping code

end Edit

namespace History

/-- The last value that was written, or else the one that was loaded. -/
def latest {ν : Type} (history : History) (written? : Edit → Option ν)
    (loaded? : KeyMap → Option ν) : Option ν :=
  (history.writes.filterMap written?).getLast?.or (loaded? history.loaded)

def write (history : History) (edit : Edit) : History :=
  { history with writes := history.writes ++ [edit] }

/-- An overlay is among what was written. -/
def combined (history : History) : Bool :=
  history.writes.any fun
    | .combine _ => true
    | _ => false

/-- The layout as the source has it now, if it is there and can be read. -/
def reloaded? (history : History) (source : Text → Except SourceError Text) : Option KeyMap :=
  match source history.loaded.name with
  | .error _ => none
  | .ok text => (KeyMap.ofText history.loaded.name text .base).outcome.toOption

/-- Codes in range and overlays are written, and a clear after an overlay starts anew. -/
def next (history : History) : Edit → History
  | .remap source target =>
      if source.InRange ∧ target.InRange then history.write (.remap source target) else history
  | .combine overlay => history.write (.combine overlay)
  | .clear source =>
      if history.combined then ((history.reloaded? source).map fun map => ⟨map, []⟩).getD history
      else history

def ofEdits (loaded : KeyMap) (edits : List Edit) : History :=
  edits.foldl next ⟨loaded, []⟩

variable {history : History} {edit : Edit} {ν : Type} {written? : Edit → Option ν}
  {loaded? : KeyMap → Option ν}

theorem latest_write :
    (history.write edit).latest written? loaded? =
      (written? edit).or (history.latest written? loaded?) := by
  rw [latest, latest, write, List.filterMap_append, List.getLast?_append]
  cases h : written? edit <;> simp [h]

end History

/-- The map is what its history makes of it. -/
structure KeyMap.Follows (map : KeyMap) (name : Text) (history : History) : Prop where
  loaded : ∃ text, (ofText name text .base).outcome = .ok history.loaded
  name : map.name = name
  type : map.type = history.loaded.type
  overlaid : map.overlaid = history.combined
  keys : ∀ code, map.keys.get? code =
    history.latest (Edit.written? KeyMap.keys code) (·.keys.get? code)
  scanCodes : ∀ device, map.scanCodes.get? device =
    history.latest (Edit.written? KeyMap.scanCodes device) (·.scanCodes.get? device)
  usageCodes : ∀ device, map.usageCodes.get? device =
    history.latest (Edit.written? KeyMap.usageCodes device) (·.usageCodes.get? device)
  remapping : ∀ code, map.remapping.get? code =
    history.latest (Edit.target? code) (·.remapping.get? code)

namespace KeyMap.Follows

variable {map base loaded : KeyMap} {name text : Text} {history : History}

theorem of_ofText (hbase : (ofText name text .base).outcome = .ok base) :
    base.Follows name ⟨base, []⟩ where
  loaded := ⟨text, hbase⟩
  name := name_of_ofText hbase
  type := rfl
  overlaid := overlaid_of_ofText hbase
  keys _ := rfl
  scanCodes _ := rfl
  usageCodes _ := rfl
  remapping _ := rfl

theorem remap (hfollows : map.Follows name history) (source target : KeyCode) :
    { map with remapping := map.remapping.insert source target }.Follows name
      (history.write (.remap source target)) where
  loaded := hfollows.loaded
  name := hfollows.name
  type := hfollows.type
  overlaid := by simp [hfollows.overlaid, History.combined, History.write]
  keys code := by rw [History.latest_write, hfollows.keys]; rfl
  scanCodes device := by rw [History.latest_write, hfollows.scanCodes]; rfl
  usageCodes device := by rw [History.latest_write, hfollows.usageCodes]; rfl
  remapping code := by
    rw [Table.get?_insert, History.latest_write, hfollows.remapping, Edit.target?]
    split <;> rfl

theorem combine (hfollows : map.Follows name history) (overlay : KeyMap) :
    (map.combine overlay).Follows name (history.write (.combine overlay)) where
  loaded := hfollows.loaded
  name := hfollows.name
  type := hfollows.type
  overlaid := by simp [KeyMap.combine, History.combined, History.write]
  keys code := by
    rw [KeyMap.combine, Table.get?_override, hfollows.keys, History.latest_write]; rfl
  scanCodes device := by
    rw [KeyMap.combine, Table.get?_override, hfollows.scanCodes, History.latest_write]; rfl
  usageCodes device := by
    rw [KeyMap.combine, Table.get?_override, hfollows.usageCodes, History.latest_write]; rfl
  remapping code := by
    rw [KeyMap.combine, Table.get?_override, hfollows.remapping, History.latest_write]; rfl

theorem clear (hfollows : map.Follows name history) (source : Text → Except SourceError Text) :
    ((Edit.clear source).after map).Follows name (history.next (.clear source)) := by
  obtain ⟨text, hloaded⟩ := hfollows.loaded
  have hname : history.loaded.name = map.name := (name_of_ofText hloaded).trans hfollows.name.symm
  rw [Edit.after, Edit.result_eq_of_outcome, History.next, ← hfollows.overlaid]
  cases hoverlaid : map.overlaid with
  | false =>
      rw [Edit.outcome_clear_of_plain hoverlaid]
      exact hfollows
  | true =>
      rw [if_pos rfl, History.reloaded?, hname]
      cases hsource : source map.name with
      | error fault =>
          rw [Edit.outcome_clear_of_error hoverlaid hsource]
          exact hfollows
      | ok text =>
          rw [Edit.outcome_clear_of_text hoverlaid hsource]
          dsimp only
          cases hparse : (ofText map.name text .base).outcome with
          | error error => exact hfollows
          | ok reloaded =>
              rw [hfollows.name] at hparse
              exact of_ofText hparse

theorem next (hfollows : map.Follows name history) (edit : Edit) :
    (edit.after map).Follows name (history.next edit) := by
  cases edit with
  | remap source target =>
      rw [Edit.after, Edit.result_eq_of_outcome, Edit.outcome, addRemapping, History.next]
      by_cases hrange : source.InRange ∧ target.InRange
      · rw [if_pos hrange, if_pos hrange]
        exact hfollows.remap source target
      · rw [if_neg hrange, if_neg hrange]
        exact hfollows
  | combine overlay => exact hfollows.combine overlay
  | clear source => exact hfollows.clear source

theorem edited (hfollows : map.Follows name history) (edits : List Edit) :
    (map.edited edits).Follows name (edits.foldl History.next history) := by
  induction edits generalizing map history with
  | nil => exact hfollows
  | cons edit rest ih => exact ih (hfollows.next edit)

end KeyMap.Follows

/-- After any edits a map is what was last loaded with what was written since, and an edit
that fails, or that clears where nothing was combined, leaves it as it is. -/
theorem KeyMap.edited_follows {name text : Text} {base : KeyMap}
    (hbase : (ofText name text .base).outcome = .ok base) (edits : List Edit) :
    (base.edited edits).Follows name (.ofEdits base edits) ∧
      (∀ source, (History.ofEdits base edits).combined = false →
        (Edit.clear source).result (base.edited edits) = (.ok (), base.edited edits)) ∧
      ∀ (edit : Edit) (error : EditError),
        ((edit.result (base.edited edits)).1 = .error error ↔
          edit.Fails (base.edited edits) error) ∧
        (edit.Fails (base.edited edits) error →
          edit.result (base.edited edits) = (.error error, base.edited edits)) := by
  have hfollows := (Follows.of_ofText hbase).edited edits
  refine ⟨hfollows, fun source hcombined => ?_, fun edit error => ?_⟩
  · rw [Edit.result_clear, hfollows.overlaid]
    exact if_neg (ne_true_of_eq_false hcombined)
  · exact ⟨Edit.result_error_iff, Edit.Fails.result_eq⟩

namespace KeyMap

/-- A reload that fails, and one that takes a remapping and an overlay off again. -/
def padEdits : List Edit :=
  [.remap 3 4, .combine backOverlay, .clear fun name => .error (.missing name),
    .clear fun _ => .ok padText, .remap 4 3]

theorem ofEdits_pad : History.ofEdits pad padEdits = ⟨pad, [.remap 4 3]⟩ := by
  have hreloaded : (⟨pad, [.remap 3 4, .combine backOverlay]⟩ : History).reloaded?
      (fun _ => .ok padText) = some pad := by
    change (ofText "pad" padText .base).outcome.toOption = some pad
    rw [ofText_pad]
    rfl
  have hnext : (⟨pad, [.remap 3 4, .combine backOverlay]⟩ : History).next
      (.clear fun _ => .ok padText) = ⟨pad, []⟩ := by
    rw [History.next, hreloaded]
    rfl
  change (History.next ⟨pad, [.remap 3 4, .combine backOverlay]⟩
    (.clear fun _ => .ok padText)).next (.remap 4 3) = _
  rw [hnext]
  rfl

theorem edited_follows_pad :
    (ofText "pad" padText .base).outcome = .ok pad ∧
      (pad.edited padEdits).overlaid = false ∧ (pad.edited padEdits).keys.get? 4 = none ∧
        (pad.edited padEdits).remapping.get? 3 = none ∧
          (pad.edited padEdits).remapping.get? 4 = some 3 ∧
            (Edit.remap 4 8192).result (pad.edited padEdits) =
              (.error (.remapping ⟨4, 8192⟩), pad.edited padEdits) := by
  obtain ⟨hfollows, -, hfails⟩ := edited_follows ofText_pad padEdits
  rw [ofEdits_pad] at hfollows
  exact ⟨ofText_pad, hfollows.overlaid, hfollows.keys 4, hfollows.remapping 3,
    hfollows.remapping 4, (hfails _ _).2 (.range (by decide))⟩

end KeyMap

end KeyLayout
