import KeyLayout.Proofs.Json.Ascii
import KeyLayout.Proofs.Loading
import KeyLayout.Proofs.Outcome
import KeyLayout.Proofs.Typing.Run
import KeyLayout.Tool.Type

namespace KeyLayout

/-! A run of the typing tool prints all events of the text, or none and what is wrong. -/

namespace TypeRequest

variable {files : Files Id} {request : TypeRequest} {start begun : Start}
  {choice : LayoutChoice} {error : ToolError} {output : Text}

/-- Where typing starts without the overrides: one layout with nothing held or locked, or
the configured map with the device and the meta state of the settings. -/
inductive Starts (files : Files Id) : LayoutChoice → Start → Prop
  | layout {path : Path} {text : Text} {map : KeyMap}
      (htext : (files.status path).readText path = .ok text)
      (hmap : (KeyMap.ofText path.toText text .base).outcome = .ok map) :
      Starts files (.layout path) ⟨map, 0, 0⟩
  | settings {path : Path} {text : Text} {settings : Settings} {map : KeyMap}
      {state : MetaState} (htext : (files.status path).readText path = .ok text)
      (hsettings : Settings.ofText text = .ok settings)
      (hmap : (KeyMap.configured (settings.directories.read files) settings).report.outcome =
        .ok map)
      (hstate : MetaState.parse settings.metaState = .ok state) :
      Starts files (.settings path) ⟨map, settings.deviceId, state⟩

/-- What is given in the request comes before what the settings say. -/
structure Begins (request : TypeRequest) (start begun : Start) : Prop where
  map : begun.map = start.map
  deviceId : begun.deviceId = request.deviceId.getD start.deviceId
  state : request.metaState = .absent ∧ begun.state = start.state ∨
    ∃ text, request.metaState = .value text ∧ MetaState.parse text = .ok begun.state

/-- The output consists of the events that type the text, a line for each. -/
def Types (files : Files Id) (request : TypeRequest) (output : Text) : Prop :=
  ∃ start begun events, Starts files request.choice start ∧ request.Begins start begun ∧
    begun.map.synthesize begun.deviceId request.text begun.state = .ok events ∧
      output = events.flatMap eventLine

/-- What no run prints but fails with: settings that are too deep, no object or unfit, and
options that name nothing. -/
inductive Escapes (files : Files Id) (request : TypeRequest) : ToolError → Prop
  | unfit {path : Path} {text : Text} {error : SettingsError}
      (hchoice : request.choice = .settings path)
      (htext : (files.status path).readText path = .ok text)
      (herror : Settings.ofText text = .error error) (hexpected : error.isExpected = false) :
      Escapes files request (.settings error)
  | noSettings (hchoice : request.choice = .unnamedSettings) : Escapes files request .noSettings
  | noMetaState {start : Start} (hstart : Starts files request.choice start)
      (hblank : request.metaState = .blank) : Escapes files request .noMetaState

theorem overridden_eq_ok_iff :
    request.overridden start = .ok begun ↔ request.Begins start begun := by
  have hstart (state : MetaState) :
      ({ start with deviceId := request.deviceId.getD start.deviceId, state := state } : Start) =
          begun ↔
        begun.map = start.map ∧ begun.deviceId = request.deviceId.getD start.deviceId ∧
          begun.state = state := by
    obtain ⟨map, device, own⟩ := begun
    simp only [Start.mk.injEq, eq_comm]
  have hbegins : request.Begins start begun ↔ begun.map = start.map ∧
      begun.deviceId = request.deviceId.getD start.deviceId ∧
        (request.metaState = .absent ∧ begun.state = start.state ∨
          ∃ text, request.metaState = .value text ∧ MetaState.parse text = .ok begun.state) :=
    ⟨fun hown => ⟨hown.map, hown.deviceId, hown.state⟩, fun hown => ⟨hown.1, hown.2.1, hown.2.2⟩⟩
  rw [hbegins, overridden]
  cases request.metaState with
  | absent => simpa using hstart start.state
  | blank => simp
  | value text =>
      cases hparse : MetaState.parse text with
      | error => simp [hparse]
      | ok state => simpa [hparse, eq_comm] using hstart state

theorem overridden_eq_error_iff :
    request.overridden start = .error error ↔
      request.metaState = .blank ∧ error = .noMetaState ∨
        ∃ text fault, request.metaState = .value text ∧ MetaState.parse text = .error fault ∧
          error = .combination fault := by
  rw [overridden]
  cases request.metaState with
  | absent => simp
  | blank => simp [eq_comm]
  | value text => cases hparse : MetaState.parse text <;> simp [hparse, eq_comm]

/-- The start that settings describe, once they have been read. -/
def described (files : Files Id) (settings : Settings) : Session Id ToolError Start := do
  let map ← (KeyMap.configured (settings.directories.read files) settings).mapError .load
  let state ← Session.ofExcept (settings.initialState.mapError .combination)
  return ⟨map, settings.deviceId, state⟩

theorem startOf_settings (files : Files Id) (path : Path) :
    startOf files (.settings path) =
      (Settings.load files path).mapError .settings >>= described files :=
  rfl

theorem appends_described_state (settings : Settings) (map : KeyMap) :
    (do
      let state ← Session.ofExcept (settings.initialState.mapError .combination)
      return ⟨map, settings.deviceId, state⟩ : Session Id ToolError Start).Appends :=
  (Session.appends_ofExcept _).bind fun _ => Session.appends_pure _

theorem appends_described (files : Files Id) (settings : Settings) :
    (described files settings).Appends :=
  ((KeyMap.appends_configured (settings.directories.appends_read files) settings).mapError _).bind
    (appends_described_state settings)

theorem described_eq_ok_iff {settings : Settings} :
    (described files settings).report.outcome = .ok start ↔
      ∃ map, (KeyMap.configured (settings.directories.read files) settings).report.outcome =
          .ok map ∧
        ∃ state, MetaState.parse settings.metaState = .ok state ∧
          start = ⟨map, settings.deviceId, state⟩ := by
  rw [described, Session.bind_eq_ok_iff (appends_described_state settings)]
  refine exists_congr fun map => and_congr mapError_eq_ok_iff ?_
  rw [Session.bind_eq_ok_iff fun state => Session.appends_pure _, Session.report_ofExcept]
  refine exists_congr fun state => and_congr mapError_eq_ok_iff ?_
  exact ⟨fun heq => (Except.ok.inj heq).symm, fun heq => heq ▸ rfl⟩

theorem isExpected_of_described {settings : Settings}
    (herror : (described files settings).report.outcome = .error error) :
    error.isExpected = true := by
  rw [described, Session.bind_eq_error_iff (appends_described_state settings)] at herror
  rcases herror with hmap | ⟨map, -, hrest⟩
  · obtain ⟨own, -, rfl⟩ := mapError_eq_error_iff.mp hmap
    rfl
  · rw [Session.bind_eq_error_iff fun state => Session.appends_pure _,
      Session.report_ofExcept] at hrest
    rcases hrest with hstate | ⟨state, -, hnone⟩
    · obtain ⟨own, -, rfl⟩ := mapError_eq_error_iff.mp hstate
      rfl
    · cases hnone

theorem startOf_eq_ok_iff :
    (startOf files choice).report.outcome = .ok start ↔ Starts files choice start := by
  cases choice with
  | unnamedSettings =>
      exact iff_of_false (fun hstart => nomatch hstart) fun hstarts => nomatch hstarts
  | layout path =>
      rw [startOf, Session.bind_eq_ok_iff fun map => Session.appends_pure _,
        Session.report_mapError]
      simp only [Report.mapError, mapError_eq_ok_iff, KeyMap.ofFile_eq_ok_iff]
      constructor
      · intro hstart
        obtain ⟨map, ⟨text, htext, hmap⟩, heq⟩ := hstart
        cases heq
        exact .layout htext hmap
      · intro hstarts
        cases hstarts with
        | layout htext hmap => exact ⟨_, ⟨_, htext, hmap⟩, rfl⟩
  | settings path =>
      rw [startOf_settings, Session.bind_eq_ok_iff (appends_described files),
        Session.report_mapError]
      simp only [Report.mapError, mapError_eq_ok_iff, Settings.load_eq_ok_iff, described_eq_ok_iff]
      constructor
      · intro hstart
        obtain ⟨settings, ⟨text, htext, hsettings⟩, map, hmap, state, hstate, rfl⟩ := hstart
        exact .settings htext hsettings hmap hstate
      · intro hstarts
        cases hstarts with
        | settings htext hsettings hmap hstate =>
            exact ⟨_, ⟨_, htext, hsettings⟩, _, hmap, _, hstate, rfl⟩

/-- Whatever keeps a run from its start is printed, unless settings are not named or unfit. -/
theorem isExpected_of_startOf (herror : (startOf files choice).report.outcome = .error error) :
    error.isExpected = true ∨ choice = .unnamedSettings ∧ error = .noSettings ∨
      ∃ path text own, choice = .settings path ∧ (files.status path).readText path = .ok text ∧
        Settings.ofText text = .error own ∧ own.isExpected = false ∧ error = .settings own := by
  cases choice with
  | unnamedSettings =>
      cases herror
      exact .inr (.inl ⟨rfl, rfl⟩)
  | layout path =>
      rw [startOf, Session.bind_eq_error_iff fun map => Session.appends_pure _] at herror
      rcases herror with hmap | ⟨map, -, hnone⟩
      · obtain ⟨own, -, rfl⟩ := mapError_eq_error_iff.mp hmap
        exact .inl rfl
      · cases hnone
  | settings path =>
      rw [startOf_settings, Session.bind_eq_error_iff (appends_described files)] at herror
      rcases herror with hsettings | ⟨settings, -, hdescribed⟩
      · obtain ⟨own, hown, rfl⟩ := mapError_eq_error_iff.mp hsettings
        rcases Settings.load_eq_error_iff.mp hown with ⟨fault, -, rfl⟩ | ⟨text, htext, hfault⟩
        · exact .inl rfl
        · cases hexpected : own.isExpected with
          | true => exact .inl hexpected
          | false => exact .inr (.inr ⟨path, text, own, rfl, htext, hfault, hexpected, rfl⟩)
      · exact .inl (isExpected_of_described hdescribed)

/-- What is printed once it is known where typing starts. -/
def linesFrom (request : TypeRequest) (start : Start) : Session Id ToolError Text := do
  let begun ← Session.ofExcept (request.overridden start)
  let events ← Session.ofReport (typed begun request.text)
  return events.flatMap eventLine

theorem eventLines_eq (files : Files Id) (request : TypeRequest) :
    eventLines files request = startOf files request.choice >>= request.linesFrom :=
  rfl

theorem appends_typed (request : TypeRequest) (begun : Start) :
    (do
      let events ← Session.ofReport (typed begun request.text)
      return events.flatMap eventLine : Session Id ToolError Text).Appends :=
  (Session.appends_ofReport _).bind fun _ => Session.appends_pure _

theorem appends_linesFrom (request : TypeRequest) (start : Start) :
    (request.linesFrom start).Appends :=
  (Session.appends_ofExcept _).bind (appends_typed request)

theorem linesFrom_eq_ok_iff :
    (request.linesFrom start).report.outcome = .ok output ↔
      ∃ begun, request.Begins start begun ∧ ∃ events,
        begun.map.synthesize begun.deviceId request.text begun.state = .ok events ∧
          output = events.flatMap eventLine := by
  rw [linesFrom, Session.bind_eq_ok_iff (appends_typed request), Session.report_ofExcept]
  refine exists_congr fun begun => and_congr overridden_eq_ok_iff ?_
  rw [Session.bind_eq_ok_iff fun events => Session.appends_pure _, Session.report_ofReport]
  refine exists_congr fun events => and_congr mapError_eq_ok_iff ?_
  exact ⟨fun heq => (Except.ok.inj heq).symm, fun heq => heq ▸ rfl⟩

theorem eventLines_eq_ok_iff :
    (eventLines files request).report.outcome = .ok output ↔ request.Types files output := by
  rw [eventLines_eq, Session.bind_eq_ok_iff request.appends_linesFrom]
  simp only [startOf_eq_ok_iff, linesFrom_eq_ok_iff]
  constructor
  · intro hlines
    obtain ⟨start, hstart, begun, hbegun, events, hevents, heq⟩ := hlines
    exact ⟨start, begun, events, hstart, hbegun, hevents, heq⟩
  · intro htypes
    obtain ⟨start, begun, events, hstart, hbegun, hevents, heq⟩ := htypes
    exact ⟨start, hstart, begun, hbegun, events, hevents, heq⟩

theorem isExpected_of_linesFrom (herror : (request.linesFrom start).report.outcome = .error error) :
    error.isExpected = true ∨ request.metaState = .blank ∧ error = .noMetaState := by
  rw [linesFrom, Session.bind_eq_error_iff (appends_typed request),
    Session.report_ofExcept] at herror
  rcases herror with hbegun | ⟨begun, -, htyped⟩
  · rcases overridden_eq_error_iff.mp hbegun with hblank | ⟨text, fault, -, -, rfl⟩
    · exact .inr hblank
    · exact .inl rfl
  · rw [Session.bind_eq_error_iff fun events => Session.appends_pure _,
      Session.report_ofReport] at htyped
    rcases htyped with hevents | ⟨events, -, hnone⟩
    · obtain ⟨own, hown, rfl⟩ := mapError_eq_error_iff.mp hevents
      obtain ⟨character, -, rfl⟩ := KeyMap.exists_of_synthesize_eq_error hown
      exact .inl rfl
    · cases hnone

theorem Escapes.isExpected_eq_false (hescapes : Escapes files request error) :
    error.isExpected = false := by
  cases hescapes with
  | unfit _ _ _ hexpected => exact hexpected
  | noSettings => rfl
  | noMetaState => rfl

theorem eventLines_of_escapes (hescapes : Escapes files request error) :
    (eventLines files request).report.outcome = .error error := by
  rw [eventLines_eq, Session.bind_eq_error_iff request.appends_linesFrom]
  cases hescapes with
  | unfit hchoice htext herror =>
      rw [hchoice, startOf_settings, Session.bind_eq_error_iff (appends_described files)]
      exact .inl (.inl (mapError_eq_error_iff.mpr
        ⟨_, Settings.load_eq_error_iff.mpr (.inr ⟨_, htext, herror⟩), rfl⟩))
  | noSettings hchoice =>
      rw [hchoice]
      exact .inl rfl
  | noMetaState hstart hblank =>
      refine .inr ⟨_, startOf_eq_ok_iff.mpr hstart, ?_⟩
      rw [linesFrom, Session.bind_eq_error_iff (appends_typed request), Session.report_ofExcept]
      exact .inl (overridden_eq_error_iff.mpr (.inl ⟨hblank, rfl⟩))

theorem eventLines_eq_error (herror : (eventLines files request).report.outcome = .error error) :
    error.isExpected = true ∨ Escapes files request error := by
  rw [eventLines_eq, Session.bind_eq_error_iff request.appends_linesFrom] at herror
  rcases herror with hstart | ⟨start, hstart, hlines⟩
  · rcases isExpected_of_startOf hstart with
      hexpected | ⟨hchoice, rfl⟩ | ⟨path, text, own, hchoice, htext, hown, hunfit, rfl⟩
    · exact .inl hexpected
    · exact .inr (.noSettings hchoice)
    · exact .inr (.unfit hchoice htext hown hunfit)
  · rcases isExpected_of_linesFrom hlines with hexpected | ⟨hblank, rfl⟩
    · exact .inl hexpected
    · exact .inr (.noMetaState (startOf_eq_ok_iff.mp hstart) hblank)

theorem run_of_ok (hlines : (eventLines files request).report.outcome = .ok output) :
    ∃ notes, run files request = .ok { output := output, complaints := notes } := by
  change ∃ notes, Transcript.ofReport _ _ (eventLines files request).report = _
  rw [Transcript.ofReport, hlines]
  exact ⟨_, rfl⟩

theorem run_of_error (herror : (eventLines files request).report.outcome = .error error) :
    (error.isExpected = true ∧ ∃ notes, run files request =
        .ok { failed := true, complaints := notes ++ Transcript.lineOf error.message }) ∨
      error.isExpected = false ∧ run files request = .error error := by
  change (_ ∧ ∃ notes, Transcript.ofReport _ _ (eventLines files request).report = _) ∨
    _ ∧ Transcript.ofReport _ _ (eventLines files request).report = _
  rw [Transcript.ofReport, herror]
  dsimp only
  cases error.isExpected with
  | true => exact .inl ⟨rfl, _, rfl⟩
  | false => exact .inr ⟨rfl, rfl⟩

theorem run_eq_error_iff : run files request = .error error ↔ Escapes files request error := by
  constructor
  · intro hrun
    cases houtcome : (eventLines files request).report.outcome with
    | ok output =>
        obtain ⟨notes, hown⟩ := run_of_ok houtcome
        rw [hown] at hrun
        contradiction
    | error own =>
        rcases run_of_error houtcome with ⟨-, notes, hown⟩ | ⟨hunexpected, hown⟩
        · rw [hown] at hrun
          contradiction
        · rw [hown, Except.error.injEq] at hrun
          subst hrun
          rcases eventLines_eq_error houtcome with hexpected | hescapes
          · rw [hunexpected] at hexpected
            contradiction
          · exact hescapes
  · intro hescapes
    rcases run_of_error (eventLines_of_escapes hescapes) with ⟨hexpected, -⟩ | ⟨-, hrun⟩
    · rw [hescapes.isExpected_eq_false] at hexpected
      contradiction
    · exact hrun

/-- A run prints the events that type the text, or no events at all and why there are none;
and it fails with nothing but what escapes. -/
theorem run_all_or_nothing (files : Files Id) (request : TypeRequest) :
    (∀ transcript, run files request = .ok transcript →
      transcript.status = 0 ∧ request.Types files transcript.output ∨
        transcript.status = 1 ∧ (¬∃ output, request.Types files output) ∧
          transcript.output = [] ∧ ∃ notes error, error.isExpected = true ∧
            (eventLines files request).report.outcome = .error error ∧
              transcript.complaints = notes ++ Transcript.lineOf error.message) ∧
      ∀ error, run files request = .error error ↔ Escapes files request error := by
  refine ⟨fun transcript hrun => ?_, fun error => run_eq_error_iff⟩
  cases houtcome : (eventLines files request).report.outcome with
  | ok output =>
      obtain ⟨notes, hown⟩ := run_of_ok houtcome
      obtain rfl := Except.ok.inj (hown.symm.trans hrun)
      exact .inl ⟨rfl, eventLines_eq_ok_iff.mp houtcome⟩
  | error error =>
      have hnone : ¬∃ output, request.Types files output := by
        intro htypes
        obtain ⟨output, hown⟩ := htypes
        rw [eventLines_eq_ok_iff.mpr hown] at houtcome
        contradiction
      rcases run_of_error houtcome with ⟨hexpected, notes, hown⟩ | ⟨-, hown⟩
      · obtain rfl := Except.ok.inj (hown.symm.trans hrun)
        exact .inr ⟨rfl, hnone, rfl, notes, error, hexpected, rfl, rfl⟩
      · rw [hown] at hrun
        contradiction

/-- A tree with settings that lack every field. -/
def bareTree : FileTree where
  entries := [(["s.json"], .file [0x7B, 0x7D])]

theorem ofText_bare : Settings.ofText [.scalar '\x7b', .scalar '\x7d'] = .error .invalid := by
  have hlasting : Json.Lasting (989 + 1) (.object []) :=
    .object List.nodup_nil (List.forall_mem_nil _) (List.forall_mem_nil _)
  have hjson : Json.ofText [.scalar '\x7b', .scalar '\x7d'] = .ok (.object []) :=
    Json.ofText_write hlasting
  rw [Settings.ofText, hjson]
  rfl

/-- Settings that are unfit make the run fail, and nothing is printed about them. -/
theorem not_run_all_or_nothing :
    ¬∀ (tree : FileTree) (path : Path) (text : Text),
      ∃ transcript, run tree.files { choice := .settings path, text := text } = .ok transcript := by
  intro hruns
  obtain ⟨transcript, hrun⟩ := hruns bareTree (.ofText "s.json") "a"
  have hgraphic : Text.Graphic [.scalar '\x7b', .scalar '\x7d'] := by decide
  have htext : (bareTree.files.status (.ofText "s.json")).readText (.ofText "s.json") =
      .ok [.scalar '\x7b', .scalar '\x7d'] :=
    mapError_eq_ok_iff.mpr (Text.ofFile_asciiBytes hgraphic)
  have hescapes : Escapes bareTree.files { choice := .settings (.ofText "s.json"), text := "a" }
      (.settings .invalid) := .unfit rfl htext ofText_bare rfl
  rw [run_eq_error_iff.mpr hescapes] at hrun
  contradiction

end TypeRequest

end KeyLayout
