import KeyLayout.Configured
import KeyLayout.Proofs.Outcome
import KeyLayout.Proofs.Session

namespace KeyLayout

/-! Layouts that are read from files: what is noted does not decide what is read. -/

variable {files : Files Id} {read : LayoutReader Id} {source : LayoutDirectories}

/-- Only files have text. -/
theorem PathStatus.readText_eq_ok_iff {status : PathStatus} {path : Path} {text : Text} :
    status.readText path = .ok text ↔
      ∃ bytes, status = .file bytes ∧ Text.ofFile bytes = .ok text := by
  cases status with
  | file bytes => simp [readText, mapError_eq_ok_iff]
  | directory => simp [readText]
  | absent fault => simp [readText]
  | unnamable fault => simp [readText]

theorem LayoutDirectories.appends_firstFile (files : Files Id) (paths : List Path) :
    (firstFile files paths).Appends := by
  induction paths with
  | nil => exact Session.appends_pure none
  | cons path rest ih =>
      refine (Session.appends_status files path).bind fun status => ?_
      cases status with
      | file => exact Session.appends_pure _
      | directory => exact ih
      | unnamable => exact ih
      | absent fault =>
          cases fault with
          | longName => exact Session.appends_throw _
          | missing => exact ih
          | notDirectory => exact ih
          | isDirectory => exact ih

theorem LayoutDirectories.appends_read (source : LayoutDirectories) (files : Files Id)
    (name : Text) : (source.read files name).Appends := by
  have hfind : (source.find files name).Appends := by
    refine (appends_firstFile files _).bind fun found => ?_
    cases found with
    | none => exact Session.appends_throw _
    | some path => exact Session.appends_pure path
  refine hfind.bind fun path => (Session.appends_note _).bind fun _ => ?_
  exact (Session.appends_readText files path).mapError _

theorem KeyMap.appends_load (hread : ∀ name, (read name).Appends) (name : Text)
    (format : Format) : (load read name format).Appends :=
  ((hread name).mapError _).bind fun _ => (Session.appends_ofReport _).mapError _

theorem KeyMap.appends_configured (hread : ∀ name, (read name).Appends) (settings : Settings) :
    (configured read settings).Appends := by
  refine (appends_load hread _ _).bind fun base => ?_
  refine (Session.appends_ofExcept _).bind fun remapped => ?_
  refine Session.Appends.foldlM (fun map name => ?_) _ _
  exact (appends_load hread _ _).bind fun overlay =>
    (Session.appends_note _).bind fun _ => Session.appends_pure _

/-- The map of a file depends on what is at its path alone. -/
theorem KeyMap.report_ofFile (files : Files Id) (path : Path) (format : Format) :
    (ofFile files path format).report =
      match (files.status path).readText path with
      | .error error => Report.fail (.source (.read error))
      | .ok text => (ofText path.toText text format).mapError .parse := by
  rw [ofFile, load, Session.report_bind _ fun _ => (Session.appends_ofReport _).mapError _,
    Session.report_mapError, Session.report_mapError, Session.report_readText]
  cases (files.status path).readText path with
  | error => rfl
  | ok text =>
      change (Session.mapError (m := Id) LoadError.parse (Session.ofReport _)).report = _
      rw [Session.report_mapError, Session.report_ofReport]

theorem KeyMap.ofFile_eq_ok_iff {path : Path} {format : Format} {map : KeyMap} :
    (ofFile files path format).report.outcome = .ok map ↔
      ∃ text, (files.status path).readText path = .ok text ∧
        (ofText path.toText text format).outcome = .ok map := by
  rw [report_ofFile]
  cases (files.status path).readText path with
  | error => exact iff_of_false (fun hmap => nomatch hmap) (by simp)
  | ok text => simp [Report.mapError, mapError_eq_ok_iff]

namespace Settings

variable {path : Path} {settings : Settings} {error : SettingsError}

theorem load_eq_ok_iff :
    (load files path).report.outcome = .ok settings ↔
      ∃ text, (files.status path).readText path = .ok text ∧ ofText text = .ok settings := by
  rw [load, Session.bind_eq_ok_iff fun text => Session.appends_ofExcept _,
    Session.report_mapError, Session.report_readText]
  simp only [Session.report_ofExcept, Report.mapError, Report.ofExcept, mapError_eq_ok_iff]

theorem load_eq_error_iff :
    (load files path).report.outcome = .error error ↔
      (∃ own, (files.status path).readText path = .error own ∧ .read own = error) ∨
        ∃ text, (files.status path).readText path = .ok text ∧ ofText text = .error error := by
  rw [load, Session.bind_eq_error_iff fun text => Session.appends_ofExcept _,
    Session.report_mapError, Session.report_readText]
  simp only [Session.report_ofExcept, Report.mapError, Report.ofExcept, mapError_eq_ok_iff,
    mapError_eq_error_iff]

end Settings

end KeyLayout
