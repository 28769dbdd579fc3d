import KeyLayout.Proofs.Loading
import KeyLayout.Tool.Check
import Mathlib.Data.List.Forall2

namespace KeyLayout

/-! Checking files: what is reported of each, and when a run cannot be completed. -/

namespace Transcript

theorem failed_foldl_append (first : Transcript) (transcripts : List Transcript) :
    (transcripts.foldl append first).failed = (first.failed || transcripts.any failed) := by
  induction transcripts generalizing first with
  | nil => exact (Bool.or_false _).symm
  | cons transcript rest ih =>
      rw [List.foldl_cons, ih, List.any_cons, ← Bool.or_assoc]
      rfl

end Transcript

namespace CheckRequest

variable {files : Files Id} {request : CheckRequest} {format : Format} {path : Path}
  {paths : List Path} {verbose : Bool} {text : Text} {map : KeyMap} {error : ToolError}
  {transcript : Transcript}

/-- What a run says of a file that it gets through: the summary of its key map, or why
there is none. -/
inductive Reports (files : Files Id) (verbose : Bool) (format : Format) (path : Path) :
    Transcript → Prop
  | summary {text : Text} {map : KeyMap}
      (htext : (files.status path).readText path = .ok text)
      (hmap : (KeyMap.ofText path.toText text format).outcome = .ok map) :
      Reports files verbose format path
        { output := summary path map
          complaints := Transcript.shownNotes verbose
            (KeyMap.ofText path.toText text format).notes }
  | malformed {text : Text} {error : ParseError}
      (htext : (files.status path).readText path = .ok text)
      (herror : (KeyMap.ofText path.toText text format).outcome = .error error) :
      Reports files verbose format path
        { failed := true
          complaints :=
            Transcript.shownNotes verbose (KeyMap.ofText path.toText text format).notes ++
              Transcript.lineOf error.message }
  | refused {fault : FileFault} {name : Text}
      (hrefused : (files.status path).readText path = .error (.opening (.refused fault name))) :
      Reports files verbose format path
        { failed := true
          complaints := Transcript.lineOf (OpenError.refused fault name).message }

/-- The file is text that parses. -/
def Sound (files : Files Id) (format : Format) (path : Path) : Prop :=
  ∃ text map, (files.status path).readText path = .ok text ∧
    (KeyMap.ofText path.toText text format).outcome = .ok map

/-- What is at the path has text, or the system refuses to open it. -/
def Checkable (files : Files Id) (path : Path) : Prop :=
  ∀ error, (files.status path).readText path = .error error → error.isSystem = true

theorem Reports.failed_iff (hreports : Reports files verbose format path transcript) :
    transcript.failed = true ↔ ¬Sound files format path := by
  cases hreports with
  | summary htext hmap =>
      exact iff_of_false Bool.false_ne_true (not_not_intro ⟨_, _, htext, hmap⟩)
  | malformed htext herror =>
      refine iff_of_true rfl fun hsound => ?_
      obtain ⟨_, map, hown, hmap⟩ := hsound
      obtain rfl := Except.ok.inj (htext.symm.trans hown)
      rw [herror] at hmap
      contradiction
  | refused hrefused =>
      refine iff_of_true rfl fun hsound => ?_
      obtain ⟨_, map, hown, hmap⟩ := hsound
      rw [hrefused] at hown
      contradiction

theorem checkFile_eq (hformat : Format.ofGiven request.format = .ok format) :
    checkFile files request path =
      Transcript.ofReport request.verbose isPrintable
        (match (files.status path).readText path with
        | .error error => ⟨[], .error (.load (.source (.read error)))⟩
        | .ok text =>
            ⟨(KeyMap.ofText path.toText text format).notes,
              match (KeyMap.ofText path.toText text format).outcome with
              | .error error => .error (.load (.parse error))
              | .ok map => .ok (summary path map)⟩) := by
  have happends (map : KeyMap) :
      (pure (summary path map) : Session Id ToolError Text).Appends := Session.appends_pure _
  change Transcript.ofReport _ _ (summarize files request.format path).report = _
  rw [summarize, hformat]
  change Transcript.ofReport _ _ (Session.report (m := Id)
    ((KeyMap.ofFile files path format).mapError .load >>= fun map =>
      pure (summary path map))) = _
  rw [Session.report_bind _ happends, Session.report_mapError, KeyMap.report_ofFile]
  cases (files.status path).readText path with
  | error => rfl
  | ok text =>
      dsimp only
      generalize KeyMap.ofText path.toText text format = report
      obtain ⟨notes, outcome⟩ := report
      cases outcome with
      | error => rfl
      | ok map =>
          change Transcript.ofReport _ _ ⟨notes ++ [], .ok (summary path map)⟩ = _
          rw [List.append_nil]

theorem exists_reports (hformat : Format.ofGiven request.format = .ok format)
    (hcheckable : Checkable files path) :
    ∃ transcript, Reports files request.verbose format path transcript ∧
      checkFile files request path = .ok transcript := by
  rw [checkFile_eq hformat]
  cases htext : (files.status path).readText path with
  | error error =>
      cases error with
      | undecodable => exact absurd (hcheckable _ htext) Bool.false_ne_true
      | opening fault =>
          cases fault with
          | unnamable => exact absurd (hcheckable _ htext) Bool.false_ne_true
          | refused => exact ⟨_, .refused htext, rfl⟩
  | ok text =>
      cases hmap : (KeyMap.ofText path.toText text format).outcome with
      | error => exact ⟨_, .malformed htext hmap, by simp [hmap, Transcript.ofReport]; rfl⟩
      | ok map => exact ⟨_, .summary htext hmap, by simp [hmap, Transcript.ofReport]⟩

theorem checkFile_of_not_isSystem (hformat : Format.ofGiven request.format = .ok format)
    {error : ReadError} (htext : (files.status path).readText path = .error error)
    (hsystem : error.isSystem = false) :
    checkFile files request path = .error (.load (.source (.read error))) := by
  rw [checkFile_eq hformat, htext]
  simp [Transcript.ofReport, isPrintable, SourceError.isUnavailable, hsystem]

theorem checkFiles_of_checkable (hformat : Format.ofGiven request.format = .ok format)
    (hcheckable : ∀ path ∈ paths, Checkable files path) :
    ∃ transcripts, List.Forall₂ (Reports files request.verbose format) paths transcripts ∧
      ∀ first, checkFiles files request first paths =
        .ok (transcripts.foldl Transcript.append first) := by
  induction paths with
  | nil => exact ⟨[], .nil, fun first => rfl⟩
  | cons path rest ih =>
      obtain ⟨hpath, hrest⟩ := List.forall_mem_cons.mp hcheckable
      obtain ⟨transcript, hreports, hcheck⟩ := exists_reports hformat hpath
      obtain ⟨transcripts, hothers, hfold⟩ := ih hrest
      refine ⟨transcript :: transcripts, .cons hreports hothers, fun first => ?_⟩
      rw [List.foldl_cons, ← hfold, checkFiles, hcheck]
      rfl

/-- A file that is no text, or a path that no file can have, ends the run. -/
theorem checkFiles_of_not_isSystem (hformat : Format.ofGiven request.format = .ok format)
    {before after : List Path} {error : ReadError} {first : Transcript}
    (hcheckable : ∀ path ∈ before, Checkable files path)
    (htext : (files.status path).readText path = .error error)
    (hsystem : error.isSystem = false) :
    checkFiles files request first (before ++ path :: after) =
      .error (.load (.source (.read error))) := by
  induction before generalizing first with
  | nil =>
      rw [List.nil_append, checkFiles, checkFile_of_not_isSystem hformat htext hsystem]
      rfl
  | cons other rest ih =>
      obtain ⟨hother, hrest⟩ := List.forall_mem_cons.mp hcheckable
      obtain ⟨transcript, -, hcheck⟩ := exists_reports hformat hother
      rw [List.cons_append, checkFiles, hcheck]
      exact ih hrest

theorem any_failed_iff {transcripts : List Transcript}
    (hreports : List.Forall₂ (Reports files verbose format) paths transcripts) :
    transcripts.any Transcript.failed = true ↔ ∃ path ∈ paths, ¬Sound files format path := by
  induction hreports with
  | nil => simp
  | cons hfirst hrest ih =>
      rw [List.any_cons, Bool.or_eq_true, ih, hfirst.failed_iff]
      simp only [List.mem_cons, exists_eq_or_imp]

/-- A run that comes to no file it cannot read as text reports on every file in order, and
its status says whether each was sound.  Otherwise the first such file is its end. -/
theorem run_reports (files : Files Id) (request : CheckRequest) (format : Format)
    (hformat : Format.ofGiven request.format = .ok format) :
    ((∀ path ∈ request.files, Checkable files path) →
      ∃ transcripts transcript,
        List.Forall₂ (Reports files request.verbose format) request.files transcripts ∧
          transcript = transcripts.foldl Transcript.append {} ∧
          run files request = .ok transcript ∧
          (transcript.status = 1 ∧ (∃ path ∈ request.files, ¬Sound files format path) ∨
            transcript.status = 0 ∧ ∀ path ∈ request.files, Sound files format path)) ∧
    ∀ before path after error, request.files = before ++ path :: after →
      (∀ other ∈ before, Checkable files other) →
        (files.status path).readText path = .error error → error.isSystem = false →
          run files request = .error (.load (.source (.read error))) := by
  constructor
  · intro hcheckable
    obtain ⟨transcripts, hreports, hfold⟩ := checkFiles_of_checkable hformat hcheckable
    refine ⟨transcripts, _, hreports, rfl, hfold {}, ?_⟩
    have hfailed := any_failed_iff hreports
    rw [Transcript.status, Transcript.failed_foldl_append, Bool.false_or]
    cases hany : transcripts.any Transcript.failed with
    | true => exact .inl ⟨rfl, hfailed.mp hany⟩
    | false =>
        refine .inr ⟨rfl, fun path hpath => by_contra fun hsound => ?_⟩
        rw [hfailed.mpr ⟨path, hpath, hsound⟩] at hany
        contradiction
  · intro before path after error hfiles hcheckable htext hsystem
    rw [run, hfiles]
    exact checkFiles_of_not_isSystem hformat hcheckable htext hsystem

/-- A file without layouts, and one that is no text. -/
def oddTree : FileTree :=
  ⟨[(["empty.kcm"], .file []), (["bad.kcm"], .file [0xFF])]⟩

theorem readText_empty :
    (oddTree.files.status (.ofText "empty.kcm")).readText (.ofText "empty.kcm") = .ok [] := by
  have htext : Text.ofFile [] = .ok [] := by
    rw [Text.ofFile, Utf8.decode, Utf8.decodeFrom]
    rfl
  change (Text.ofFile []).mapError ReadError.undecodable = _
  rw [htext]
  rfl

theorem readText_bad :
    (oddTree.files.status (.ofText "bad.kcm")).readText (.ofText "bad.kcm") =
      .error (.undecodable ⟨.invalidStart, 0, 1, 0xFF⟩) := by
  have htext : Text.ofFile [0xFF] = .error ⟨.invalidStart, 0, 1, 0xFF⟩ := by
    rw [Text.ofFile, Utf8.decode, Utf8.decodeFrom]
    rfl
  change (Text.ofFile [0xFF]).mapError ReadError.undecodable = _
  rw [htext]
  rfl

theorem run_reports_oddTree :
    (∃ transcript,
      run oddTree.files { files := [.ofText "empty.kcm", .ofText "gone.kcm"] } = .ok transcript ∧
        transcript.status = 1) ∧
      run oddTree.files { files := [.ofText "empty.kcm", .ofText "bad.kcm"] } =
        .error (.load (.source (.read (.undecodable ⟨.invalidStart, 0, 1, 0xFF⟩)))) := by
  have hgone : (oddTree.files.status (.ofText "gone.kcm")).readText (.ofText "gone.kcm") =
      .error (.opening (.refused .missing "gone.kcm")) := by rfl
  constructor
  · obtain ⟨transcripts, transcript, -, -, hrun, hstatus⟩ :=
      (run_reports oddTree.files { files := [.ofText "empty.kcm", .ofText "gone.kcm"] } .any
        rfl).1 (by simp [Checkable, readText_empty, hgone, ReadError.isSystem])
    refine ⟨transcript, hrun, ?_⟩
    rcases hstatus with ⟨hone, -⟩ | ⟨-, hsound⟩
    · exact hone
    · obtain ⟨text, map, htext, -⟩ := hsound (.ofText "gone.kcm") (by simp)
      rw [hgone] at htext
      contradiction
  · exact (run_reports oddTree.files { files := [.ofText "empty.kcm", .ofText "bad.kcm"] } .any
      rfl).2 [.ofText "empty.kcm"] _ [] _ rfl (by simp [Checkable, readText_empty]) readText_bad rfl

/-- A file that is no text makes the run fail, also for the files after it. -/
theorem not_run_reports :
    ¬∀ (tree : FileTree) (request : CheckRequest) (format : Format),
      Format.ofGiven request.format = .ok format →
        ∃ transcript, run tree.files request = .ok transcript := by
  intro hruns
  obtain ⟨transcript, hrun⟩ :=
    hruns oddTree { files := [.ofText "bad.kcm", .ofText "empty.kcm"] } .any rfl
  have hnone : ∀ path ∈ ([] : List Path), Checkable oddTree.files path := by simp
  have herror : checkFiles oddTree.files { files := [.ofText "bad.kcm", .ofText "empty.kcm"] } {}
      ([] ++ .ofText "bad.kcm" :: [.ofText "empty.kcm"]) = _ :=
    checkFiles_of_not_isSystem rfl hnone readText_bad rfl
  rw [List.nil_append] at herror
  change checkFiles _ _ _ _ = _ at hrun
  rw [herror] at hrun
  contradiction

end CheckRequest

end KeyLayout
