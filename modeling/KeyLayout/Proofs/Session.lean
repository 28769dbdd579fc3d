import KeyLayout.Session

namespace KeyLayout

/-! What becomes of sessions over files that do not change. -/

namespace Session

variable {ε δ α β : Type} {session : Session Id ε α} {next : α → Session Id ε β}
  {notes : List Note}

/-- The outcome, and all notes if these have been taken before. -/
def reportFrom (session : Session Id ε α) (notes : List Note) : Report ε α :=
  let (outcome, later) := Id.run (session.run.run notes)
  ⟨later, outcome⟩

theorem report_eq (session : Session Id ε α) : session.report = session.reportFrom [] :=
  rfl

theorem reportFrom_pure (value : α) :
    (pure value : Session Id ε α).reportFrom notes = ⟨notes, .ok value⟩ :=
  rfl

theorem reportFrom_throw (error : ε) :
    (throw error : Session Id ε α).reportFrom notes = ⟨notes, .error error⟩ :=
  rfl

theorem reportFrom_note (own : Note) :
    (note own : Session Id ε Unit).reportFrom notes = ⟨notes ++ [own], .ok ()⟩ :=
  rfl

theorem reportFrom_ofExcept (outcome : Except ε α) :
    (ofExcept outcome : Session Id ε α).reportFrom notes = ⟨notes, outcome⟩ := by
  cases outcome <;> rfl

theorem reportFrom_ofReport (report : Report ε α) :
    (ofReport report : Session Id ε α).reportFrom notes =
      ⟨notes ++ report.notes, report.outcome⟩ := by
  obtain ⟨own, outcome⟩ := report
  cases outcome <;> rfl

theorem reportFrom_mapError (session : Session Id ε α) (wrap : ε → δ) :
    (session.mapError wrap).reportFrom notes = (session.reportFrom notes).mapError wrap :=
  rfl

theorem reportFrom_bind (session : Session Id ε α) (next : α → Session Id ε β) :
    (session >>= next).reportFrom notes =
      match session.reportFrom notes with
      | ⟨middle, .error error⟩ => ⟨middle, .error error⟩
      | ⟨middle, .ok value⟩ => (next value).reportFrom middle := by
  unfold reportFrom
  rw [ExceptT.run_bind, StateT.run_bind]
  obtain ⟨outcome, middle⟩ := session.run.run notes
  cases outcome <;> rfl

/-- The session adds to the notes before it, and does not depend on them. -/
def Appends (session : Session Id ε α) : Prop :=
  ∀ notes, session.reportFrom notes = ⟨notes ++ session.report.notes, session.report.outcome⟩

theorem appends_pure (value : α) : (pure value : Session Id ε α).Appends := by
  intro notes
  rw [report_eq, reportFrom_pure, reportFrom_pure, List.append_nil]

theorem appends_throw (error : ε) : (throw error : Session Id ε α).Appends := by
  intro notes
  rw [report_eq, reportFrom_throw, reportFrom_throw, List.append_nil]

theorem appends_note (own : Note) : (note own : Session Id ε Unit).Appends := by
  intro notes
  rw [report_eq, reportFrom_note, reportFrom_note, List.nil_append]

theorem appends_ofExcept (outcome : Except ε α) :
    (ofExcept outcome : Session Id ε α).Appends := by
  intro notes
  rw [report_eq, reportFrom_ofExcept, reportFrom_ofExcept, List.append_nil]

theorem appends_ofReport (report : Report ε α) :
    (ofReport report : Session Id ε α).Appends := by
  intro notes
  rw [report_eq, reportFrom_ofReport, reportFrom_ofReport, List.nil_append]

theorem appends_status (files : Files Id) (path : Path) :
    (status files path : Session Id ε PathStatus).Appends := by
  intro notes
  change (⟨notes, _⟩ : Report ε PathStatus) = ⟨notes ++ [], _⟩
  rw [List.append_nil]
  rfl

theorem appends_readText (files : Files Id) (path : Path) : (readText files path).Appends :=
  appends_ofExcept _

theorem Appends.mapError (happends : session.Appends) (wrap : ε → δ) :
    (session.mapError wrap).Appends := by
  intro notes
  rw [reportFrom_mapError, happends notes]
  rfl

/-- The reports of sessions that append are put together as the sessions are. -/
theorem report_bind (session : Session Id ε α) (hnext : ∀ value, (next value).Appends) :
    (session >>= next).report = Report.bind session.report fun value => (next value).report := by
  rw [report_eq, reportFrom_bind, ← report_eq]
  obtain ⟨middle, outcome⟩ := session.report
  cases outcome with
  | error => rfl
  | ok value => exact hnext value middle

theorem bind_eq_ok_iff (hnext : ∀ value, (next value).Appends) {result : β} :
    (session >>= next).report.outcome = .ok result ↔
      ∃ value, session.report.outcome = .ok value ∧ (next value).report.outcome = .ok result := by
  rw [report_bind session hnext, Report.bind]
  cases session.report.outcome with
  | error => simp
  | ok value => simp

theorem bind_eq_error_iff (hnext : ∀ value, (next value).Appends) {error : ε} :
    (session >>= next).report.outcome = .error error ↔ session.report.outcome = .error error ∨
      ∃ value, session.report.outcome = .ok value ∧
        (next value).report.outcome = .error error := by
  rw [report_bind session hnext, Report.bind]
  cases session.report.outcome with
  | error => simp
  | ok value => simp

theorem Appends.bind (hfirst : session.Appends) (hnext : ∀ value, (next value).Appends) :
    (session >>= next).Appends := by
  intro notes
  rw [reportFrom_bind, hfirst notes, report_bind session hnext]
  obtain ⟨middle, outcome⟩ := session.report
  cases outcome with
  | error => rfl
  | ok value =>
      change (next value).reportFrom (notes ++ middle) =
        ⟨notes ++ (middle ++ (next value).report.notes), (next value).report.outcome⟩
      rw [hnext value, List.append_assoc]

theorem Appends.foldlM {step : β → α → Session Id ε β}
    (hstep : ∀ state item, (step state item).Appends) (items : List α) (start : β) :
    (items.foldlM step start).Appends := by
  induction items generalizing start with
  | nil => exact appends_pure start
  | cons item rest ih =>
      rw [List.foldlM_cons]
      exact (hstep start item).bind ih

theorem report_ofExcept (outcome : Except ε α) :
    (ofExcept outcome : Session Id ε α).report = Report.ofExcept outcome := by
  rw [report_eq, reportFrom_ofExcept]
  rfl

theorem report_ofReport (report : Report ε α) :
    (ofReport report : Session Id ε α).report = report := by
  rw [report_eq, reportFrom_ofReport]
  rfl

theorem report_mapError (session : Session Id ε α) (wrap : ε → δ) :
    (session.mapError wrap).report = session.report.mapError wrap :=
  rfl

theorem report_readText (files : Files Id) (path : Path) :
    (readText files path).report = Report.ofExcept ((files.status path).readText path) :=
  report_ofExcept _

end Session

end KeyLayout
