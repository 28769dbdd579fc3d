import KeyLayout.Note

namespace KeyLayout

/-! A computation in steps succeeds exactly when each of its steps does. -/

theorem bind_eq_ok_iff {ε α β : Type} {first : Except ε α} {next : α → Except ε β} {value : β} :
    first >>= next = .ok value ↔ ∃ middle, first = .ok middle ∧ next middle = .ok value := by
  cases first with
  | error error =>
      constructor
      · exact fun heq => nomatch heq
      · rintro ⟨middle, hmiddle, -⟩
        cases hmiddle
  | ok middle =>
      constructor
      · exact fun heq => ⟨middle, rfl, heq⟩
      · rintro ⟨other, hother, heq⟩
        cases hother
        exact heq

theorem ok_bind {ε α β : Type} (value : α) (next : α → Except ε β) :
    Except.ok value >>= next = next value :=
  rfl

theorem map_eq_ok_iff {ε α β : Type} {first : Except ε α} {change : α → β} {value : β} :
    change <$> first = .ok value ↔ ∃ result, first = .ok result ∧ change result = value := by
  cases first <;> simp [Functor.map, Except.map]

/-- What every step of a fold keeps holds at its end. -/
theorem foldlM_keeps {ε α β : Type} {step : β → α → Except ε β} {keeps : β → Prop}
    (hstep : ∀ state item next, keeps state → step state item = .ok next → keeps next)
    {items : List α} {start last : β} (hstart : keeps start)
    (hfold : items.foldlM step start = .ok last) : keeps last := by
  induction items generalizing start with
  | nil =>
      cases hfold
      exact hstart
  | cons item rest ih =>
      rw [List.foldlM_cons, bind_eq_ok_iff] at hfold
      obtain ⟨next, hnext, hrest⟩ := hfold
      exact ih (hstep start item next hstart hnext) hrest

section Options

variable {α β : Type} {convert : α → Option β} {items : List α} {results : List β}

theorem exists_of_mem_mapM (hmap : items.mapM convert = some results) {result : β}
    (hresult : result ∈ results) : ∃ item ∈ items, convert item = some result := by
  induction items generalizing results with
  | nil =>
      cases hmap
      contradiction
  | cons item rest ih =>
      rw [List.mapM_cons] at hmap
      obtain ⟨first, hfirst, hbind⟩ := Option.bind_eq_some_iff.mp hmap
      obtain ⟨others, hothers, heq⟩ := Option.bind_eq_some_iff.mp hbind
      cases heq
      rcases List.mem_cons.mp hresult with rfl | hmem
      · exact ⟨item, List.mem_cons_self .., hfirst⟩
      · obtain ⟨own, hown, hconvert⟩ := ih hothers hmem
        exact ⟨own, List.mem_cons_of_mem _ hown, hconvert⟩

theorem mapM_map_eq_some {write : β → α} (hread : ∀ result ∈ results,
    convert (write result) = some result) : (results.map write).mapM convert = some results := by
  induction results with
  | nil => rfl
  | cons result rest ih =>
      obtain ⟨hfirst, hrest⟩ := List.forall_mem_cons.mp hread
      rw [List.map_cons, List.mapM_cons, hfirst, ih hrest]
      rfl

end Options

theorem mapError_eq_ok_iff {ε δ α : Type} {first : Except ε α} {change : ε → δ} {value : α} :
    first.mapError change = .ok value ↔ first = .ok value := by
  constructor
  · intro hmap
    cases first with
    | error => cases hmap
    | ok own =>
        cases hmap
        rfl
  · rintro rfl
    rfl

theorem mapError_eq_error_iff {ε δ α : Type} {first : Except ε α} {change : ε → δ} {error : δ} :
    first.mapError change = .error error ↔ ∃ own, first = .error own ∧ change own = error := by
  constructor
  · intro hmap
    cases first with
    | error own =>
        cases hmap
        exact ⟨own, rfl, rfl⟩
    | ok => cases hmap
  · rintro ⟨own, rfl, rfl⟩
    rfl

theorem Report.ok_bind {ε α β : Type} (notes : List Note) (value : α) (next : α → Report ε β) :
    (⟨notes, .ok value⟩ : Report ε α) >>= next =
      ⟨notes ++ (next value).notes, (next value).outcome⟩ :=
  rfl

theorem Report.bind_bind {ε α β γ : Type} (report : Report ε α) (next : α → Report ε β)
    (last : β → Report ε γ) :
    (report.bind next).bind last = report.bind fun value => (next value).bind last := by
  obtain ⟨notes, outcome⟩ := report
  cases outcome with
  | error => rfl
  | ok value =>
      simp only [bind]
      cases (next value).outcome with
      | error => rfl
      | ok =>
          dsimp only
          rw [List.append_assoc]

instance {ε : Type} : LawfulMonad (Report ε) :=
  .mk' (Report ε)
    (fun report => by
      obtain ⟨notes, outcome⟩ := report
      cases outcome <;> simp [Functor.map, Report.bind])
    (fun _ _ => rfl) Report.bind_bind

theorem Report.mapError_bind {ε δ α β : Type} (report : Report ε α) (next : α → Report ε β)
    (wrap : ε → δ) :
    (report >>= next).mapError wrap =
      report.mapError wrap >>= fun value => (next value).mapError wrap := by
  obtain ⟨notes, outcome⟩ := report
  cases outcome <;> rfl

theorem Report.outcome_bind {ε α β : Type} (report : Report ε α) (next : α → Report ε β) :
    (report >>= next).outcome = report.outcome.bind fun value => (next value).outcome := by
  change (report.bind next).outcome = _
  unfold bind
  cases report.outcome <;> rfl

theorem Report.bind_eq_ok_iff {ε α β : Type} {report : Report ε α} {next : α → Report ε β}
    {result : β} :
    (report >>= next).outcome = .ok result ↔
      ∃ value, report.outcome = .ok value ∧ (next value).outcome = .ok result := by
  change (report.bind next).outcome = _ ↔ _
  unfold bind
  cases report.outcome with
  | error => simp
  | ok value => simp

theorem Report.bind_eq_error_iff {ε α β : Type} {report : Report ε α} {next : α → Report ε β}
    {error : ε} :
    (report >>= next).outcome = .error error ↔
      report.outcome = .error error ∨
        ∃ value, report.outcome = .ok value ∧ (next value).outcome = .error error := by
  change (report.bind next).outcome = _ ↔ _
  unfold bind
  cases report.outcome with
  | error => simp
  | ok value => simp

end KeyLayout
