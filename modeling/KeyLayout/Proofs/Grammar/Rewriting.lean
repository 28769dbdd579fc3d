import KeyLayout.Proofs.Grammar.Variants

namespace KeyLayout

/-! What may be rewritten in the lines of a layout.  Where a rewriting does not take a
statement or a line apart, the layout as it was has to be readable. -/

namespace Draft

open TokenLine (unnumbered)

variable {format : Format} {layout name : Text} {lastLine : Nat} {draft last : Draft}
  {before rows others after : List (List Token)} {first : List Token}

theorem unnumbered_append (rows others : List (List Token)) :
    unnumbered (rows ++ others) = unnumbered rows ++ unnumbered others :=
  List.map_append

theorem unnumbered_cons (row : List Token) (rows : List (List Token)) :
    unnumbered (row :: rows) = ⟨0, row⟩ :: unnumbered rows :=
  rfl

theorem reads_filled_iff :
    Reads format layout lastLine draft (unnumbered (rows.filter (!·.isEmpty) ++ after)) last ↔
      Reads format layout lastLine draft (unnumbered (rows ++ after)) last := by
  induction rows generalizing draft with
  | nil => rfl
  | cons row rows ih =>
      cases row with
      | nil => exact ih.trans reads_lineEnd_iff.symm
      | cons token rest =>
          change Reads format layout lastLine draft
            ([⟨0, token :: rest⟩] ++ unnumbered (rows.filter (!·.isEmpty) ++ after)) last ↔
              Reads format layout lastLine draft
                ([⟨0, token :: rest⟩] ++ unnumbered (rows ++ after)) last
          simp only [reads_append_iff, ih]

/-- The key block of some key is open after these rows. -/
def OpenAfter (format : Format) (name : Text) (rows : List (List Token)) : Prop :=
  ∃ draft, Reads format [] 0 (.ofName name) (unnumbered rows) draft ∧
    draft.pending.isSome = true

/-- Within a block a line may be read up to a cut before the rest of the lines. -/
theorem OpenAfter.exists_reads_iff (hopen : OpenAfter format name (before ++ [first])) :
    ∃ middle pending, middle.pending = some pending ∧
      ∀ tail rest last, Cut first tail →
        (Reads format [] 0 (.ofName name) (unnumbered (before ++ (first ++ tail) :: rest)) last ↔
          Reads format [] 0 middle (⟨0, tail⟩ :: unnumbered rest) last) := by
  obtain ⟨middle, hreads, hsome⟩ := hopen
  obtain ⟨pending, hpending⟩ := Option.isSome_iff_exists.mp hsome
  rw [unnumbered_append] at hreads
  obtain ⟨base, hbase, hfirst⟩ := reads_append_iff.mp hreads
  refine ⟨middle, pending, hpending, fun tail rest last hcut => ?_⟩
  rw [unnumbered_append, unnumbered_cons, reads_append_iff, ← reads_cut_iff hfirst hsome hcut]
  constructor
  · intro hrest
    obtain ⟨own, hown, hrest⟩ := hrest
    obtain rfl := hbase.unique hown
    exact hrest
  · intro hrest
    exact ⟨base, hbase, hrest⟩

end Draft

/-- A statement of several properties, or the header of a block, is taken apart. -/
inductive Splits (format : Format) (name : Text) : List (List Token) → List (List Token) → Prop
  | statement {before after : List (List Token)} {first values tail : List Token}
      {names : List Text} (hopen : Draft.OpenAfter format name (before ++ [first]))
      (hstarts : Statement.Starts first) (hnames : names ≠ [])
      (hvalues : ∀ token ∈ values, Statement.isSeparator token = false)
      (hending : ∀ ending ∈ tail.head?, Statement.isSeparator ending = true) :
      Splits format name
        (before ++ (first ++ (Statement.shared names values ++ tail)) :: after)
        (before ++ (first ++ (Statement.apart names values ++ tail)) :: after)
  | header {before after : List (List Token)} {tokens tail : List Token} {label : Text}
      (hspells : DeviceEntry.Spells tokens label) :
      Splits format name
        (before ++ (tokens ++ .punctuation .openBrace :: tail) :: after)
        (before ++ tokens ::
          (.word "key" :: .word label :: .punctuation .openBrace :: tail) :: after)

inductive Rewrites (format : Format) (name : Text) :
    List (List Token) → List (List Token) → Prop
  | lineBreak {before after : List (List Token)} {first rest : List Token}
      (hopen : Draft.OpenAfter format name (before ++ [first])) :
      Rewrites format name (before ++ (first ++ .punctuation .semicolon :: rest) :: after)
        (before ++ ([first, rest].filter (!·.isEmpty) ++ after))
  | semicolon {before after : List (List Token)} {first rest : List Token}
      (hopen : Draft.OpenAfter format name (before ++ [first])) :
      Rewrites format name (before ++ first :: rest :: after)
        (before ++ (first ++ .punctuation .semicolon :: rest) :: after)
  | colon {before after : List (List Token)} {first tail : List Token} {names : List Text}
      (hopen : Draft.OpenAfter format name (before ++ [first]))
      (hstarts : Statement.Starts first) (hnames : names ≠ [])
      (hcomma : tail.head? ≠ some (.punctuation .comma))
      (hcolon : tail.head? ≠ some (.punctuation .colon)) :
      Rewrites format name (before ++ (first ++ (Property.commaList names ++ tail)) :: after)
        (before ++ (first ++ (Property.commaList names ++ .punctuation .colon :: tail)) :: after)
  | noColon {before after : List (List Token)} {first tail : List Token} {names : List Text}
      (hopen : Draft.OpenAfter format name (before ++ [first]))
      (hstarts : Statement.Starts first) (hnames : names ≠ []) :
      Rewrites format name
        (before ++ (first ++ (Property.commaList names ++ .punctuation .colon :: tail)) :: after)
        (before ++ (first ++ (Property.commaList names ++ tail)) :: after)
  | split {rows others : List (List Token)} (hsplits : Splits format name rows others) :
      Rewrites format name rows others

namespace Draft

open TokenLine (unnumbered)

variable {format : Format} {layout name : Text} {line lastLine : Nat} {draft last : Draft}
  {before rows others after : List (List Token)} {first rest tail : List Token}
  {more : List TokenLine} {names : List Text}

/-- A semicolon within a block may as well be a line end. -/
theorem OpenAfter.reads_semicolon_iff (hopen : OpenAfter format name (before ++ [first])) :
    Reads format [] 0 (.ofName name)
        (unnumbered (before ++ (first ++ .punctuation .semicolon :: rest) :: after)) last ↔
      Reads format [] 0 (.ofName name) (unnumbered (before ++ first :: rest :: after)) last := by
  obtain ⟨middle, pending, hpending, hcut⟩ := hopen.exists_reads_iff
  have hsemicolon := hcut (.punctuation .semicolon :: rest) after last
    (.inr (by simp [Statement.isSeparator]))
  have hline := hcut [] (rest :: after) last (.inr (by simp))
  rw [List.append_nil] at hline
  rw [hsemicolon, hline, Draft.reads_semicolon_iff hpending, reads_lineEnd_iff, unnumbered_cons]

theorem reads_of_splits (hsplits : Splits format name rows others) :
    Reads format [] 0 (.ofName name) (unnumbered rows) last ↔
      Reads format [] 0 (.ofName name) (unnumbered others) last := by
  cases hsplits with
  | statement hopen hstarts hnames hvalues hending =>
      obtain ⟨middle, pending, hpending, hcut⟩ := hopen.exists_reads_iff
      rw [hcut _ _ _ (.inl hstarts), hcut _ _ _ (.inl hstarts),
        reads_apart_iff hpending hnames hvalues hending]
  | header hspells =>
      simp only [unnumbered_append, unnumbered_cons, reads_append_iff]
      exact exists_congr fun middle => and_congr_right fun _ => reads_header_iff hspells

/-- After the colon of a statement stands a value. -/
theorem head?_ne_of_reads_colon {pending : PendingKey} (hpending : draft.pending = some pending)
    (hnames : names ≠ [])
    (hreads : Reads format layout lastLine draft
      (⟨line, Property.commaList names ++ .punctuation .colon :: tail⟩ :: more) last)
    {mark : Punctuation} (hmark : Statement.isSeparator (.punctuation mark) = false) :
    tail.head? ≠ some (.punctuation mark) := by
  intro hhead
  obtain ⟨rest, rfl⟩ := List.head?_eq_some_iff.mp hhead
  have hkept : ∀ token ∈ Property.commaList names ++ [.punctuation .colon],
      Statement.isSeparator token = false :=
    List.forall_mem_append.mpr
      ⟨Statement.isSeparator_commaList names, by simp [Statement.isSeparator]⟩
  rw [List.append_cons, reads_first_iff hpending (by simp) hkept, List.append_assoc] at hreads
  obtain ⟨statement, hstatement, -⟩ := hreads
  obtain ⟨_, _, -, hvalue, -⟩ := (Statement.derives_shared_iff hnames).mp hstatement
  refine hvalue.head?_ne mark ?_
  rw [List.takeWhile_cons, hmark]
  rfl

theorem Reads.rewrite (hrewrites : Rewrites format name rows others)
    (hreads : Reads format [] 0 (.ofName name) (unnumbered rows) last) :
    Reads format [] 0 (.ofName name) (unnumbered others) last := by
  cases hrewrites with
  | lineBreak hopen =>
      have hline := hopen.reads_semicolon_iff.mp hreads
      rw [unnumbered_append, reads_append_iff] at hline ⊢
      obtain ⟨middle, hbefore, hafter⟩ := hline
      exact ⟨middle, hbefore, reads_filled_iff.mpr hafter⟩
  | semicolon hopen => exact hopen.reads_semicolon_iff.mpr hreads
  | colon hopen hstarts hnames hcomma hcolon =>
      obtain ⟨middle, pending, hpending, hcut⟩ := hopen.exists_reads_iff
      rw [hcut _ _ _ (.inl hstarts)] at hreads ⊢
      exact (reads_colon_iff hpending hnames hcomma hcolon).mp hreads
  | noColon hopen hstarts hnames =>
      obtain ⟨middle, pending, hpending, hcut⟩ := hopen.exists_reads_iff
      rw [hcut _ _ _ (.inl hstarts)] at hreads ⊢
      have hhead := @head?_ne_of_reads_colon _ _ _ _ _ _ _ _ _ _ hpending hnames hreads
      exact (reads_colon_iff hpending hnames (hhead rfl) (hhead rfl)).mpr hreads
  | split hsplits => exact (reads_of_splits hsplits).mp hreads

end Draft

namespace KeyMap

/-- Rewritten lines give the same key map, and lines taken apart give one only if the lines
as they were do. -/
theorem ofLines_rewrite (format : Format) (name : Text) (lines others : List TokenLine) :
    (Rewrites format name (lines.map TokenLine.tokens) (others.map TokenLine.tokens) →
      ∀ map, (ofLines name lines format).outcome = .ok map →
        (ofLines name others format).outcome = .ok map) ∧
    (Splits format name (lines.map TokenLine.tokens) (others.map TokenLine.tokens) →
      ∀ map, (ofLines name others format).outcome = .ok map →
        (ofLines name lines format).outcome = .ok map) := by
  constructor
  · intro hrewrites map hmap
    obtain ⟨draft, hreads, hfinish⟩ := ofLines_eq_ok_iff.mp hmap
    exact ofLines_eq_ok_iff.mpr ⟨draft, hreads.rewrite hrewrites, hfinish⟩
  · intro hsplits map hmap
    obtain ⟨draft, hreads, hfinish⟩ := ofLines_eq_ok_iff.mp hmap
    exact ofLines_eq_ok_iff.mpr ⟨draft, (Draft.reads_of_splits hsplits).mpr hreads, hfinish⟩

theorem ofLines_back : (ofLines "pad" backLines .overlay).outcome = .ok backOverlay := by
  have hlines : TokenLine.ofText "pad" backText = .ok backLines := by with_unfolding_all rfl
  have htext := ofText_back
  rwa [ofText_eq_ofLines, hlines] at htext

theorem openAfter_back :
    Draft.OpenAfter .overlay "pad"
      [[.word "map", .word "key", .word "158", .word "BACK", .punctuation .openBrace]] := by
  have hentry : DeviceEntry.Derives [.word "map", .word "key", .word "158", .word "BACK"]
      ⟨.scan, 158, 4⟩ := .scan (by rfl) ofLabel?_back
  have hdirects : Draft.Directs .overlay 0 (.ofName "pad") (_ ++ .punctuation .openBrace :: []) _ []
    := .entryBlock hentry (by rfl) (by rfl)
  exact ⟨_, Draft.reads_token_iff.mpr ⟨_, [], (Draft.steps_iff_directs rfl).mpr hdirects,
    .inl ⟨rfl, Draft.reads_lineEnd_iff.mpr (Draft.reads_nil_iff.mpr rfl)⟩⟩, rfl⟩

/-- The first two lines joined. -/
def backJoined : List TokenLine :=
  [⟨1, [.word "map", .word "key", .word "158", .word "BACK", .punctuation .openBrace,
      .punctuation .semicolon, .punctuation .colon, .literal "'b'", .word "fallback",
      .word "HOME"]⟩,
    ⟨2, [.punctuation .closeBrace]⟩]

/-- The first line as two lines. -/
def backHeaded : List TokenLine :=
  [⟨1, [.word "map", .word "key", .word "158", .word "BACK"]⟩,
    ⟨2, [.word "key", .word "BACK", .punctuation .openBrace]⟩,
    ⟨3, [.punctuation .colon, .literal "'b'", .word "fallback", .word "HOME"]⟩,
    ⟨4, [.punctuation .closeBrace]⟩]

theorem ofLines_rewrite_back :
    (ofLines "pad" backJoined .overlay).outcome = .ok backOverlay ∧
      (ofLines "pad" backHeaded .overlay).outcome = .ok backOverlay ∧
        (ofLines "pad" backLines .overlay).outcome = .ok backOverlay := by
  have hjoined : Rewrites .overlay "pad" (backLines.map TokenLine.tokens)
      (backJoined.map TokenLine.tokens) :=
    @Rewrites.semicolon _ _ [] _ _ _ openAfter_back
  have hheaded : Splits .overlay "pad" (backLines.map TokenLine.tokens)
      (backHeaded.map TokenLine.tokens) :=
    @Splits.header _ _ [] _ _ _ _ (.scan "BACK" (by decide))
  have hlast := (ofLines_rewrite .overlay "pad" backLines backHeaded).1 (.split hheaded) _
    ofLines_back
  exact ⟨(ofLines_rewrite .overlay "pad" backLines backJoined).1 hjoined _ ofLines_back, hlast,
    (ofLines_rewrite .overlay "pad" backLines backHeaded).2 hheaded _ hlast⟩

end KeyMap

end KeyLayout
