import KeyLayout.Proofs.Grammar.Numbering
import Mathlib.Data.List.TakeWhile

namespace KeyLayout

/-! Layouts that say the same in other words: with line ends for semicolons, with or without
the colons after properties, with a shared value written out for each property, and with
the block of a device code's key on lines of its own. -/

theorem ValuePart.DerivesAll.getLast?_ne {tokens : List Token} {parts : List ValuePart}
    (hderives : DerivesAll tokens parts) (hsome : parts ≠ []) (before : List Token)
    (mark : Punctuation) : (before ++ tokens).getLast? ≠ some (.punctuation mark) := by
  induction hderives generalizing before with
  | nil => contradiction
  | cons hfirst hrest ih =>
      cases hrest with
      | nil =>
          cases hfirst with
          | character hgives => cases hgives <;> simp
          | fallback => simp
          | replacement => simp
      | cons hsecond hothers =>
          rw [← List.append_assoc]
          exact ih (List.cons_ne_nil _ _) _

theorem Statement.Derives.getLast?_ne {tokens : List Token} {statement : Statement}
    (hderives : Derives tokens statement) (mark : Punctuation) :
    tokens.getLast? ≠ some (.punctuation mark) := by
  cases hderives with
  | bare hvalue =>
      obtain ⟨hparts, hsome, -, -⟩ := hvalue
      exact hparts.getLast?_ne hsome [_] mark
  | plain _ hvalue =>
      obtain ⟨hparts, hsome, -, -⟩ := hvalue
      exact hparts.getLast?_ne hsome _ mark
  | colon _ hvalue =>
      obtain ⟨hparts, hsome, -, -⟩ := hvalue
      rw [List.append_cons]
      exact hparts.getLast?_ne hsome _ mark

/-- Names with commas between them. -/
def Property.commaList : List Text → List Token
  | [] => []
  | [name] => [.word name]
  | name :: names => .word name :: .punctuation .comma :: commaList names

namespace Statement

open Property (commaList)

variable {tokens values left : List Token} {statement : Statement} {after : Option Token}
  {names : List Text} {name : Text}

def shared (names : List Text) (values : List Token) : List Token :=
  commaList names ++ .punctuation .colon :: values

def apart : List Text → List Token → List Token
  | [], _ => []
  | [name], values => .word name :: .punctuation .colon :: values
  | name :: names, values =>
      .word name :: .punctuation .colon :: values ++ .punctuation .semicolon :: apart names values

/-- Each name is that of the property at its place. -/
abbrev Names (names : List Text) (properties : List Property) : Prop :=
  List.Forall₂ (fun name property => Property.Derives (.word name) property) names properties

theorem isSeparator_commaList (names : List Text) :
    ∀ token ∈ commaList names, isSeparator token = false := by
  induction names with
  | nil => simp [commaList]
  | cons name others ih =>
      cases others with
      | nil => simp [commaList, isSeparator]
      | cons second others =>
          exact List.forall_mem_cons.mpr ⟨rfl, List.forall_mem_cons.mpr ⟨rfl, ih⟩⟩

theorem readList_commaList_eq_ok_iff {properties : List Property} {rest : List Token}
    (hnames : names ≠ []) (hleft : left.head? ≠ some (.punctuation .comma)) :
    Property.readList after (commaList names ++ left) = .ok (properties, rest) ↔
      Names names properties ∧ rest = left := by
  induction names generalizing properties with
  | nil => contradiction
  | cons name others ih =>
      cases others with
      | nil =>
          change Property.readList after (.word name :: left) = _ ↔ _
          rw [Property.readList_cons_of_ne_comma hleft]
          constructor
          · intro hread
            cases hproperty : Property.read (.word name) with
            | error =>
                rw [hproperty] at hread
                contradiction
            | ok property =>
                rw [hproperty] at hread
                cases hread
                exact ⟨.cons (Property.read_eq_ok_iff.mp hproperty) .nil, rfl⟩
          · intro hnamed
            obtain ⟨_ | ⟨hproperty, _ | _⟩, rfl⟩ := hnamed
            rw [Property.read_eq_ok_iff.mpr hproperty]
            rfl
      | cons second others =>
          change Property.readList after (.word name :: .punctuation .comma ::
            (commaList (second :: others) ++ left)) = _ ↔ _
          rw [Property.readList]
          simp only [bind_eq_ok_iff, Property.read_eq_ok_iff]
          constructor
          · intro hread
            obtain ⟨property, hproperty, ⟨more, tail⟩, hmore, heq⟩ := hread
            cases heq
            obtain ⟨hnamed, rfl⟩ := (ih (List.cons_ne_nil _ _)).mp hmore
            exact ⟨.cons hproperty hnamed, rfl⟩
          · intro hnamed
            obtain ⟨_ | ⟨hproperty, hothers⟩, rfl⟩ := hnamed
            exact ⟨_, hproperty, _, (ih (List.cons_ne_nil _ _)).mpr ⟨hothers, rfl⟩, rfl⟩

theorem head?_commaList (hnames : names ≠ []) (mark : Punctuation) (left : List Token) :
    (commaList names ++ left).head? ≠ some (.punctuation mark) := by
  cases names with
  | nil => contradiction
  | cons name others => cases others <;> simp [commaList]

theorem commaList_ne_nil (hnames : names ≠ []) : commaList names ≠ [] := by
  cases names with
  | nil => contradiction
  | cons name others => cases others <;> simp [commaList]

/-- After these tokens of a line within a block a statement may start. -/
def Starts (first : List Token) : Prop :=
  ∀ token ∈ first.getLast?, token = .punctuation .semicolon ∨ token = .punctuation .openBrace

/-- What a statement of these names and this value means. -/
def Sets (names : List Text) (values : List Token) (statement : Statement) : Prop :=
  ∃ properties value, Names names properties ∧ Value.Derives values value ∧
    statement = ⟨properties, value⟩

theorem derives_names_iff (hnames : names ≠ [])
    (hcomma : left.head? ≠ some (.punctuation .comma)) :
    Derives (commaList names ++ left) statement ↔
      ∃ properties value, Names names properties ∧
        (Value.Derives left value ∧ left.head? ≠ some (.punctuation .colon) ∨
          ∃ values, left = .punctuation .colon :: values ∧ Value.Derives values value) ∧
        statement = ⟨properties, value⟩ := by
  have hread : read none (commaList names ++ left) = .ok statement ↔ _ := read_eq_ok_iff
  rw [← hread, read_of_head?_ne (head?_commaList hnames _ _)]
  simp only [readList_commaList_eq_ok_iff hnames hcomma, Value.read_eq_ok_iff]
  constructor
  · intro hread
    obtain ⟨properties, rest, value, ⟨hnamed, rfl⟩, hvalue, heq⟩ := hread
    exact ⟨properties, value, hnamed, hvalue, heq⟩
  · intro hnamed
    obtain ⟨properties, value, hnamed, hvalue, heq⟩ := hnamed
    exact ⟨properties, left, value, ⟨hnamed, rfl⟩, hvalue, heq⟩

theorem derives_commaList_iff (hnames : names ≠ [])
    (hcomma : values.head? ≠ some (.punctuation .comma))
    (hcolon : values.head? ≠ some (.punctuation .colon)) :
    Derives (commaList names ++ values) statement ↔ Sets names values statement := by
  rw [derives_names_iff hnames hcomma]
  refine exists_congr fun properties => exists_congr fun value =>
    and_congr_right fun _ => and_congr_left' ⟨fun hvalue => ?_, fun hvalue => .inl ⟨hvalue, hcolon⟩⟩
  rcases hvalue with ⟨hvalue, -⟩ | ⟨tail, rfl, -⟩
  · exact hvalue
  · exact absurd rfl hcolon

theorem derives_shared_iff (hnames : names ≠ []) :
    Derives (shared names values) statement ↔ Sets names values statement := by
  rw [shared, derives_names_iff hnames (by simp)]
  refine exists_congr fun properties => exists_congr fun value =>
    and_congr_right fun _ => and_congr_left' ⟨fun hvalue => ?_, fun hvalue => .inr ⟨_, rfl, hvalue⟩⟩
  rcases hvalue with ⟨-, hhead⟩ | ⟨tail, htail, hvalue⟩
  · exact absurd rfl hhead
  · cases htail
    exact hvalue

theorem Sets.value_unique {others : List Text} {other : Statement}
    (hsets : Sets names values statement) (hother : Sets others values other) :
    other.value = statement.value := by
  obtain ⟨properties, value, -, hvalue, rfl⟩ := hsets
  obtain ⟨_, _, -, hown, rfl⟩ := hother
  have hread : Value.read none values = .ok value := Value.read_eq_ok_iff.mpr hvalue
  rw [Value.read_eq_ok_iff.mpr hown] at hread
  exact Except.ok.inj hread

/-- What is set under several names is set under the first one and then under the others. -/
theorem exists_sets_cons_iff (holds : List (Property × Value) → Prop) :
    (∃ statement, Sets (name :: names) values statement ∧ holds (settings [statement])) ↔
      ∃ first, Sets [name] values first ∧ ∃ rest, Sets names values rest ∧
        holds (settings [first] ++ settings [rest]) := by
  constructor
  · intro hsets
    obtain ⟨statement, ⟨_, value, _ | ⟨hproperty, hnamed⟩, hvalue, rfl⟩, hholds⟩ := hsets
    exact ⟨⟨[_], value⟩, ⟨_, value, .cons hproperty .nil, hvalue, rfl⟩, ⟨_, value⟩,
      ⟨_, value, hnamed, hvalue, rfl⟩, by simpa [settings] using hholds⟩
  · intro hsets
    obtain ⟨first, hfirst, rest, hrest, hholds⟩ := hsets
    have hvalues := hfirst.value_unique hrest
    obtain ⟨_, value, _ | ⟨hproperty, _ | _⟩, hvalue, rfl⟩ := hfirst
    obtain ⟨properties, _, hnamed, -, rfl⟩ := hrest
    obtain rfl := hvalues
    exact ⟨⟨_ :: properties, _⟩, ⟨_, _, .cons hproperty hnamed, hvalue, rfl⟩,
      by simpa [settings] using hholds⟩

end Statement

namespace Draft

variable {format : Format} {layout name : Text} {line lastLine : Nat}
  {draft middle last next : Draft} {pending : PendingKey} {token : Token}
  {first rest left tail values : List Token} {more : List TokenLine} {names : List Text}

/-- A line may be cut between these tokens: after a mark that ends a statement or opens a
block, or before one that ends a statement. -/
def Cut (first tail : List Token) : Prop :=
  Statement.Starts first ∨ ∀ token ∈ tail.head?, Statement.isSeparator token = true

theorem Cut.drop (hcut : Cut (first ++ left) tail) : Cut left tail := by
  rcases hcut with hlast | hhead
  · refine .inl fun token htoken => hlast token ?_
    rw [List.getLast?_append, Option.mem_def.mp htoken]
    rfl
  · exact .inr hhead

/-- A line that is cut right after a statement is cut before a separator. -/
theorem Cut.isSeparator_of_derives {statement : Statement} (hcut : Cut first tail)
    (hstatement : statement.Derives first) :
    ∀ token ∈ tail.head?, Statement.isSeparator token = true := by
  rcases hcut with hlast | hhead
  · have hsome := mt List.getLast?_eq_none_iff.mp hstatement.ne_nil
    obtain ⟨mark, hmark⟩ := Option.ne_none_iff_exists'.mp hsome
    rcases hlast mark hmark with rfl | rfl
    · exact absurd hmark (hstatement.getLast?_ne _)
    · exact absurd hmark (hstatement.getLast?_ne _)
  · exact hhead

theorem Steps.unique {other : Draft} {others : List Token}
    (hsteps : draft.Steps format line token rest next left)
    (hother : draft.Steps format line token rest other others) : other = next ∧ others = left := by
  obtain ⟨notes, hstep⟩ := hsteps
  obtain ⟨_, hown⟩ := hother
  rw [hstep] at hown
  cases hown
  exact ⟨rfl, rfl⟩

/-- A step that stays within a block is the same with more tokens after a cut. -/
theorem Steps.append (hsteps : draft.Steps format line token rest next left)
    (hopen : next.pending.isSome = true) (hcut : Cut (token :: rest) tail) :
    draft.Steps format line token (rest ++ tail) next (left ++ tail) ∧ Cut left tail := by
  cases hpending : draft.pending with
  | none =>
      simp only [steps_iff_directs hpending] at hsteps ⊢
      rw [← List.cons_append]
      generalize token :: rest = tokens at hsteps hcut
      cases hsteps with
      | type =>
          rw [pending_add, hpending] at hopen
          contradiction
      | entry =>
          rw [pending_add, hpending] at hopen
          contradiction
      | block hlabel hnew =>
          rw [List.append_cons] at hcut
          exact ⟨.block hlabel hnew, hcut.drop⟩
      | entryBlock hentry hadmits hnew =>
          rw [List.append_cons] at hcut
          rw [List.append_assoc, List.cons_append]
          exact ⟨.entryBlock hentry hadmits hnew, hcut.drop⟩
  | some pending =>
      rcases hsteps.block_cases hpending with ⟨rfl, rfl, rfl⟩ | ⟨-, -, rfl, -⟩ |
        ⟨first, statement, hmark, hwhole, hstatement, hending, haccepts, rfl⟩
      · rw [← List.singleton_append] at hcut
        exact ⟨(steps_semicolon_iff hpending).mpr ⟨rfl, rfl⟩, hcut.drop⟩
      · contradiction
      · rw [hwhole] at hcut
        refine ⟨(steps_statement_iff hpending hmark).mpr ⟨first, statement, ?_, hstatement, ?_,
          haccepts, rfl⟩, hcut.drop⟩
        · rw [← List.cons_append, hwhole, List.append_assoc]
        · cases left with
          | cons ending others => exact hending
          | nil => exact (List.append_nil first ▸ hcut).isSeparator_of_derives hstatement

/-- Reading a line up to a cut within a block, and then on from there. -/
theorem reads_cut_iff (hfirst : Reads format layout lastLine draft [⟨line, first⟩] middle)
    (hopen : middle.pending.isSome = true) (hcut : Cut first tail) :
    Reads format layout lastLine draft (⟨line, first ++ tail⟩ :: more) last ↔
      Reads format layout lastLine middle (⟨line, tail⟩ :: more) last := by
  -- a step takes any number of tokens of the line, so the induction is on how many are left
  generalize hsize : first.length = size
  induction size using Nat.strongRecOn generalizing draft first with
  | ind size ih =>
      subst hsize
      cases first with
      | nil =>
          obtain rfl := reads_nil_iff.mp (reads_lineEnd_iff.mp hfirst)
          rfl
      | cons token rest =>
          obtain ⟨next, left, hsteps, ⟨hsome, hleft⟩ | ⟨hnone, -, hnil⟩⟩ :=
            reads_token_iff.mp hfirst
          · obtain ⟨hmore, hrest⟩ := hsteps.append hsome hcut
            rw [← ih left.length (Nat.lt_succ_of_le hsteps.length_le) hleft hrest rfl,
              List.cons_append, reads_token_iff]
            constructor
            · intro hreads
              obtain ⟨other, others, hother, ⟨-, hreads⟩ | ⟨hnone, -⟩⟩ := hreads
              · obtain ⟨rfl, rfl⟩ := hmore.unique hother
                exact hreads
              · obtain ⟨rfl, -⟩ := hmore.unique hother
                rw [hnone] at hsome
                contradiction
            · intro hreads
              exact ⟨next, _, hmore, .inl ⟨hsome, hreads⟩⟩
          · obtain rfl := reads_nil_iff.mp hnil
            rw [hnone] at hopen
            contradiction

section Block

variable (hpending : draft.pending = some pending)

include hpending

/-- These tokens and those up to the next separator are read as one statement. -/
theorem reads_first_iff (hfirst : first ≠ [])
    (hmarks : ∀ token ∈ first, Statement.isSeparator token = false) :
    Reads format layout lastLine draft (⟨line, first ++ tail⟩ :: more) last ↔
      ∃ statement,
        Statement.Derives (first ++ tail.takeWhile (!Statement.isSeparator ·)) statement ∧
          pending.Accepts (Statement.settings [statement]) ∧
            Reads format layout lastLine
              { draft with
                pending := some (pending.withSettings (Statement.settings [statement])) }
              (⟨line, tail.dropWhile (!Statement.isSeparator ·)⟩ :: more) last := by
  obtain ⟨token, rest, rfl⟩ := List.exists_cons_of_ne_nil hfirst
  rw [List.cons_append, reads_statement_iff hpending (hmarks token (List.mem_cons_self ..))]
  have htail := List.takeWhile_append_dropWhile (p := (!Statement.isSeparator ·)) (l := tail)
  have hkept : ∀ own ∈ token :: rest ++ tail.takeWhile (!Statement.isSeparator ·),
      Statement.isSeparator own = false := by
    refine List.forall_mem_append.mpr ⟨hmarks, fun own hown => ?_⟩
    simpa using List.mem_takeWhile_imp hown
  have hnext : ∀ ending ∈ (tail.dropWhile (!Statement.isSeparator ·)).head?,
      Statement.isSeparator ending = true := by
    intro ending hending
    have hhead := List.head?_dropWhile_not (!Statement.isSeparator ·) tail
    rw [Option.mem_def.mp hending] at hhead
    simpa using hhead
  constructor
  · intro hreads
    obtain ⟨whole, left, statement, hwhole, hstatement, hending, haccepts, hleft⟩ := hreads
    obtain ⟨htake, hdrop⟩ := cut_append hstatement.isSeparator_eq_false hending
    obtain ⟨hown, hrest⟩ := cut_append hkept hnext
    rw [List.append_assoc, htail, List.cons_append, hwhole] at hown hrest
    rw [← hown, ← hrest, htake, hdrop]
    exact ⟨statement, hstatement, haccepts, hleft⟩
  · intro hreads
    obtain ⟨statement, hstatement, haccepts, hleft⟩ := hreads
    exact ⟨_, _, statement, by rw [List.append_assoc, htail, List.cons_append], hstatement,
      hnext, haccepts, hleft⟩

/-- A colon after the properties of a statement changes nothing. -/
theorem reads_colon_iff (hnames : names ≠ [])
    (hcomma : tail.head? ≠ some (.punctuation .comma))
    (hcolon : tail.head? ≠ some (.punctuation .colon)) :
    Reads format layout lastLine draft (⟨line, Property.commaList names ++ tail⟩ :: more) last ↔
      Reads format layout lastLine draft
        (⟨line, Property.commaList names ++ .punctuation .colon :: tail⟩ :: more) last := by
  have hlist := Statement.isSeparator_commaList names
  have hkept (mark : Punctuation) (hmark : tail.head? ≠ some (.punctuation mark)) :
      (tail.takeWhile (!Statement.isSeparator ·)).head? ≠ some (.punctuation mark) := by
    cases tail with
    | nil => simp
    | cons token rest =>
        rw [List.takeWhile_cons]
        split
        next => exact hmark
        next => simp
  rw [reads_first_iff hpending (Statement.commaList_ne_nil hnames) hlist, List.append_cons,
    reads_first_iff hpending (by simp) ?_]
  · simp only [List.append_assoc, List.singleton_append,
      Statement.derives_commaList_iff hnames (hkept .comma hcomma) (hkept .colon hcolon)]
    exact exists_congr fun statement =>
      and_congr_left' (Statement.derives_shared_iff hnames).symm
  · refine List.forall_mem_append.mpr ⟨hlist, ?_⟩
    simp [Statement.isSeparator]

theorem reads_shared_iff (hnames : names ≠ [])
    (hvalues : ∀ token ∈ values, Statement.isSeparator token = false)
    (hending : ∀ ending ∈ tail.head?, Statement.isSeparator ending = true) :
    Reads format layout lastLine draft (⟨line, Statement.shared names values ++ tail⟩ :: more)
        last ↔
      ∃ statement, Statement.Sets names values statement ∧
        pending.Accepts (Statement.settings [statement]) ∧
          Reads format layout lastLine
            { draft with
              pending := some (pending.withSettings (Statement.settings [statement])) }
            (⟨line, tail⟩ :: more) last := by
  have hkept : ∀ token ∈ Statement.shared names values, Statement.isSeparator token = false :=
    List.forall_mem_append.mpr ⟨Statement.isSeparator_commaList names,
      List.forall_mem_cons.mpr ⟨rfl, hvalues⟩⟩
  have hnone : ∀ own ∈ ([] : List Token), Statement.isSeparator own = false := by simp
  have hmarks : tail.takeWhile (!Statement.isSeparator ·) = [] ∧
      tail.dropWhile (!Statement.isSeparator ·) = tail := cut_append hnone hending
  rw [reads_first_iff hpending (by simp [Statement.shared]) hkept, hmarks.1, hmarks.2,
    List.append_nil]
  simp only [Statement.derives_shared_iff hnames]

end Block

theorem reads_apart_iff (hpending : draft.pending = some pending) (hnames : names ≠ [])
    (hvalues : ∀ token ∈ values, Statement.isSeparator token = false)
    (hending : ∀ ending ∈ tail.head?, Statement.isSeparator ending = true) :
    Reads format layout lastLine draft (⟨line, Statement.apart names values ++ tail⟩ :: more)
        last ↔
      Reads format layout lastLine draft (⟨line, Statement.shared names values ++ tail⟩ :: more)
        last := by
  induction names generalizing draft pending with
  | nil => contradiction
  | cons name others ih =>
      cases others with
      | nil => rfl
      | cons second others =>
          change Reads format layout lastLine draft
            (⟨line, Statement.shared [name] values ++ .punctuation .semicolon ::
              Statement.apart (second :: others) values ++ tail⟩ :: more) last ↔ _
          rw [List.append_assoc, List.cons_append,
            reads_shared_iff hpending (List.cons_ne_nil _ _) hvalues
              (by simp [Statement.isSeparator]),
            reads_shared_iff hpending hnames hvalues hending,
            Statement.exists_sets_cons_iff (fun settings => pending.Accepts settings ∧
              Reads format layout lastLine
                { draft with pending := some (pending.withSettings settings) }
                (⟨line, tail⟩ :: more) last)]
          refine exists_congr fun first => and_congr_right fun _ => ?_
          rw [reads_semicolon_iff rfl, ih rfl (List.cons_ne_nil _ _),
            reads_shared_iff rfl (List.cons_ne_nil _ _) hvalues hending]
          have happend (rest : List (Property × Value)) :
              pending.withSettings (Statement.settings [first] ++ rest) =
                (pending.withSettings (Statement.settings [first])).withSettings rest :=
            List.foldl_append
          simp only [PendingKey.accepts_append_iff, happend]
          constructor
          · intro hreads
            obtain ⟨haccepts, rest, hrest, hothers, hreads⟩ := hreads
            exact ⟨rest, hrest, ⟨haccepts, hothers⟩, hreads⟩
          · intro hreads
            obtain ⟨rest, hrest, ⟨haccepts, hothers⟩, hreads⟩ := hreads
            exact ⟨haccepts, rest, hrest, hothers, hreads⟩

end Draft

/-- A device code and the name of its key, as a line or a header spells them. -/
inductive DeviceEntry.Spells : List Token → Text → Prop
  | scan {number : Token} (label : Text) (hnumber : number.text ≠ Text.ofString "usage") :
      Spells [.word "map", .word "key", number, .word label] label
  | usage {usage : Token} (number : Token) (label : Text)
      (husage : usage.text = Text.ofString "usage") :
      Spells [.word "map", .word "key", usage, number, .word label] label

namespace DeviceEntry.Spells

variable {tokens first rest others : List Token} {label : Text} {entry : DeviceEntry}

theorem exists_cons (hspells : Spells tokens label) :
    ∃ others, tokens = .word (Text.ofString "map") :: others := by
  cases hspells with
  | scan => exact ⟨_, rfl⟩
  | usage => exact ⟨_, rfl⟩

theorem eq_of_derives (hspells : Spells tokens label) (hentry : entry.Derives first)
    (hwhole : first ++ rest = tokens ++ others) : first = tokens ∧ rest = others := by
  cases hspells with
  | scan label hnumber =>
      cases hentry with
      | scan hdevice hlabel =>
          cases hwhole
          exact ⟨rfl, rfl⟩
      | usage husage hdevice hlabel =>
          cases hwhole
          exact absurd husage hnumber
  | usage number label husage =>
      cases hentry with
      | scan hdevice hlabel =>
          cases hwhole
          rw [husage] at hdevice
          exact absurd hdevice (Draft.read_usage_ne_ok _)
      | usage =>
          cases hwhole
          exact ⟨rfl, rfl⟩

theorem ofLabel?_of_derives (hspells : Spells tokens label) (hentry : entry.Derives tokens) :
    KeyCode.ofLabel? label = some entry.code := by
  cases hspells with
  | scan =>
      cases hentry with
      | scan hdevice hlabel => exact hlabel
  | usage =>
      cases hentry with
      | usage husage hdevice hlabel => exact hlabel

end DeviceEntry.Spells

namespace Draft

variable {format : Format} {layout name : Text} {line lastLine : Nat}
  {draft middle last next : Draft} {pending : PendingKey} {label : Text}
  {tokens rest tail : List Token} {more : List TokenLine}

theorem not_reads_map (hpending : draft.pending = some pending) :
    ¬Reads format layout lastLine draft (⟨line, .word "map" :: rest⟩ :: more) last := by
  have hproperty {property : Property} : ¬property.Derives (.word "map") := by
    intro hderives
    have herror : Property.read (.word "map") = .error (.combination (.unknown "map")) := rfl
    rw [Property.read_eq_ok_iff.mpr hderives] at herror
    contradiction
  have hproperties {first others : List Token} {properties : List Property}
      (hderives : Property.DerivesAll first properties) :
      .word (Text.ofString "map") :: rest ≠ first ++ others := by
    intro hwhole
    cases hderives with
    | single hown =>
        cases hwhole
        exact hproperty hown
    | cons hown =>
        cases hwhole
        exact hproperty hown
  intro hreads
  obtain ⟨first, left, statement, hwhole, hstatement, -⟩ :=
    (reads_statement_iff hpending rfl).mp hreads
  cases hstatement with
  | bare => cases hwhole
  | plain hown =>
      rw [List.append_assoc] at hwhole
      exact hproperties hown hwhole
  | colon hown =>
      rw [List.append_assoc] at hwhole
      exact hproperties hown hwhole

theorem reads_entry_iff (hspells : DeviceEntry.Spells tokens label)
    (hpending : draft.pending = none) :
    Reads format layout lastLine draft (⟨line, tokens ++ rest⟩ :: more) last ↔
      ∃ entry, DeviceEntry.Derives tokens entry ∧ draft.Admits format (.entry entry) ∧
        (rest = [] ∧ Reads format layout lastLine (draft.add (.entry entry)) more last ∨
          ∃ tail, rest = .punctuation .openBrace :: tail ∧
            (draft.add (.entry entry)).map.keys.contains entry.code = false ∧
              Reads format layout lastLine ((draft.add (.entry entry)).opened line entry.code)
                (⟨line, tail⟩ :: more) last) := by
  have hadd (item : Item) : (draft.add item).pending = none := by rw [pending_add, hpending]
  obtain ⟨others, rfl⟩ := hspells.exists_cons
  rw [List.cons_append, reads_token_iff]
  simp only [steps_iff_directs hpending]
  rw [← List.cons_append]
  constructor
  · intro hreads
    obtain ⟨next, left, hdirects, hnext⟩ := hreads
    generalize hwhole : _ :: others ++ rest = whole at hdirects
    cases hdirects with
    | type => exact absurd (List.cons.inj hwhole).1 (by decide)
    | block => exact absurd (List.cons.inj hwhole).1 (by decide)
    | entry hentry hadmits hleft =>
        obtain ⟨rfl, rfl⟩ := hspells.eq_of_derives hentry hwhole.symm
        rcases hnext with ⟨hsome, -⟩ | ⟨-, rfl, hreads⟩
        · rw [hadd] at hsome
          contradiction
        · exact ⟨_, hentry, hadmits, .inl ⟨rfl, hreads⟩⟩
    | entryBlock hentry hadmits hnew =>
        obtain ⟨rfl, rfl⟩ := hspells.eq_of_derives hentry hwhole.symm
        rcases hnext with ⟨-, hreads⟩ | ⟨hnone, -⟩
        · exact ⟨_, hentry, hadmits, .inr ⟨_, rfl, hnew, hreads⟩⟩
        · contradiction
  · intro hentries
    obtain ⟨entry, hentry, hadmits, ⟨rfl, hreads⟩ | ⟨tail, rfl, hnew, hreads⟩⟩ := hentries
    · exact ⟨_, [], .entry hentry hadmits (by simp), .inr ⟨hadd _, rfl, hreads⟩⟩
    · exact ⟨_, tail, .entryBlock hentry hadmits hnew, .inl ⟨rfl, hreads⟩⟩

theorem reads_key_iff (hpending : draft.pending = none) :
    Reads format layout lastLine draft
        (⟨line, .word "key" :: .word label :: .punctuation .openBrace :: tail⟩ :: more) last ↔
      ∃ code, KeyCode.ofLabel? label = some code ∧ draft.map.keys.contains code = false ∧
        Reads format layout lastLine (draft.opened line code) (⟨line, tail⟩ :: more) last := by
  rw [reads_token_iff]
  simp only [steps_iff_directs hpending]
  constructor
  · intro hreads
    obtain ⟨next, left, hdirects, hnext⟩ := hreads
    generalize hwhole :
      _ :: Token.word label :: Token.punctuation .openBrace :: tail = whole at hdirects
    cases hdirects with
    | type => exact absurd (List.cons.inj hwhole).1 (by decide)
    | block hlabel hnew =>
        cases hwhole
        rcases hnext with ⟨-, hreads⟩ | ⟨hnone, -⟩
        · exact ⟨_, hlabel, hnew, hreads⟩
        · contradiction
    | entry hentry hadmits hleft =>
        obtain ⟨others, rfl⟩ := exists_of_derives hentry
        exact absurd (List.cons.inj hwhole).1 (by decide)
    | entryBlock hentry hadmits hnew =>
        obtain ⟨others, rfl⟩ := exists_of_derives hentry
        exact absurd (List.cons.inj hwhole).1 (by decide)
  · intro hreads
    obtain ⟨code, hlabel, hnew, hreads⟩ := hreads
    exact ⟨_, tail, .block hlabel hnew, .inl ⟨rfl, hreads⟩⟩

/-- The block of a device code's key may as well be opened on a line of its own. -/
theorem reads_header_iff (hspells : DeviceEntry.Spells tokens label) :
    Reads format layout lastLine draft
        (⟨line, tokens ++ .punctuation .openBrace :: tail⟩ :: more) last ↔
      Reads format layout lastLine draft
        (⟨line, tokens⟩ ::
          ⟨line, .word "key" :: .word label :: .punctuation .openBrace :: tail⟩ :: more) last := by
  cases hpending : draft.pending with
  | some pending =>
      obtain ⟨others, rfl⟩ := hspells.exists_cons
      exact iff_of_false (not_reads_map hpending) (not_reads_map hpending)
  | none =>
      have hadd (item : Item) : (draft.add item).pending = none := by rw [pending_add, hpending]
      rw [reads_entry_iff hspells hpending, ← List.append_nil tokens,
        reads_entry_iff hspells hpending, List.append_nil]
      constructor
      · intro hreads
        obtain ⟨entry, hentry, hadmits, ⟨hnil, -⟩ | ⟨_, heq, hnew, hreads⟩⟩ := hreads
        · contradiction
        · cases heq
          exact ⟨entry, hentry, hadmits, .inl ⟨rfl, (reads_key_iff (hadd _)).mpr
            ⟨entry.code, hspells.ofLabel?_of_derives hentry, hnew, hreads⟩⟩⟩
      · intro hreads
        obtain ⟨entry, hentry, hadmits, ⟨-, hreads⟩ | ⟨_, hnil, -⟩⟩ := hreads
        · obtain ⟨code, hlabel, hnew, hreads⟩ := (reads_key_iff (hadd _)).mp hreads
          obtain rfl : entry.code = code :=
            Option.some.inj ((hspells.ofLabel?_of_derives hentry).symm.trans hlabel)
          exact ⟨entry, hentry, hadmits, .inr ⟨tail, rfl, hnew, hreads⟩⟩
        · contradiction

end Draft

end KeyLayout
