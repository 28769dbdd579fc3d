import KeyLayout.Proofs.Grammar.Blocks

namespace KeyLayout

/-! A step reads one directive outside of blocks, and one statement or mark inside. -/

namespace Token

theorem expectWord_eq_ok_iff {what text : Text} {tokens rest : List Token} :
    expectWord what tokens = .ok (text, rest) ↔ tokens = .word text :: rest := by
  cases tokens with
  | nil => simp [expectWord]
  | cons token tail => cases token <;> simp [expectWord]

theorem expect_eq_ok_iff {what : Text} {token : Token} {tokens rest : List Token} :
    expect what tokens = .ok (token, rest) ↔ tokens = token :: rest := by
  cases tokens <;> simp [expect]

end Token

namespace Draft

variable {format : Format} {line device : Nat} {draft next : Draft} {token : Token}
  {tokens first rest left : List Token} {kind : DeviceCodeKind} {code : KeyCode}

/-- The step succeeds with this draft and leaves these tokens. -/
def Steps (format : Format) (line : Nat) (draft : Draft) (token : Token) (rest : List Token)
    (next : Draft) (left : List Token) : Prop :=
  ∃ notes, draft.step format line token rest = .ok ⟨next, left, notes⟩

def opened (draft : Draft) (line : Nat) (code : KeyCode) : Draft :=
  { draft with blockSeen := true, pending := some (.new code line) }

def closed (draft : Draft) (pending : PendingKey) : Draft :=
  { draft with
    map := { draft.map with keys := draft.map.keys.insert pending.code pending.finish }
    pending := none }

def add (draft : Draft) : Item → Draft
  | .type declared =>
      { draft with map := { draft.map with type := declared }, typeDeclared := true }
  | .entry entry => draft.addDeviceCode entry.kind entry.device entry.code
  | .block code statements =>
      { draft with
        map := { draft.map with
          keys := draft.map.keys.insert code (Key.ofSettings (Statement.settings statements)) }
        blockSeen := true }

def Admits (format : Format) (draft : Draft) : Item → Prop
  | .type declared =>
      Item.Fitting format (.type declared) ∧ draft.typeDeclared = false ∧ draft.blockSeen = false
  | .entry entry => (draft.deviceTable entry.kind).contains (.ofNat entry.device) = false
  | .block code statements =>
      Item.Fitting format (.block code statements) ∧ draft.map.keys.contains code = false

/-- What a directive makes of a draft, and the tokens that it leaves. -/
inductive Directs (format : Format) (line : Nat) (draft : Draft) :
    List Token → Draft → List Token → Prop
  | type {name : Text} {declared : KeyboardType} {left : List Token}
      (htype : KeyboardType.ofName? name = some declared)
      (hadmits : draft.Admits format (.type declared)) :
      Directs format line draft ([.word "type", .word name] ++ left)
        (draft.add (.type declared)) left
  | entry {tokens left : List Token} {entry : DeviceEntry} (hentry : entry.Derives tokens)
      (hadmits : draft.Admits format (.entry entry))
      (hleft : left.head? ≠ some (.punctuation .openBrace)) :
      Directs format line draft (tokens ++ left) (draft.add (.entry entry)) left
  | block {label : Text} {code : KeyCode} {left : List Token}
      (hlabel : KeyCode.ofLabel? label = some code)
      (hnew : draft.map.keys.contains code = false) :
      Directs format line draft
        ([.word "key", .word label] ++ .punctuation .openBrace :: left)
        (draft.opened line code) left
  | entryBlock {tokens left : List Token} {entry : DeviceEntry}
      (hentry : entry.Derives tokens) (hadmits : draft.Admits format (.entry entry))
      (hnew : (draft.add (.entry entry)).map.keys.contains entry.code = false) :
      Directs format line draft (tokens ++ .punctuation .openBrace :: left)
        ((draft.add (.entry entry)).opened line entry.code) left

theorem declareType_eq_ok_iff {notes : List Note} :
    draft.declareType format tokens = .ok ⟨next, left, notes⟩ ↔
      ∃ name declared, tokens = .word name :: left ∧
        KeyboardType.ofName? name = some declared ∧ draft.Admits format (.type declared) ∧
          next = draft.add (.type declared) ∧ notes = [.keyboardType draft.map.name declared] := by
  constructor
  · intro hdeclare
    rw [declareType] at hdeclare
    split at hdeclare
    next => contradiction
    next hformat =>
    split at hdeclare
    next => contradiction
    next hdeclared =>
    split at hdeclare
    next => contradiction
    next hblock =>
    obtain ⟨⟨name, others⟩, hname, hdeclare⟩ := bind_eq_ok_iff.mp hdeclare
    dsimp only at hdeclare
    split at hdeclare
    next => contradiction
    next declared htype =>
    rw [withType] at hdeclare
    split at hdeclare
    next => contradiction
    next hunknown =>
    split at hdeclare
    next => contradiction
    next hoverlay =>
    cases hdeclare
    exact ⟨name, declared, Token.expectWord_eq_ok_iff.mp hname, htype,
      ⟨⟨hformat, hunknown, hoverlay⟩, by simpa using hdeclared, by simpa using hblock⟩, rfl, rfl⟩
  · rintro ⟨name, declared, rfl, htype, ⟨hfitting, hdeclared, hblock⟩, rfl, rfl⟩
    obtain ⟨hformat, hunknown, hoverlay⟩ := hfitting
    rw [declareType, if_neg hformat, if_neg (by simp [hdeclared]), if_neg (by simp [hblock])]
    refine bind_eq_ok_iff.mpr ⟨(name, left), rfl, ?_⟩
    dsimp only
    rw [htype]
    dsimp only
    rw [withType, if_neg hunknown, if_neg hoverlay]
    rfl

theorem openBlock_eq_ok_iff {step : DraftStep} :
    draft.openBlock line code left = .ok step ↔
      draft.map.keys.contains code = false ∧ step = ⟨draft.opened line code, left, []⟩ := by
  rw [openBlock]
  split
  next hknown => simp [hknown]
  next hnew => simp [opened, PendingKey.new, hnew, eq_comm]

theorem addEntry_eq_ok_iff {entry : DeviceEntry} {step : DraftStep} :
    draft.addEntry line entry.kind entry.device entry.code tokens = .ok step ↔
      draft.Admits format (.entry entry) ∧
        (tokens.head? ≠ some (.punctuation .openBrace) ∧
            step = ⟨draft.add (.entry entry), tokens, []⟩ ∨
          ∃ left, tokens = .punctuation .openBrace :: left ∧
            (draft.add (.entry entry)).openBlock line entry.code left = .ok step) := by
  rw [addEntry.eq_def]
  split
  next hknown =>
    constructor
    · intro heq
      contradiction
    · rintro ⟨hadmits, -⟩
      rw [Admits, hknown] at hadmits
      contradiction
  next hnew =>
    rw [Bool.not_eq_true] at hnew
    simp only [Admits, hnew, true_and]
    split
    next left => simp [add]
    next hbrace =>
      have hhead : tokens.head? ≠ some (.punctuation .openBrace) := by
        intro hhead
        obtain ⟨others, rfl⟩ := List.head?_eq_some_iff.mp hhead
        exact hbrace others rfl
      constructor
      · intro hstep
        exact .inl ⟨hhead, (Except.ok.inj hstep).symm⟩
      · rintro (⟨-, rfl⟩ | ⟨left, rfl, -⟩)
        · rfl
        · exact absurd rfl hhead

theorem expectDeviceCode_eq_ok_iff {text : Text} :
    expectDeviceCode tokens = .ok (kind, text, rest) ↔
      (∃ usage number, usage.text = Text.ofString "usage" ∧ number.text = text ∧
        kind = .usage ∧ tokens = usage :: number :: rest) ∨
      ∃ number, number.text ≠ Text.ofString "usage" ∧ number.text = text ∧ kind = .scan ∧
        tokens = number :: rest := by
  constructor
  · intro hexpect
    obtain ⟨⟨token, others⟩, htoken, hexpect⟩ := bind_eq_ok_iff.mp hexpect
    rw [Token.expect_eq_ok_iff] at htoken
    dsimp only at hexpect
    split at hexpect
    next husage =>
      obtain ⟨⟨number, left⟩, hnumber, heq⟩ := bind_eq_ok_iff.mp hexpect
      rw [Token.expect_eq_ok_iff] at hnumber
      cases heq
      exact .inl ⟨token, number, husage, rfl, rfl, hnumber ▸ htoken⟩
    next hscan =>
      cases hexpect
      exact .inr ⟨token, hscan, rfl, rfl, htoken⟩
  · rintro (⟨usage, number, husage, rfl, rfl, rfl⟩ | ⟨number, hscan, rfl, rfl, rfl⟩)
    · refine bind_eq_ok_iff.mpr ⟨(usage, number :: rest), rfl, ?_⟩
      dsimp only
      rw [if_pos husage]
      rfl
    · refine bind_eq_ok_iff.mpr ⟨(number, rest), rfl, ?_⟩
      dsimp only
      rw [if_neg hscan]
      rfl

theorem read_usage_ne_ok (device : Nat) :
    DeviceCode.read (Text.ofString "usage") ≠ .ok device := by
  have herror : DeviceCode.read (Text.ofString "usage") =
      .error (.mismatch (Text.ofString "an integer") (Text.ofString "usage")) := rfl
  rw [herror]
  exact fun heq => nomatch heq

theorem expectDeviceCode_of_derives {entry : DeviceEntry} (hentry : entry.Derives first)
    (rest : List Token) :
    ∃ afterKey text label,
      first ++ rest = .word (Text.ofString "map") :: .word (Text.ofString "key") :: afterKey ∧
        expectDeviceCode afterKey = .ok (entry.kind, text, .word label :: rest) ∧
          DeviceCode.read text = .ok entry.device ∧ KeyCode.ofLabel? label = some entry.code := by
  cases hentry with
  | @scan number device label code hdevice hlabel =>
      refine ⟨number :: .word label :: rest, number.text, label, rfl, ?_, hdevice, hlabel⟩
      refine expectDeviceCode_eq_ok_iff.mpr (.inr ⟨number, fun husage => ?_, rfl, rfl, rfl⟩)
      rw [husage] at hdevice
      exact read_usage_ne_ok device hdevice
  | @usage usage number device label code husage hdevice hlabel =>
      refine ⟨usage :: number :: .word label :: rest, number.text, label, rfl, ?_, hdevice,
        hlabel⟩
      exact expectDeviceCode_eq_ok_iff.mpr (.inl ⟨usage, number, husage, rfl, rfl, rfl⟩)

theorem mapDeviceCode_eq_ok_iff {step : DraftStep} :
    draft.mapDeviceCode line tokens = .ok step ↔
      ∃ first rest entry, .word (Text.ofString "map") :: tokens = first ++ rest ∧
        DeviceEntry.Derives first entry ∧
          draft.addEntry line entry.kind entry.device entry.code rest = .ok step := by
  constructor
  · intro hmap
    obtain ⟨⟨key, afterKey⟩, hkey, hdevices⟩ := bind_eq_ok_iff.mp hmap
    rw [Token.expectWord_eq_ok_iff] at hkey
    dsimp only at hdevices
    split at hdevices
    next => contradiction
    next hword =>
    rw [not_not] at hword
    obtain ⟨⟨kind, text, afterDevice⟩, hdevice, hnumbers⟩ := bind_eq_ok_iff.mp hdevices
    obtain ⟨device, hread, hlabels⟩ := bind_eq_ok_iff.mp hnumbers
    obtain ⟨⟨label, rest⟩, hlabel, hcodes⟩ := bind_eq_ok_iff.mp hlabels
    obtain ⟨code, hcode, hadd⟩ := bind_eq_ok_iff.mp hcodes
    have hrest : afterDevice = .word label :: rest := Token.expectWord_eq_ok_iff.mp hlabel
    have hown : KeyCode.ofLabel? label = some code := KeyCode.read_eq_ok_iff.mp hcode
    rcases expectDeviceCode_eq_ok_iff.mp hdevice with
      ⟨usage, number, husage, rfl, rfl, hafter⟩ | ⟨number, -, rfl, rfl, hafter⟩
    · exact ⟨_, rest, ⟨.usage, device, code⟩, by rw [hkey, hword, hafter, hrest]; rfl,
        .usage husage hread hown, hadd⟩
    · exact ⟨_, rest, ⟨.scan, device, code⟩, by rw [hkey, hword, hafter, hrest]; rfl,
        .scan hread hown, hadd⟩
  · rintro ⟨first, rest, entry, htokens, hentry, hadd⟩
    obtain ⟨afterKey, text, label, hfirst, hdevice, hread, hlabel⟩ :=
      expectDeviceCode_of_derives hentry rest
    rw [hfirst, List.cons.injEq] at htokens
    obtain ⟨-, rfl⟩ := htokens
    refine bind_eq_ok_iff.mpr ⟨(Text.ofString "key", afterKey), rfl, ?_⟩
    refine bind_eq_ok_iff.mpr ⟨(entry.kind, text, .word label :: rest), hdevice, ?_⟩
    refine bind_eq_ok_iff.mpr ⟨entry.device, hread, ?_⟩
    refine bind_eq_ok_iff.mpr ⟨(label, rest), rfl, ?_⟩
    exact bind_eq_ok_iff.mpr ⟨entry.code, KeyCode.read_eq_ok_iff.mpr hlabel, hadd⟩

theorem beginKey_eq_ok_iff {step : DraftStep} :
    draft.beginKey line tokens = .ok step ↔
      ∃ label code left, tokens = [.word label] ++ .punctuation .openBrace :: left ∧
        KeyCode.ofLabel? label = some code ∧ draft.openBlock line code left = .ok step := by
  constructor
  · intro hbegin
    obtain ⟨⟨label, afterLabel⟩, hlabel, hcodes⟩ := bind_eq_ok_iff.mp hbegin
    obtain ⟨code, hcode, hbraces⟩ := bind_eq_ok_iff.mp hcodes
    obtain ⟨⟨token, left⟩, htoken, hopen⟩ := bind_eq_ok_iff.mp hbraces
    have hlabel : tokens = .word label :: afterLabel := Token.expectWord_eq_ok_iff.mp hlabel
    have htoken : afterLabel = token :: left := Token.expect_eq_ok_iff.mp htoken
    dsimp only at hopen
    split at hopen
    next hbrace =>
      subst hlabel htoken hbrace
      exact ⟨label, code, left, rfl, KeyCode.read_eq_ok_iff.mp hcode, hopen⟩
    next => contradiction
  · rintro ⟨label, code, left, rfl, hlabel, hopen⟩
    refine bind_eq_ok_iff.mpr ⟨(label, .punctuation .openBrace :: left), rfl, ?_⟩
    refine bind_eq_ok_iff.mpr ⟨code, KeyCode.read_eq_ok_iff.mpr hlabel, ?_⟩
    exact bind_eq_ok_iff.mpr ⟨(.punctuation .openBrace, left), rfl, hopen⟩

theorem exists_of_derives {entry : DeviceEntry} (hentry : entry.Derives tokens) :
    ∃ others, tokens = .word (Text.ofString "map") :: others := by
  cases hentry with
  | scan => exact ⟨_, rfl⟩
  | usage => exact ⟨_, rfl⟩

theorem directs_of_readDirective {notes : List Note}
    (hstep : draft.readDirective format line token rest = .ok ⟨next, left, notes⟩) :
    Directs format line draft (token :: rest) next left := by
  cases token with
  | literal text => contradiction
  | punctuation mark => contradiction
  | word name =>
      rw [readDirective] at hstep
      split at hstep
      next hname =>
        obtain ⟨type, declared, rfl, htype, hadmits, rfl, -⟩ := declareType_eq_ok_iff.mp hstep
        rw [hname]
        exact .type htype hadmits
      split at hstep
      next hname =>
        obtain ⟨first, tail, entry, htokens, hentry, hadd⟩ := mapDeviceCode_eq_ok_iff.mp hstep
        obtain ⟨hadmits, ⟨hhead, heq⟩ | ⟨others, rfl, hopen⟩⟩ := addEntry_eq_ok_iff.mp hadd
        · cases heq
          rw [hname, htokens]
          exact .entry hentry hadmits hhead
        · obtain ⟨hnew, heq⟩ := openBlock_eq_ok_iff.mp hopen
          cases heq
          rw [hname, htokens]
          exact .entryBlock hentry hadmits hnew
      split at hstep
      next hname =>
        obtain ⟨label, code, others, rfl, hlabel, hopen⟩ := beginKey_eq_ok_iff.mp hstep
        obtain ⟨hnew, heq⟩ := openBlock_eq_ok_iff.mp hopen
        cases heq
        rw [hname]
        exact .block hlabel hnew
      next => contradiction

theorem readDirective_of_directs (hdirects : Directs format line draft (token :: rest) next left) :
    ∃ notes, draft.readDirective format line token rest = .ok ⟨next, left, notes⟩ := by
  generalize hwhole : token :: rest = whole at hdirects
  have hne : Text.ofString "map" ≠ Text.ofString "type" ∧
      Text.ofString "key" ≠ Text.ofString "type" ∧
        Text.ofString "key" ≠ Text.ofString "map" := by decide
  cases hdirects with
  | type htype hadmits =>
      cases hwhole
      rw [readDirective, if_pos rfl]
      exact ⟨_, declareType_eq_ok_iff.mpr ⟨_, _, rfl, htype, hadmits, rfl, rfl⟩⟩
  | entry hentry hadmits hhead =>
      obtain ⟨others, rfl⟩ := exists_of_derives hentry
      cases hwhole
      rw [readDirective, if_neg hne.1, if_pos rfl]
      exact ⟨_, mapDeviceCode_eq_ok_iff.mpr ⟨_, _, _, rfl, hentry,
        addEntry_eq_ok_iff.mpr ⟨hadmits, .inl ⟨hhead, rfl⟩⟩⟩⟩
  | block hlabel hnew =>
      cases hwhole
      rw [readDirective, if_neg hne.2.1, if_neg hne.2.2, if_pos rfl]
      exact ⟨_, beginKey_eq_ok_iff.mpr ⟨_, _, _, rfl, hlabel,
        openBlock_eq_ok_iff.mpr ⟨hnew, rfl⟩⟩⟩
  | entryBlock hentry hadmits hnew =>
      obtain ⟨others, rfl⟩ := exists_of_derives hentry
      cases hwhole
      rw [readDirective, if_neg hne.1, if_pos rfl]
      exact ⟨_, mapDeviceCode_eq_ok_iff.mpr ⟨_, _, _, rfl, hentry,
        addEntry_eq_ok_iff.mpr ⟨hadmits, .inr ⟨_, rfl, openBlock_eq_ok_iff.mpr ⟨hnew, rfl⟩⟩⟩⟩⟩

theorem steps_iff_directs (hpending : draft.pending = none) :
    draft.Steps format line token rest next left ↔
      Directs format line draft (token :: rest) next left := by
  simp only [Steps, step, hpending]
  exact ⟨fun ⟨_, hstep⟩ => directs_of_readDirective hstep, readDirective_of_directs⟩

/-- Tokens that end nothing are cut off before the one that ends them. -/
theorem cut_append (hfirst : ∀ own ∈ first, Statement.isSeparator own = false)
    (hending : ∀ ending ∈ left.head?, Statement.isSeparator ending = true) :
    (first ++ left).takeWhile (!Statement.isSeparator ·) = first ∧
      (first ++ left).dropWhile (!Statement.isSeparator ·) = left := by
  have hown : ∀ own ∈ first, (!Statement.isSeparator own) = true := fun own hmem => by
    rw [hfirst own hmem]
    rfl
  rw [List.takeWhile_append_of_pos hown, List.dropWhile_append_of_pos hown]
  cases left with
  | nil => exact ⟨List.append_nil _, rfl⟩
  | cons ending others =>
      have hmark := hending ending rfl
      simp [hmark]

section Block

variable {pending : PendingKey} (hpending : draft.pending = some pending)

include hpending

theorem steps_close_iff :
    draft.Steps format line (.punctuation .closeBrace) rest next left ↔
      pending.isEmpty = false ∧ next = draft.closed pending ∧ left = rest := by
  simp only [Steps, step, hpending, readStatement, closeBlock]
  split
  next hempty =>
    constructor
    · rintro ⟨notes, heq⟩
      cases heq
    · rintro ⟨hsome, -⟩
      rw [hempty] at hsome
      contradiction
  next hempty =>
    rw [Bool.not_eq_true] at hempty
    constructor
    · rintro ⟨notes, heq⟩
      cases heq
      exact ⟨hempty, rfl, rfl⟩
    · rintro ⟨-, rfl, rfl⟩
      exact ⟨_, rfl⟩

theorem steps_semicolon_iff :
    draft.Steps format line (.punctuation .semicolon) rest next left ↔
      next = draft ∧ left = rest := by
  simp only [Steps, step, hpending, readStatement]
  constructor
  · rintro ⟨notes, heq⟩
    cases heq
    exact ⟨rfl, rfl⟩
  · rintro ⟨rfl, rfl⟩
    exact ⟨_, rfl⟩

/-- A statement runs up to the next separator or to the end of the line. -/
theorem steps_statement_iff (htoken : Statement.isSeparator token = false) :
    draft.Steps format line token rest next left ↔
      ∃ first statement, token :: rest = first ++ left ∧ Statement.Derives first statement ∧
        (∀ ending ∈ left.head?, Statement.isSeparator ending = true) ∧
          pending.Accepts (Statement.settings [statement]) ∧
            next = { draft with
              pending := some (pending.withSettings (Statement.settings [statement])) } := by
  have hread : ∀ {outcome}, draft.step format line token rest = outcome ↔
      (do
        let after := rest.dropWhile (!Statement.isSeparator ·)
        let statement ← Statement.read after.head?
          (token :: rest.takeWhile (!Statement.isSeparator ·))
        let pending ← pending.apply statement
        return { draft := { draft with pending := some pending }, rest := after }) = outcome := by
    intro outcome
    rw [step, hpending]
    simp only [readStatement]
    split
    next => contradiction
    next => contradiction
    next => rfl
  simp only [Steps, hread, bind_eq_ok_iff]
  constructor
  · rintro ⟨notes, statement, hstatement, own, happly, heq⟩
    cases heq
    obtain ⟨haccepts, rfl⟩ := PendingKey.apply_eq_ok_iff.mp happly
    refine ⟨_, statement, ?_, Statement.read_eq_ok_iff.mp hstatement, ?_, haccepts, rfl⟩
    · rw [List.cons_append, List.takeWhile_append_dropWhile]
    · intro ending hending
      have hhead := List.head?_dropWhile_not (!Statement.isSeparator ·) rest
      rw [Option.mem_def] at hending
      rw [hending] at hhead
      simpa using hhead
  · rintro ⟨first, statement, hwhole, hstatement, hending, haccepts, rfl⟩
    obtain ⟨head, tail, rfl⟩ := List.exists_cons_of_ne_nil hstatement.ne_nil
    rw [List.cons_append, List.cons.injEq] at hwhole
    obtain ⟨rfl, rfl⟩ := hwhole
    obtain ⟨htake, hdrop⟩ := cut_append (fun own hown =>
      hstatement.isSeparator_eq_false own (List.mem_cons_of_mem _ hown)) hending
    rw [htake, hdrop]
    exact ⟨[], statement, Statement.read_eq_ok_iff.mpr hstatement, _,
      PendingKey.apply_eq_ok_iff.mpr ⟨haccepts, rfl⟩, rfl⟩

end Block

end Draft

end KeyLayout
