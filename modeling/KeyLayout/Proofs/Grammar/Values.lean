import KeyLayout.Proofs.Grammar.Syntax
import KeyLayout.Proofs.Outcome
import Mathlib.Data.List.Basic

namespace KeyLayout

/-! Values, properties and statements are read from exactly the tokens that derive them. -/

theorem CodePoint.ofNat?_eq_some_iff {value : Nat} {point : CodePoint} :
    CodePoint.ofNat? value = some point ↔ point.toNat = value := by
  rw [ofNat?]
  constructor
  · intro hpoint
    by_cases hscalar : value.isValidChar
    · rw [dif_pos hscalar] at hpoint
      cases hpoint
      rfl
    rw [dif_neg hscalar] at hpoint
    by_cases hsurrogate : 0xD800 ≤ value ∧ value < 0xE000
    · rw [dif_pos hsurrogate] at hpoint
      cases hpoint
      exact Nat.add_sub_cancel' hsurrogate.1
    · rw [dif_neg hsurrogate] at hpoint
      contradiction
  · rintro rfl
    cases point with
    | scalar character =>
        have hvalid : (CodePoint.scalar character).toNat.isValidChar := character.valid
        rw [dif_pos hvalid]
        rfl
    | surrogate offset =>
        have hoffset := offset.isLt
        have hscalar : ¬(CodePoint.surrogate offset).toNat.isValidChar := by
          simp only [toNat, Nat.isValidChar]
          omega
        have hsurrogate : 0xD800 ≤ (CodePoint.surrogate offset).toNat ∧
            (CodePoint.surrogate offset).toNat < 0xE000 := by
          simp only [toNat]
          omega
        rw [dif_neg hscalar, dif_pos hsurrogate]
        simp [toNat]

theorem KeyCode.read_eq_ok_iff {label : Text} {code : KeyCode} :
    KeyCode.read label = .ok code ↔ KeyCode.ofLabel? label = some code := by
  rw [KeyCode.read]
  cases KeyCode.ofLabel? label <;> simp

namespace ValueWord

theorem namedCharacter?_eq_some_iff {name : Text} {point : CodePoint} :
    namedCharacter? name = some point ↔
      name = Text.ofString "space" ∧ point = .scalar ' ' ∨
        name = Text.ofString "tab" ∧ point = .scalar '\t' ∨
          name = Text.ofString "newline" ∧ point = .scalar '\n' := by
  simp only [namedCharacter?, List.lookup_cons, List.lookup_nil]
  constructor
  · intro hpoint
    split at hpoint
    next hname => exact .inl ⟨eq_of_beq hname, (Option.some.inj hpoint).symm⟩
    split at hpoint
    next hname => exact .inr (.inl ⟨eq_of_beq hname, (Option.some.inj hpoint).symm⟩)
    split at hpoint
    next hname => exact .inr (.inr ⟨eq_of_beq hname, (Option.some.inj hpoint).symm⟩)
    next => contradiction
  · rintro (⟨rfl, rfl⟩ | ⟨rfl, rfl⟩ | ⟨rfl, rfl⟩) <;> rfl

theorem codePointNumber?_eq_some_iff {name : Text} {number : Nat} :
    codePointNumber? name = some number ↔
      ∃ digits, name = Text.ofString "U+" ++ digits ∧ (1 ≤ digits.length ∧ digits.length ≤ 6) ∧
        Text.digitsValue? 16 digits = some number := by
  constructor
  · intro hnumber
    rw [codePointNumber?.eq_def] at hnumber
    split at hnumber
    next digits =>
      split at hnumber
      next hlength => exact ⟨digits, rfl, hlength, hnumber⟩
      next => contradiction
    next => contradiction
  · rintro ⟨digits, rfl, hlength, hnumber⟩
    exact (if_pos hlength).trans hnumber

theorem read_of_gives {name : Text} {point : Option CodePoint}
    (hgives : (Token.word name).Gives point) : read name = .ok (.character point) := by
  cases hgives with
  | none => rfl
  | space => rfl
  | tab => rfl
  | newline => rfl
  | @codePoint digits point hlength hdigits =>
      have hne : ∀ other : Text, other.head? ≠ some (.scalar 'U') →
          Text.ofString "U+" ++ digits ≠ other := by
        rintro other hother rfl
        exact hother rfl
      have hnamed : namedCharacter? (Text.ofString "U+" ++ digits) = none := by
        rw [Option.eq_none_iff_forall_ne_some]
        intro other hother
        rcases namedCharacter?_eq_some_iff.mp hother with ⟨hname, -⟩ | ⟨hname, -⟩ | ⟨hname, -⟩
        · exact hne _ (by decide) hname
        · exact hne _ (by decide) hname
        · exact hne _ (by decide) hname
      have hnumber : codePointNumber? (Text.ofString "U+" ++ digits) = some point.toNat :=
        codePointNumber?_eq_some_iff.mpr ⟨digits, rfl, hlength, hdigits⟩
      rw [read, if_neg (hne _ (by decide)), if_neg (hne _ (by decide)),
        if_neg (hne _ (by decide)), hnamed, hnumber]
      simp only [CodePoint.ofNat?_eq_some_iff.mpr rfl]

/-- A word of a value gives a character or announces another key. -/
theorem of_read {name : Text} {word : ValueWord} (hread : read name = .ok word) :
    (∃ point, word = .character point ∧ (Token.word name).Gives point) ∨
      name = Text.ofString "fallback" ∧ word = .target .fallback ∨
        name = Text.ofString "replace" ∧ word = .target .replacement := by
  rw [read] at hread
  split at hread
  next hname =>
    cases hread
    exact .inl ⟨none, rfl, hname ▸ .none⟩
  split at hread
  next hname =>
    cases hread
    exact .inr (.inl ⟨hname, rfl⟩)
  split at hread
  next hname =>
    cases hread
    exact .inr (.inr ⟨hname, rfl⟩)
  split at hread
  next point hnamed =>
    cases hread
    refine .inl ⟨some point, rfl, ?_⟩
    rcases namedCharacter?_eq_some_iff.mp hnamed with ⟨rfl, rfl⟩ | ⟨rfl, rfl⟩ | ⟨rfl, rfl⟩
    · exact .space
    · exact .tab
    · exact .newline
  split at hread
  next => contradiction
  next number hnumber =>
    split at hread
    next => contradiction
    next point hpoint =>
      cases hread
      obtain ⟨digits, rfl, hlength, hdigits⟩ := codePointNumber?_eq_some_iff.mp hnumber
      rw [CodePoint.ofNat?_eq_some_iff] at hpoint
      exact .inl ⟨some point, rfl, .codePoint hlength (hpoint ▸ hdigits)⟩

end ValueWord

namespace Value

variable {value last : Value} {part : ValuePart} {parts : List ValuePart}
  {first rest tokens : List Token} {after : Option Token}

/-- The value has no part of the kind yet. -/
def Lacks (value : Value) : ValuePart → Prop
  | .character _ => value.character = none
  | .target _ => value.target = none

def withPart (value : Value) : ValuePart → Value
  | .character point => { value with character := some point }
  | .target target => { value with target := some target }

theorem withCharacter_eq_ok_iff {point : Option CodePoint} :
    value.withCharacter point = .ok last ↔
      value.Lacks (.character point) ∧ value.withPart (.character point) = last := by
  rw [withCharacter, Lacks]
  cases value.character <;> simp [withPart]

theorem extend_target {name label : Text} {kind : TargetKind} {code : KeyCode}
    (hread : ValueWord.read name = .ok (.target kind))
    (hlabel : KeyCode.ofLabel? label = some code) (hlacks : value.target = none)
    (rest : List Token) :
    extend after value (.word name :: .word label :: rest) =
      extend after (value.withPart (.target ⟨kind, code⟩)) rest := by
  have hcode := KeyCode.read_eq_ok_iff.mpr hlabel
  rw [extend, hread]
  simp only [bind, Except.bind, hlacks, Option.isSome_none, Bool.false_eq_true, if_false, hcode,
    withPart]

theorem extend_append (hpart : part.Derives first) (hlacks : value.Lacks part)
    (rest : List Token) :
    extend after value (first ++ rest) = extend after (value.withPart part) rest := by
  cases hpart with
  | @character token point hgives =>
      have hcharacter := withCharacter_eq_ok_iff.mpr ⟨hlacks, rfl⟩
      cases token with
      | literal text =>
          cases hgives with
          | literal hdecode =>
              rw [List.singleton_append, extend, hdecode]
              simp only [Except.mapError, bind, Except.bind, hcharacter]
      | word name =>
          rw [List.singleton_append, extend, ValueWord.read_of_gives hgives]
          simp only [bind, Except.bind, hcharacter]
      | punctuation mark => cases hgives
  | fallback hlabel => exact extend_target rfl hlabel hlacks rest
  | replacement hlabel => exact extend_target rfl hlabel hlacks rest

theorem target_of_extend {name : Text} {kind : TargetKind}
    (hread : ValueWord.read name = .ok (.target kind))
    (hextend : extend after value (.word name :: tokens) = .ok last) :
    ∃ label code rest, tokens = .word label :: rest ∧ KeyCode.ofLabel? label = some code ∧
      value.target = none ∧
        extend after (value.withPart (.target ⟨kind, code⟩)) rest = .ok last := by
  rw [extend, hread] at hextend
  simp only [bind, Except.bind] at hextend
  split at hextend
  next => contradiction
  next hlacks =>
  split at hextend
  next => contradiction
  next label rest =>
    split at hextend
    next => contradiction
    next code hcode =>
      exact ⟨label, code, rest, rfl, KeyCode.read_eq_ok_iff.mp hcode, by simpa using hlacks,
        hextend⟩
  next => contradiction

/-- Whatever is read first is a part that the value lacks. -/
theorem exists_part_of_extend (hextend : extend after value tokens = .ok last)
    (hsome : tokens ≠ []) :
    ∃ first part rest, tokens = first ++ rest ∧ part.Derives first ∧ value.Lacks part ∧
      extend after (value.withPart part) rest = .ok last := by
  cases tokens with
  | nil => exact absurd rfl hsome
  | cons token tail =>
      cases token with
      | punctuation mark =>
          rw [extend] at hextend
          contradiction
      | literal text =>
          rw [extend, bind_eq_ok_iff] at hextend
          obtain ⟨point, hdecode, hextend⟩ := hextend
          rw [bind_eq_ok_iff] at hextend
          obtain ⟨middle, hmiddle, hrest⟩ := hextend
          obtain ⟨hlacks, rfl⟩ := withCharacter_eq_ok_iff.mp hmiddle
          exact ⟨[.literal text], .character (some point), tail, rfl,
            .character (.literal (mapError_eq_ok_iff.mp hdecode)), hlacks, hrest⟩
      | word name =>
          have hwhole := hextend
          rw [extend, bind_eq_ok_iff] at hextend
          obtain ⟨word, hread, hextend⟩ := hextend
          rcases ValueWord.of_read hread with ⟨point, rfl, hgives⟩ | ⟨rfl, rfl⟩ | ⟨rfl, rfl⟩
          · obtain ⟨middle, hmiddle, hrest⟩ := bind_eq_ok_iff.mp hextend
            obtain ⟨hlacks, rfl⟩ := withCharacter_eq_ok_iff.mp hmiddle
            exact ⟨[.word name], .character point, tail, rfl, .character hgives, hlacks, hrest⟩
          · obtain ⟨label, code, rest, rfl, hlabel, hlacks, hrest⟩ := target_of_extend hread hwhole
            exact ⟨_, _, rest, rfl, .fallback hlabel, hlacks, hrest⟩
          · obtain ⟨label, code, rest, rfl, hlabel, hlacks, hrest⟩ := target_of_extend hread hwhole
            exact ⟨_, _, rest, rfl, .replacement hlabel, hlacks, hrest⟩

/-- The characters that a value has and that its further parts give. -/
def characters (value : Value) (parts : List ValuePart) : List (Option CodePoint) :=
  value.character.toList ++ parts.filterMap ValuePart.character?

def targets (value : Value) (parts : List ValuePart) : List Target :=
  value.target.toList ++ parts.filterMap ValuePart.target?

/-- The value together with the parts has at most one of each kind and at least one. -/
structure Takes (value : Value) (parts : List ValuePart) : Prop where
  character : (value.characters parts).length ≤ 1
  target : (value.targets parts).length ≤ 1
  some : value.characters parts ≠ [] ∨ value.targets parts ≠ []

theorem characters_cons (hlacks : value.Lacks part) (parts : List ValuePart) :
    value.characters (part :: parts) = (value.withPart part).characters parts := by
  cases part with
  | character point =>
      simp only [Lacks] at hlacks
      simp [characters, withPart, ValuePart.character?, hlacks]
  | target target =>
      simp [characters, withPart, List.filterMap_cons, ValuePart.character?]

theorem targets_cons (hlacks : value.Lacks part) (parts : List ValuePart) :
    value.targets (part :: parts) = (value.withPart part).targets parts := by
  cases part with
  | character point => simp [targets, withPart, List.filterMap_cons, ValuePart.target?]
  | target target =>
      simp only [Lacks] at hlacks
      simp [targets, withPart, ValuePart.target?, hlacks]

theorem takes_cons_iff :
    value.Takes (part :: parts) ↔ value.Lacks part ∧ (value.withPart part).Takes parts := by
  constructor
  · intro htakes
    have hlacks : value.Lacks part := by
      obtain ⟨hcharacter, htarget, -⟩ := htakes
      cases part with
      | character point =>
          cases hown : value.character <;> simp_all [Lacks, characters, ValuePart.character?]
      | target target =>
          cases hown : value.target <;> simp_all [Lacks, targets, ValuePart.target?]
    refine ⟨hlacks, ?_, ?_, ?_⟩
    · exact characters_cons hlacks parts ▸ htakes.character
    · exact targets_cons hlacks parts ▸ htakes.target
    · rw [← characters_cons hlacks, ← targets_cons hlacks]
      exact htakes.some
  · rintro ⟨hlacks, hcharacter, htarget, hsome⟩
    rw [← characters_cons hlacks, ← targets_cons hlacks] at hsome
    exact ⟨characters_cons hlacks parts ▸ hcharacter, targets_cons hlacks parts ▸ htarget, hsome⟩

theorem takes_nil_iff :
    value.Takes [] ↔ value.character ≠ none ∨ value.target ≠ none := by
  obtain ⟨character, target⟩ := value
  constructor
  · intro htakes
    have hsome := htakes.some
    cases character <;> cases target <;> simp_all [characters, targets]
  · intro hsome
    refine ⟨?_, ?_, ?_⟩
    · cases character <;> simp [characters]
    · cases target <;> simp [targets]
    · cases character <;> cases target <;> simp_all [characters, targets]

theorem extend_nil_eq_ok_iff :
    extend after value [] = .ok last ↔
      value.Takes [] ∧ last = ⟨(value.characters []).head?, (value.targets []).head?⟩ := by
  rw [takes_nil_iff, extend]
  obtain ⟨character, target⟩ := value
  cases character <;> cases target <;> simp [characters, targets, eq_comm]

theorem extend_eq_ok_iff :
    extend after value tokens = .ok last ↔
      ∃ parts, ValuePart.DerivesAll tokens parts ∧ value.Takes parts ∧
        last = ⟨(value.characters parts).head?, (value.targets parts).head?⟩ := by
  constructor
  · intro hextend
    induction hlength : tokens.length using Nat.strongRecOn generalizing tokens value with
    | ind length ih =>
        by_cases hnil : tokens = []
        · subst hnil
          exact ⟨[], .nil, extend_nil_eq_ok_iff.mp hextend⟩
        · obtain ⟨first, part, rest, rfl, hpart, hlacks, hrest⟩ :=
            exists_part_of_extend hextend hnil
          have hshorter : rest.length < length := by
            rw [← hlength, List.length_append]
            cases hpart <;> simp
          obtain ⟨parts, hparts, htakes, hlast⟩ := ih _ hshorter hrest rfl
          refine ⟨part :: parts, .cons hpart hparts, takes_cons_iff.mpr ⟨hlacks, htakes⟩, ?_⟩
          rw [characters_cons hlacks, targets_cons hlacks]
          exact hlast
  · rintro ⟨parts, hparts, htakes, hlast⟩
    induction hparts generalizing value with
    | nil => exact extend_nil_eq_ok_iff.mpr ⟨htakes, hlast⟩
    | @cons first rest part parts hpart _ ih =>
        obtain ⟨hlacks, hrest⟩ := takes_cons_iff.mp htakes
        rw [characters_cons hlacks, targets_cons hlacks] at hlast
        rw [extend_append hpart hlacks]
        exact ih hrest hlast

theorem read_eq_ok_iff : read after tokens = .ok last ↔ Derives tokens last := by
  rw [read, extend_eq_ok_iff]
  constructor
  · rintro ⟨parts, hparts, ⟨hcharacter, htarget, hsome⟩, rfl⟩
    refine .parts hparts ?_ hcharacter htarget
    rintro rfl
    simp [characters, targets] at hsome
  · rintro ⟨hparts, hsome, hcharacter, htarget⟩
    next parts =>
    refine ⟨parts, hparts, ⟨hcharacter, htarget, ?_⟩, rfl⟩
    cases parts with
    | nil => exact absurd rfl hsome
    | cons part parts =>
        cases part with
        | character point => exact .inl (by simp [characters, ValuePart.character?])
        | target target => exact .inr (by simp [targets, ValuePart.target?])

end Value

end KeyLayout
