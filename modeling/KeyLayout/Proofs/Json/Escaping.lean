import KeyLayout.Json.Writer
import KeyLayout.Proofs.Grammar.Values
import KeyLayout.Proofs.Json.Body
import KeyLayout.Proofs.Text.Digit
import KeyLayout.Proofs.Text.Joining
import KeyLayout.Proofs.Text.Utf8
import Mathlib.Data.List.Chain

namespace KeyLayout.Json

/-! Texts that are the same once they have been written to JSON and read again. -/

variable {text value rest tail others digits : Text} {point high low letter : CodePoint}

section Surrogates

theorem toNat_scalar_cases (character : Char) :
    (CodePoint.scalar character).toNat < 0xD800 ∨
      0xE000 ≤ (CodePoint.scalar character).toNat ∧
        (CodePoint.scalar character).toNat < 0x110000 := by
  have hvalid : character.toNat < 0xD800 ∨ 0xDFFF < character.toNat ∧ character.toNat < 0x110000 :=
    character.valid
  simp only [CodePoint.toNat]
  omega

theorem isHighSurrogate_iff :
    isHighSurrogate point = true ↔ 0xD800 ≤ point.toNat ∧ point.toNat < 0xDC00 := by
  rw [isHighSurrogate, Bool.and_eq_true, decide_eq_true_eq, decide_eq_true_eq]

theorem isLowSurrogate_iff :
    isLowSurrogate point = true ↔ 0xDC00 ≤ point.toNat ∧ point.toNat < 0xE000 := by
  rw [isLowSurrogate, Bool.and_eq_true, decide_eq_true_eq, decide_eq_true_eq]

theorem isHighSurrogate_scalar (character : Char) :
    ¬isHighSurrogate (.scalar character) = true := by
  rw [isHighSurrogate_iff]
  have hcases := toNat_scalar_cases character
  omega

theorem isLowSurrogate_scalar (character : Char) :
    ¬isLowSurrogate (.scalar character) = true := by
  rw [isLowSurrogate_iff]
  have hcases := toNat_scalar_cases character
  omega

/-- No high surrogate stands before a low one. -/
def Unpaired (text : Text) : Prop :=
  text.IsChain fun first second =>
    ¬(isHighSurrogate first = true ∧ isLowSurrogate second = true)

theorem Unpaired.cons_scalar (hunpaired : Unpaired text) (character : Char) :
    Unpaired (.scalar character :: text) :=
  List.isChain_cons.mpr ⟨fun _ _ hpair => isHighSurrogate_scalar character hpair.1, hunpaired⟩

theorem exists_scalar (hpoint : point.isSurrogate = false) :
    ∃ character, point = .scalar character := by
  cases point with
  | scalar character => exact ⟨character, rfl⟩
  | surrogate => contradiction

theorem unpaired_of_scalars (htext : ∀ point ∈ text, point.isSurrogate = false) :
    Unpaired text := by
  induction text with
  | nil => exact .nil
  | cons point rest ih =>
      obtain ⟨hpoint, hrest⟩ := List.forall_mem_cons.mp htext
      obtain ⟨character, rfl⟩ := exists_scalar hpoint
      exact (ih hrest).cons_scalar character

section Joining

variable {mark : Char} {parts : List Text}

/-- A character between them keeps a high surrogate apart from a low one. -/
theorem unpaired_append_iff :
    Unpaired (text ++ .scalar mark :: rest) ↔ Unpaired text ∧ Unpaired rest := by
  rw [Unpaired, List.isChain_append]
  constructor
  · intro hchain
    exact ⟨hchain.1, hchain.2.1.tail⟩
  · intro hboth
    refine ⟨hboth.1, hboth.2.cons_scalar mark, fun first _ second hsecond hpair => ?_⟩
    cases hsecond
    exact isLowSurrogate_scalar mark hpair.2

theorem unpaired_joinWith_iff :
    Unpaired (Text.joinWith [.scalar mark] parts) ↔ ∀ part ∈ parts, Unpaired part := by
  induction parts with
  | nil => exact iff_of_true .nil (List.forall_mem_nil _)
  | cons part others ih =>
      rw [List.forall_mem_cons, ← ih]
      cases others with
      | nil =>
          rw [Text.joinWith_singleton]
          exact (and_iff_left .nil).symm
      | cons next others =>
          rw [Text.joinWith_cons_cons, List.singleton_append]
          exact unpaired_append_iff

end Joining

end Surrogates

section Reading

theorem exists_scalar_of_namedEscape? (hnamed : namedEscape? letter = some point) :
    ∃ character, point = .scalar character := by
  unfold namedEscape? at hnamed
  split at hnamed <;> first | contradiction | (cases hnamed; exact ⟨_, rfl⟩)

/-- A low surrogate comes from an escape if the text itself has no surrogates. -/
theorem Body.exists_of_low (hbody : Body text (low :: value) rest)
    (hlow : isLowSurrogate low = true) (htext : ∀ point ∈ text, point.isSurrogate = false) :
    ∃ tail, text = .scalar '\\' :: .scalar 'u' :: tail ∧ escapedPoint tail = .ok low := by
  cases hbody with
  | plain =>
      obtain ⟨character, rfl⟩ := exists_scalar (htext _ (List.mem_cons_self ..))
      exact absurd hlow (isLowSurrogate_scalar character)
  | named hnamed =>
      obtain ⟨character, rfl⟩ := exists_scalar_of_namedEscape? hnamed
      exact absurd hlow (isLowSurrogate_scalar character)
  | unit hpoint halone hbody =>
      exact ⟨_, rfl, escapedPoint_eq_ok_iff.mpr ⟨_, _, rfl, hbody.ne_nil, hpoint⟩⟩
  | pair => exact absurd hlow (isLowSurrogate_scalar _)

theorem Body.unpaired (hbody : Body text value rest)
    (htext : ∀ point ∈ text, point.isSurrogate = false) : Unpaired value := by
  induction hbody with
  | close => exact .nil
  | plain hmark hslash hcontrol hbody ih =>
      obtain ⟨hpoint, htail⟩ := List.forall_mem_cons.mp htext
      obtain ⟨character, rfl⟩ := exists_scalar hpoint
      exact (ih htail).cons_scalar character
  | named hnamed hbody ih =>
      obtain ⟨character, rfl⟩ := exists_scalar_of_namedEscape? hnamed
      exact (ih fun point hpoint => htext point (by simp [hpoint])).cons_scalar character
  | unit hpoint halone hbody ih =>
      have htail := ih fun point hpoint => htext point (by simp [hpoint])
      refine List.isChain_cons.mpr ⟨fun low hhead hpair => ?_, htail⟩
      obtain ⟨others, rfl⟩ := List.head?_eq_some_iff.mp (Option.mem_def.mp hhead)
      exact halone low ⟨hpair.1, hpair.2,
        hbody.exists_of_low hpair.2 fun point hpoint => htext point (by simp [hpoint])⟩
  | pair hhigh hlow hhighRange hlowRange hbody ih =>
      exact (ih fun point hpoint => htext point (by simp [hpoint])).cons_scalar _

end Reading

section Writing

theorem codePoint?_paddedHex {unit : Nat} (hunit : unit < 0x10000) :
    codePoint? (Text.paddedHex 4 unit) = CodePoint.ofNat? unit := by
  rw [codePoint?, if_pos (Text.length_paddedHex (by decide) hunit), Text.digitsValue?_paddedHex]
  rfl

theorem codePoint?_toNat (hpoint : point.toNat < 0x10000) :
    codePoint? (Text.paddedHex 4 point.toNat) = some point := by
  rw [codePoint?_paddedHex hpoint]
  exact CodePoint.ofNat?_eq_some_iff.mpr rfl

/-- A code point of a higher plane is the pair of surrogates by which it is escaped. -/
theorem exists_surrogates (hplane : 0x10000 ≤ point.toNat) :
    ∃ high low : CodePoint, isHighSurrogate high = true ∧ isLowSurrogate low = true ∧
      high.toNat = 0xD800 + (point.toNat - 0x10000) / 0x400 ∧
      low.toNat = 0xDC00 + (point.toNat - 0x10000) % 0x400 ∧
      joinSurrogates high low = point := by
  obtain ⟨character, rfl⟩ : ∃ character, point = .scalar character := by
    cases point with
    | scalar character => exact ⟨character, rfl⟩
    | surrogate offset =>
        have hoffset := offset.isLt
        simp only [CodePoint.toNat] at hplane
        omega
  have hcases := toNat_scalar_cases character
  generalize hvalue : (CodePoint.scalar character).toNat = value at hplane hcases ⊢
  refine ⟨.surrogate ⟨(value - 0x10000) / 0x400, by omega⟩,
    .surrogate ⟨0x400 + (value - 0x10000) % 0x400, by omega⟩, ?_, ?_, rfl, ?_, ?_⟩
  · rw [isHighSurrogate_iff]
    simp only [CodePoint.toNat]
    omega
  · rw [isLowSurrogate_iff]
    simp only [CodePoint.toNat]
    omega
  · simp only [CodePoint.toNat]
    omega
  · have hjoin : 0x10000 + (0xD800 + (value - 0x10000) / 0x400 - 0xD800) * 0x400 +
        (0xD800 + (0x400 + (value - 0x10000) % 0x400) - 0xDC00) = value := by
      omega
    rw [joinSurrogates]
    simp only [CodePoint.toNat] at hvalue ⊢
    rw [hjoin, ← hvalue, Char.ofNat_toNat]

theorem unitEscape_append (unit : Nat) (text : Text) :
    unitEscape unit ++ text =
      .scalar '\\' :: .scalar 'u' :: (Text.paddedHex 4 unit ++ text) :=
  rfl

theorem Body.codePointEscape (hbody : Body text value rest)
    (halone : ∀ low, ¬Pairs point text low) :
    Body (Json.codePointEscape point.toNat ++ text) (point :: value) rest := by
  rw [Json.codePointEscape]
  split
  next hplane =>
    exact .unit (codePoint?_toNat hplane) halone hbody
  next hplane =>
    obtain ⟨high, low, hhigh, hlow, hhighValue, hlowValue, hjoin⟩ :=
      exists_surrogates (Nat.le_of_not_lt hplane)
    have hhighRange := isHighSurrogate_iff.mp hhigh
    have hlowRange := isLowSurrogate_iff.mp hlow
    have hhighUnit : codePoint? (Text.paddedHex 4 high.toNat) = some high :=
      codePoint?_toNat (by omega)
    have hlowUnit : codePoint? (Text.paddedHex 4 low.toNat) = some low :=
      codePoint?_toNat (by omega)
    have hbody := Body.pair hhighUnit hlowUnit hhigh hlow hbody
    rw [hjoin, hhighValue, hlowValue] at hbody
    rwa [List.append_assoc, unitEscape_append, unitEscape_append]

/-- A code point is escaped by a letter, left as it is, or escaped by its number. -/
theorem escapePoint_cases (point : CodePoint) :
    (∃ letter, namedEscape? letter = some point ∧ Json.escapePoint point = [.backslash, letter]) ∨
      (point ≠ .doubleMark ∧ point ≠ .backslash ∧ 0x20 ≤ point.toNat ∧ point.toNat < 0x7F ∧
        Json.escapePoint point = [point]) ∨
      Json.escapePoint point = Json.codePointEscape point.toNat := by
  rw [Json.escapePoint]
  split
  next hmark =>
    rcases hmark with rfl | rfl
    · exact .inl ⟨_, rfl, rfl⟩
    · exact .inl ⟨_, rfl, rfl⟩
  split
  next hpoint => exact .inl ⟨.scalar 'n', hpoint ▸ rfl, rfl⟩
  split
  next hpoint => exact .inl ⟨.scalar 'r', hpoint ▸ rfl, rfl⟩
  split
  next hpoint => exact .inl ⟨.scalar 't', hpoint ▸ rfl, rfl⟩
  split
  next hpoint => exact .inl ⟨.scalar 'f', hpoint ▸ rfl, rfl⟩
  split
  next hpoint => exact .inl ⟨.scalar 'b', hpoint ▸ rfl, rfl⟩
  split
  next hmark _ _ _ _ _ hrange =>
    obtain ⟨hquote, hslash⟩ := not_or.mp hmark
    exact .inr (.inl ⟨hquote, hslash, hrange.1, hrange.2, rfl⟩)
  next => exact .inr (.inr rfl)

theorem Body.escapePoint (hbody : Body text value rest) (halone : ∀ low, ¬Pairs point text low) :
    Body (Json.escapePoint point ++ text) (point :: value) rest := by
  rcases escapePoint_cases point with
    ⟨letter, hnamed, hwritten⟩ | ⟨hquote, hslash, hlow, -, hwritten⟩ | hwritten
  · rw [hwritten]
    exact .named hnamed hbody
  · rw [hwritten]
    exact .plain hquote hslash (Nat.lt_of_succ_le hlow) hbody
  · rw [hwritten]
    exact hbody.codePointEscape halone

/-- What starts like the escape of a low surrogate is the escape of one. -/
theorem eq_of_codePointEscape
    (hwhole : Json.codePointEscape point.toNat ++ text = .scalar '\\' :: .scalar 'u' :: tail)
    (htext : text ≠ []) (htail : escapedPoint tail = .ok low) (hlow : isLowSurrogate low = true) :
    low = point := by
  have hread {unit : CodePoint} {others : Text} (hunit : unit.toNat < 0x10000)
      (hothers : others ≠ []) (heq : Text.paddedHex 4 unit.toNat ++ others = tail) : low = unit := by
    have hpoint := escapedPoint_eq_ok_iff.mpr ⟨_, others, rfl, hothers, codePoint?_toNat hunit⟩
    rw [heq, htail] at hpoint
    exact Except.ok.inj hpoint
  rw [Json.codePointEscape] at hwhole
  split at hwhole
  next hplane =>
    rw [unitEscape_append] at hwhole
    exact hread hplane htext (List.cons.inj (List.cons.inj hwhole).2).2
  next hplane =>
    obtain ⟨high, other, hhigh, -, hhighValue, -, -⟩ :=
      exists_surrogates (Nat.le_of_not_lt hplane)
    have hhighRange := isHighSurrogate_iff.mp hhigh
    have hlowRange := isLowSurrogate_iff.mp hlow
    rw [List.append_assoc, unitEscape_append, unitEscape_append, ← hhighValue] at hwhole
    obtain rfl := hread (by omega) (List.cons_ne_nil _ _)
      (List.cons.inj (List.cons.inj hwhole).2).2
    omega

theorem eq_of_escapePoint
    (hwhole : Json.escapePoint point ++ text = .scalar '\\' :: .scalar 'u' :: tail)
    (htext : text ≠ []) (htail : escapedPoint tail = .ok low) (hlow : isLowSurrogate low = true) :
    low = point := by
  rcases escapePoint_cases point with
    ⟨letter, hnamed, hwritten⟩ | ⟨-, hslash, -, -, hwritten⟩ | hwritten
  · rw [hwritten] at hwhole
    exact absurd (List.cons.inj (List.cons.inj hwhole).2).1 (ne_unit_of_namedEscape? hnamed)
  · rw [hwritten] at hwhole
    exact absurd (List.cons.inj hwhole).1 hslash
  · rw [hwritten] at hwhole
    exact eq_of_codePointEscape hwhole htext htail hlow

theorem not_pairs_escaped (hunpaired : Unpaired (high :: others)) (low : CodePoint) :
    ¬Pairs high (others.flatMap Json.escapePoint ++ .scalar '\x22' :: rest) low := by
  intro hpairs
  obtain ⟨hhigh, hlow, tail, hwhole, htail⟩ := hpairs
  cases others with
  | nil => exact absurd (List.cons.inj hwhole).1 (by decide)
  | cons point others =>
      rw [List.flatMap_cons, List.append_assoc] at hwhole
      obtain rfl := eq_of_escapePoint hwhole (by simp) htail hlow
      exact (List.isChain_cons_cons.mp hunpaired).1 ⟨hhigh, hlow⟩

/-- A text that was written is read from the document it was written to. -/
theorem body_of_unpaired (hunpaired : Unpaired value) (rest : Text) :
    Body (value.flatMap Json.escapePoint ++ .scalar '\x22' :: rest) value rest := by
  induction value with
  | nil => exact .close
  | cons point others ih =>
      rw [List.flatMap_cons, List.append_assoc]
      exact (ih hunpaired.tail).escapePoint (not_pairs_escaped hunpaired)

end Writing

end KeyLayout.Json
