import KeyLayout.Json.Reader
import KeyLayout.Proofs.Outcome

namespace KeyLayout.Json

/-! The texts within a JSON document, as a grammar and as they are read. -/

variable {text value rest digits : Text} {opening : Nat} {point letter high low : CodePoint}

theorem length_of_codePoint? (hpoint : codePoint? digits = some point) : digits.length = 4 := by
  rw [codePoint?] at hpoint
  split at hpoint
  next hlength => exact hlength
  next => contradiction

theorem escapedPoint_eq_ok_iff :
    escapedPoint text = .ok point ↔
      ∃ digits rest, text = digits ++ rest ∧ rest ≠ [] ∧ codePoint? digits = some point := by
  rw [escapedPoint]
  constructor
  · intro hpoint
    split at hpoint
    next => contradiction
    next hlength =>
      refine ⟨text.take 4, text.drop 4, (List.take_append_drop 4 text).symm, ?_, ?_⟩
      · exact mt List.drop_eq_nil_iff.mp hlength
      · split at hpoint
        next own hown =>
          cases hpoint
          exact hown
        next => contradiction
  · intro hdigits
    obtain ⟨digits, rest, rfl, hrest, hpoint⟩ := hdigits
    have hlength := length_of_codePoint? hpoint
    have hsome := List.length_pos_iff.mpr hrest
    rw [if_neg (by rw [List.length_append]; omega), List.take_left' hlength, hpoint]

/-- Behind a high surrogate stands the escape of a low one, and the text does not end
with it. -/
def Pairs (high : CodePoint) (after : Text) (low : CodePoint) : Prop :=
  isHighSurrogate high = true ∧ isLowSurrogate low = true ∧
    ∃ tail, after = .scalar '\\' :: .scalar 'u' :: tail ∧ escapedPoint tail = .ok low

/-- From behind its opening mark on the text spells the value, up to the mark before the
rest.  A high and a low surrogate in a row spell one code point together. -/
inductive Body : Text → Text → Text → Prop
  | close {rest : Text} : Body (.scalar '\x22' :: rest) [] rest
  | plain {point : CodePoint} {text value rest : Text} (hmark : point ≠ .scalar '\x22')
      (hslash : point ≠ .scalar '\\') (hcontrol : 0x1F < point.toNat)
      (hbody : Body text value rest) : Body (point :: text) (point :: value) rest
  | named {letter point : CodePoint} {text value rest : Text}
      (hnamed : namedEscape? letter = some point) (hbody : Body text value rest) :
      Body (.scalar '\\' :: letter :: text) (point :: value) rest
  | unit {digits : Text} {point : CodePoint} {text value rest : Text}
      (hpoint : codePoint? digits = some point) (halone : ∀ low, ¬Pairs point text low)
      (hbody : Body text value rest) :
      Body (.scalar '\\' :: .scalar 'u' :: (digits ++ text)) (point :: value) rest
  | pair {digits others : Text} {high low : CodePoint} {text value rest : Text}
      (hhigh : codePoint? digits = some high) (hlow : codePoint? others = some low)
      (hhighRange : isHighSurrogate high = true) (hlowRange : isLowSurrogate low = true)
      (hbody : Body text value rest) :
      Body (.scalar '\\' :: .scalar 'u' ::
          (digits ++ .scalar '\\' :: .scalar 'u' :: (others ++ text)))
        (joinSurrogates high low :: value) rest

theorem Body.ne_nil (hbody : Body text value rest) : text ≠ [] := by
  cases hbody <;> exact List.cons_ne_nil _ _

/-- Every escape by number in a text that is closed has its digits. -/
theorem Body.exists_escapedPoint (hbody : Body (.scalar '\\' :: .scalar 'u' :: text) value rest) :
    ∃ point, escapedPoint text = .ok point := by
  generalize hwhole : CodePoint.scalar '\\' :: CodePoint.scalar 'u' :: text = whole at hbody
  cases hbody with
  | close => exact absurd (List.cons.inj hwhole).1 (by decide)
  | plain hmark hslash => exact absurd (List.cons.inj hwhole).1.symm hslash
  | named hnamed =>
      cases hwhole
      contradiction
  | unit hpoint halone hbody =>
      cases hwhole
      exact ⟨_, escapedPoint_eq_ok_iff.mpr ⟨_, _, rfl, hbody.ne_nil, hpoint⟩⟩
  | pair hhigh =>
      cases hwhole
      exact ⟨_, escapedPoint_eq_ok_iff.mpr ⟨_, _, rfl, List.cons_ne_nil _ _, hhigh⟩⟩

section Pairs

variable {after : Text} {taken : Nat}

theorem completePair_of_pairs (hpairs : Pairs high after low) :
    completePair high after = .ok (joinSurrogates high low, 6) := by
  obtain ⟨hhigh, hlow, tail, rfl, hpoint⟩ := hpairs
  obtain ⟨digits, rest, rfl, hrest, hdigits⟩ := escapedPoint_eq_ok_iff.mp hpoint
  have hfour := length_of_codePoint? hdigits
  have hsome := List.length_pos_iff.mpr hrest
  rw [completePair, if_pos]
  · change escapedPoint (digits ++ rest) >>= _ = _
    rw [hpoint]
    change Except.ok (if isLowSurrogate low = true then _ else _) = _
    rw [if_pos hlow]
  · simp [hhigh, CodePoint.backslash]
    omega

/-- What a code point may be completed with is the escape of another. -/
theorem escape_of_completes
    (hcompletes : (isHighSurrogate high && after.length > 6 &&
      after.take 2 = [.backslash, .scalar 'u']) = true) :
    isHighSurrogate high = true ∧ after = .scalar '\\' :: .scalar 'u' :: after.drop 2 := by
  rw [Bool.and_eq_true, Bool.and_eq_true, decide_eq_true_eq] at hcompletes
  obtain ⟨⟨hhigh, -⟩, htake⟩ := hcompletes
  refine ⟨hhigh, ?_⟩
  rw [← List.take_append_drop 2 after, of_decide_eq_true htake]
  rfl

theorem completePair_of_not_pairs (halone : ∀ low, ¬Pairs high after low)
    (hescape : ∀ tail, after = .scalar '\\' :: .scalar 'u' :: tail →
      ∃ point, escapedPoint tail = .ok point) :
    completePair high after = .ok (high, 0) := by
  rw [completePair]
  split
  next hcompletes =>
    obtain ⟨hhigh, hafter⟩ := escape_of_completes hcompletes
    obtain ⟨point, hpoint⟩ := hescape _ hafter
    rw [hpoint]
    change Except.ok (if isLowSurrogate point = true then _ else _) = _
    rw [if_neg fun hlow => halone point ⟨hhigh, hlow, _, hafter, hpoint⟩]
  next => rfl

theorem completePair_cases (hcomplete : completePair high after = .ok (point, taken)) :
    (∃ low, Pairs high after low ∧ point = joinSurrogates high low ∧ taken = 6) ∨
      (∀ low, ¬Pairs high after low) ∧ point = high ∧ taken = 0 := by
  by_cases hpairs : ∃ low, Pairs high after low
  · obtain ⟨low, hlow⟩ := hpairs
    rw [completePair_of_pairs hlow] at hcomplete
    cases hcomplete
    exact .inl ⟨low, hlow, rfl, rfl⟩
  · refine .inr ⟨fun low hlow => hpairs ⟨low, hlow⟩, ?_⟩
    rw [completePair] at hcomplete
    split at hcomplete
    next hcompletes =>
      obtain ⟨hhigh, hafter⟩ := escape_of_completes hcompletes
      obtain ⟨own, hown, heq⟩ := bind_eq_ok_iff.mp hcomplete
      have hlow : ¬isLowSurrogate own = true := fun hlow =>
        hpairs ⟨own, hhigh, hlow, _, hafter, hown⟩
      rw [if_neg hlow] at heq
      cases heq
      exact ⟨rfl, rfl⟩
    next =>
      cases hcomplete
      exact ⟨rfl, rfl⟩

end Pairs

theorem body_of_escape {after content left : Text} {first : CodePoint} {taken : Nat}
    (hfirst : escapedPoint after = .ok first)
    (hpair : completePair first (after.drop 4) = .ok (point, taken))
    (hrest : Body (after.drop (4 + taken)) content left) :
    Body (.scalar '\\' :: .scalar 'u' :: after) (point :: content) left := by
  obtain ⟨digits, rest, rfl, -, hdigits⟩ := escapedPoint_eq_ok_iff.mp hfirst
  have hfour := length_of_codePoint? hdigits
  rw [← List.drop_drop, List.drop_left' hfour] at hrest
  rw [List.drop_left' hfour] at hpair
  rcases completePair_cases hpair with
    ⟨low, ⟨hhigh, hlow, tail, rfl, htail⟩, rfl, rfl⟩ | ⟨halone, rfl, rfl⟩
  · obtain ⟨others, more, rfl, -, hothers⟩ := escapedPoint_eq_ok_iff.mp htail
    have hdrop : (others ++ more).drop 4 = more := List.drop_left' (length_of_codePoint? hothers)
    rw [List.drop_succ_cons, List.drop_succ_cons, hdrop] at hrest
    exact .pair hdigits hothers hhigh hlow hrest
  · exact .unit hdigits halone hrest

theorem body_of_textBody {parsed : Parsed text Text} (hread : textBody opening text = .ok parsed) :
    Body text parsed.value parsed.rest := by
  generalize hsize : text.length = size
  induction size using Nat.strongRecOn generalizing text with
  | ind size ih =>
      subst hsize
      rw [textBody.eq_def] at hread
      split at hread
      next => contradiction
      next =>
        cases hread
        exact .close
      next => contradiction
      next after =>
        obtain ⟨first, hfirst, hread⟩ := bind_eq_ok_iff.mp hread
        obtain ⟨⟨point, taken⟩, hpair, hread⟩ := bind_eq_ok_iff.mp hread
        obtain ⟨⟨content, left, hleft⟩, hbody, heq⟩ := bind_eq_ok_iff.mp hread
        cases heq
        have hshort : (after.drop (4 + taken)).length < after.length + 1 + 1 := by
          rw [List.length_drop]
          omega
        exact body_of_escape hfirst hpair (ih _ hshort hbody rfl)
      next tail letter _ =>
        split at hread
        next => contradiction
        next point hnamed =>
          obtain ⟨body, hbody, heq⟩ := bind_eq_ok_iff.mp hread
          cases heq
          exact .named hnamed (ih _ (by simp only [List.length_cons]; omega) hbody rfl)
      next point tail hmark hend hunit hnamed =>
        split at hread
        next => contradiction
        next hcontrol =>
          obtain ⟨body, hbody, heq⟩ := bind_eq_ok_iff.mp hread
          cases heq
          refine .plain hmark (fun hslash => ?_) (Nat.lt_of_not_le hcontrol)
            (ih _ (Nat.lt_succ_self _) hbody rfl)
          cases tail with
          | nil => exact hend hslash rfl
          | cons letter tail => exact hnamed letter tail hslash rfl

theorem ne_unit_of_namedEscape? (hnamed : namedEscape? letter = some point) :
    letter ≠ .scalar 'u' := by
  intro heq
  rw [heq] at hnamed
  contradiction

theorem textBody_escape {after content left : Text} {first : CodePoint} {taken : Nat}
    (hfirst : escapedPoint after = .ok first)
    (hpair : completePair first (after.drop 4) = .ok (point, taken))
    (hread : ∃ hshorter, textBody opening (after.drop (4 + taken)) = .ok ⟨content, left, hshorter⟩) :
    ∃ hshorter, textBody opening (.scalar '\\' :: .scalar 'u' :: after) =
      .ok ⟨point :: content, left, hshorter⟩ := by
  obtain ⟨hshorter, hbody⟩ := hread
  refine ⟨by simp only [List.length_cons, List.length_drop] at hshorter ⊢; omega, ?_⟩
  rw [textBody.eq_4]
  exact bind_eq_ok_iff.mpr ⟨first, hfirst, bind_eq_ok_iff.mpr ⟨_, hpair,
    bind_eq_ok_iff.mpr ⟨_, hbody, rfl⟩⟩⟩

theorem textBody_of_body (hbody : Body text value rest) (opening : Nat) :
    ∃ hshorter, textBody opening text = .ok ⟨value, rest, hshorter⟩ := by
  induction hbody with
  | close => exact ⟨by simp, textBody.eq_2 ..⟩
  | plain hmark hslash hcontrol hbody ih =>
      obtain ⟨hshorter, hread⟩ := ih
      refine ⟨by simp only [List.length_cons]; omega, ?_⟩
      rw [textBody.eq_6 _ _ _ hmark (fun heq => absurd heq hslash)
        (fun _ heq => absurd heq hslash) (fun _ _ heq => absurd heq hslash),
        if_neg (Nat.not_le_of_lt hcontrol), hread]
      rfl
  | @named letter point text value rest hnamed hbody ih =>
      obtain ⟨hshorter, hread⟩ := ih
      refine ⟨by simp only [List.length_cons]; omega, ?_⟩
      rw [textBody.eq_5 _ _ _ (ne_unit_of_namedEscape? hnamed), hnamed]
      dsimp only
      rw [hread]
      rfl
  | @unit digits point text value rest hpoint halone hbody ih =>
      have hdrop : (digits ++ text).drop 4 = text := List.drop_left' (length_of_codePoint? hpoint)
      have hescape := escapedPoint_eq_ok_iff.mpr ⟨digits, text, rfl, hbody.ne_nil, hpoint⟩
      refine @textBody_escape _ _ _ _ _ _ 0 hescape ?_ ?_
      · rw [hdrop]
        -- an escape behind this one is read as a second half before it is read for itself
        refine completePair_of_not_pairs halone fun tail htail => ?_
        rw [htail] at hbody
        exact hbody.exists_escapedPoint
      · rw [hdrop]
        exact ih
  | @pair digits others high low text value rest hhigh hlow hhighRange hlowRange hbody ih =>
      have hfour := length_of_codePoint? hhigh
      refine @textBody_escape _ _ _ _ _ _ 6
        (escapedPoint_eq_ok_iff.mpr ⟨digits, _, rfl, List.cons_ne_nil _ _, hhigh⟩) ?_ ?_
      · rw [List.drop_left' hfour]
        exact completePair_of_pairs ⟨hhighRange, hlowRange, _, rfl,
          escapedPoint_eq_ok_iff.mpr ⟨others, text, rfl, hbody.ne_nil, hlow⟩⟩
      · rw [← List.drop_drop, List.drop_left' hfour, List.drop_succ_cons, List.drop_succ_cons,
          List.drop_left' (length_of_codePoint? hlow)]
        exact ih

end KeyLayout.Json
