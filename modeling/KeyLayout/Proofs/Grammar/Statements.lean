import KeyLayout.Proofs.Grammar.Values

namespace KeyLayout

/-! Statements are read from exactly the tokens that derive them. -/

namespace Property

variable {token : Token} {property : Property} {properties : List Property}
  {tokens first rest : List Token} {after : Option Token}

theorem read_eq_ok_iff : read token = .ok property ↔ Derives token property := by
  constructor
  · intro hread
    cases token with
    | literal text => contradiction
    | punctuation mark => contradiction
    | word text =>
        rw [read] at hread
        split at hread
        next hlabel =>
          cases hread
          exact hlabel ▸ .label
        split at hread
        next hnumber =>
          cases hread
          exact hnumber ▸ .number
        split at hread
        next mask hparse =>
          cases hread
          exact .mask hparse
        next => contradiction
  · intro hderives
    cases hderives with
    | label => rfl
    | number => rfl
    | @mask text mask hparse =>
        have hne : ∀ other, MetaState.parse other = .error (.unknown other) → text ≠ other := by
          rintro other hother rfl
          rw [hparse] at hother
          contradiction
        rw [read, if_neg (hne _ rfl), if_neg (hne _ rfl), hparse]

theorem Derives.ne_punctuation (hderives : Derives token property) (mark : Punctuation) :
    token ≠ .punctuation mark := by
  rintro rfl
  cases hderives

theorem readList_cons_of_ne_comma (htoken : rest.head? ≠ some (.punctuation .comma)) :
    readList after (token :: rest) = (read token).map fun property => ([property], rest) := by
  rw [readList.eq_def]
  split
  next => contradiction
  next heq =>
    cases heq
    exact absurd rfl htoken
  next heq =>
    cases heq
    cases read token <;> rfl

theorem readList_append (hderives : DerivesAll first properties)
    (hrest : rest.head? ≠ some (.punctuation .comma)) :
    readList after (first ++ rest) = .ok (properties, rest) := by
  induction hderives with
  | single hproperty =>
      rw [List.singleton_append, readList_cons_of_ne_comma hrest, read_eq_ok_iff.mpr hproperty]
      rfl
  | cons hproperty _ ih =>
      rw [List.cons_append, List.cons_append, readList, read_eq_ok_iff.mpr hproperty, ih]
      rfl

theorem exists_of_readList (hread : readList after tokens = .ok (properties, rest)) :
    ∃ first, tokens = first ++ rest ∧ DerivesAll first properties := by
  induction tokens using readList.induct generalizing properties with
  | case1 => contradiction
  | case2 token tail ih =>
      rw [readList, bind_eq_ok_iff] at hread
      obtain ⟨property, hproperty, hread⟩ := hread
      rw [bind_eq_ok_iff] at hread
      obtain ⟨⟨others, left⟩, hothers, heq⟩ := hread
      cases heq
      obtain ⟨first, rfl, hfirst⟩ := ih hothers
      exact ⟨token :: .punctuation .comma :: first, rfl,
        .cons (read_eq_ok_iff.mp hproperty) hfirst⟩
  | case3 token tail hcomma =>
      have hhead : tail.head? ≠ some (.punctuation .comma) := by
        intro hhead
        obtain ⟨others, rfl⟩ := List.head?_eq_some_iff.mp hhead
        exact hcomma others rfl
      rw [readList_cons_of_ne_comma hhead] at hread
      cases hproperty : read token with
      | error fault => rw [hproperty] at hread; contradiction
      | ok property =>
          rw [hproperty] at hread
          cases hread
          exact ⟨[token], rfl, .single (read_eq_ok_iff.mp hproperty)⟩

end Property

theorem Value.Derives.head?_ne {tokens : List Token} {value : Value}
    (hderives : Value.Derives tokens value) (mark : Punctuation) :
    tokens.head? ≠ some (.punctuation mark) := by
  obtain ⟨hparts, hsome, -, -⟩ := hderives
  cases hparts with
  | nil => exact absurd rfl hsome
  | cons hfirst _ =>
      cases hfirst with
      | @character token point hgives =>
          rintro heq
          cases heq
          cases hgives
      | fallback => simp
      | replacement => simp

theorem Property.DerivesAll.head?_ne {tokens : List Token} {properties : List Property}
    (hderives : DerivesAll tokens properties) (mark : Punctuation) (rest : List Token) :
    (tokens ++ rest).head? ≠ some (.punctuation mark) := by
  cases hderives with
  | single hproperty => simpa using hproperty.ne_punctuation mark
  | cons hproperty _ => simpa using hproperty.ne_punctuation mark

theorem Value.Derives.isSeparator_eq_false {tokens : List Token} {value : Value}
    (hderives : Value.Derives tokens value) :
    ∀ token ∈ tokens, Statement.isSeparator token = false := by
  obtain ⟨hparts, -, -, -⟩ := hderives
  induction hparts with
  | nil => simp
  | cons hfirst _ ih =>
      refine List.forall_mem_append.mpr ⟨?_, ih⟩
      cases hfirst with
      | character hgives => cases hgives <;> simp [Statement.isSeparator]
      | fallback => simp [Statement.isSeparator]
      | replacement => simp [Statement.isSeparator]

theorem Property.DerivesAll.isSeparator_eq_false {tokens : List Token}
    {properties : List Property} (hderives : DerivesAll tokens properties) :
    ∀ token ∈ tokens, Statement.isSeparator token = false := by
  have hword : ∀ {token property}, Derives token property →
      Statement.isSeparator token = false := by
    intro token property hproperty
    cases hproperty <;> rfl
  induction hderives with
  | single hproperty => simpa using hword hproperty
  | cons hproperty _ ih =>
      exact List.forall_mem_cons.mpr ⟨hword hproperty, List.forall_mem_cons.mpr ⟨rfl, ih⟩⟩

namespace Statement

variable {tokens : List Token} {statement : Statement} {after : Option Token}

theorem read_of_head?_ne (hhead : tokens.head? ≠ some (.punctuation .colon)) :
    read after tokens = .ok statement ↔
      ∃ properties rest value, Property.readList after tokens = .ok (properties, rest) ∧
        (Value.read after rest = .ok value ∧ rest.head? ≠ some (.punctuation .colon) ∨
          ∃ tail, rest = .punctuation .colon :: tail ∧ Value.read after tail = .ok value) ∧
        statement = ⟨properties, value⟩ := by
  rw [read.eq_def]
  split
  next => exact absurd rfl hhead
  next =>
  rw [bind_eq_ok_iff]
  constructor
  · rintro ⟨⟨properties, rest⟩, hproperties, hread⟩
    dsimp only at hread
    split at hread
    next tail =>
      obtain ⟨value, hvalue, heq⟩ := bind_eq_ok_iff.mp hread
      cases heq
      exact ⟨properties, _, value, hproperties, .inr ⟨tail, rfl, hvalue⟩, rfl⟩
    next hcolon =>
      obtain ⟨value, hvalue, heq⟩ := bind_eq_ok_iff.mp hread
      cases heq
      refine ⟨properties, rest, value, hproperties, .inl ⟨hvalue, fun hhead => ?_⟩, rfl⟩
      obtain ⟨tail, rfl⟩ := List.head?_eq_some_iff.mp hhead
      exact hcolon tail rfl
  · rintro ⟨properties, rest, value, hproperties, hvalue, rfl⟩
    refine ⟨(properties, rest), hproperties, ?_⟩
    rcases hvalue with ⟨hvalue, hcolon⟩ | ⟨tail, rfl, hvalue⟩
    · dsimp only
      split
      next => exact absurd rfl hcolon
      next => exact bind_eq_ok_iff.mpr ⟨value, hvalue, rfl⟩
    · exact bind_eq_ok_iff.mpr ⟨value, hvalue, rfl⟩

theorem read_eq_ok_iff : read after tokens = .ok statement ↔ Derives tokens statement := by
  by_cases hhead : tokens.head? = some (.punctuation .colon)
  · obtain ⟨rest, rfl⟩ := List.head?_eq_some_iff.mp hhead
    rw [read, bind_eq_ok_iff]
    constructor
    · rintro ⟨value, hvalue, heq⟩
      cases heq
      exact .bare (Value.read_eq_ok_iff.mp hvalue)
    · intro hderives
      generalize hwhole : Token.punctuation .colon :: rest = whole at hderives
      cases hderives with
      | bare hvalue =>
          cases hwhole
          exact ⟨_, Value.read_eq_ok_iff.mpr hvalue, rfl⟩
      | plain hproperties _ =>
          exact absurd (congrArg List.head? hwhole.symm) (hproperties.head?_ne .colon _)
      | colon hproperties _ =>
          exact absurd (congrArg List.head? hwhole.symm) (hproperties.head?_ne .colon _)
  · rw [read_of_head?_ne hhead]
    constructor
    · rintro ⟨properties, rest, value, hproperties, hvalue, rfl⟩
      obtain ⟨first, rfl, hfirst⟩ := Property.exists_of_readList hproperties
      rcases hvalue with ⟨hvalue, -⟩ | ⟨tail, rfl, hvalue⟩
      · exact .plain hfirst (Value.read_eq_ok_iff.mp hvalue)
      · exact .colon hfirst (Value.read_eq_ok_iff.mp hvalue)
    · intro hderives
      cases hderives with
      | bare => exact absurd rfl hhead
      | plain hproperties hvalue =>
          exact ⟨_, _, _, Property.readList_append hproperties (hvalue.head?_ne .comma),
            .inl ⟨Value.read_eq_ok_iff.mpr hvalue, hvalue.head?_ne .colon⟩, rfl⟩
      | colon hproperties hvalue =>
          exact ⟨_, _, _, Property.readList_append hproperties (by simp),
            .inr ⟨_, rfl, Value.read_eq_ok_iff.mpr hvalue⟩, rfl⟩

theorem Derives.isSeparator_eq_false (hderives : Derives tokens statement) :
    ∀ token ∈ tokens, isSeparator token = false := by
  cases hderives with
  | bare hvalue =>
      exact List.forall_mem_cons.mpr ⟨rfl, hvalue.isSeparator_eq_false⟩
  | plain hproperties hvalue =>
      exact List.forall_mem_append.mpr
        ⟨hproperties.isSeparator_eq_false, hvalue.isSeparator_eq_false⟩
  | colon hproperties hvalue =>
      exact List.forall_mem_append.mpr ⟨hproperties.isSeparator_eq_false,
        List.forall_mem_cons.mpr ⟨rfl, hvalue.isSeparator_eq_false⟩⟩

theorem Derives.ne_nil (hderives : Derives tokens statement) : tokens ≠ [] := by
  cases hderives with
  | bare => exact List.cons_ne_nil _ _
  | plain hproperties _ => cases hproperties <;> simp
  | colon => simp

end Statement

end KeyLayout
