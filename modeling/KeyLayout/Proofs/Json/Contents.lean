import KeyLayout.Proofs.Decimal.Truncation
import KeyLayout.Proofs.Json.Escaping
import KeyLayout.Proofs.Json.Grammar
import KeyLayout.Proofs.Text.Plain

namespace KeyLayout.Json

/-! What is read from a document without surrogates: no text of it pairs two of them, and
no integer of it has more digits than can be written. -/

variable {text start content rest : Text} {room : Nat} {json : Json} {part : Part}

/-- Every text in the value, the names of members too, can be written, and every number. -/
inductive Sound : Json → Prop
  | null : Sound .null
  | bool {value : Bool} : Sound (.bool value)
  | int {value : Int} (hvalue : value.natAbs < 10 ^ Numeral.decimalLimit) : Sound (.int value)
  | float {value : Binary64}
      (hvalue : ∀ whole, value.truncate? = some whole →
        whole.natAbs < 10 ^ Numeral.decimalLimit) : Sound (.float value)
  | text {content : Text} (hcontent : Unpaired content) : Sound (.text content)
  | array {items : List Json} (hitems : ∀ item ∈ items, Sound item) : Sound (.array items)
  | object {members : List (Text × Json)} (hnames : ∀ member ∈ members, Unpaired member.1)
      (hmembers : ∀ member ∈ members, Sound member.2) : Sound (.object members)

theorem Body.plain_rest (hbody : Body start content rest) (hplain : start.Plain) :
    rest.Plain := by
  induction hbody with
  | close => exact (Text.plain_cons_iff.mp hplain).2
  | plain hmark hslash hcontrol hbody ih => exact ih (Text.plain_cons_iff.mp hplain).2
  | named hnamed hbody ih =>
      exact ih (Text.plain_cons_iff.mp (Text.plain_cons_iff.mp hplain).2).2
  | unit hpoint halone hbody ih =>
      exact ih (hplain.sublist (((List.sublist_append_right _ _).cons _).cons _))
  | pair hhigh hlow hhighRange hlowRange hbody ih =>
      refine ih (hplain.sublist ((List.Sublist.cons _ (List.Sublist.cons _ ?_))))
      exact List.Sublist.trans
        (((List.sublist_append_right _ _).cons _).cons _) (List.sublist_append_right _ _)

theorem plain_skipBlank (hplain : text.Plain) : (skipBlank text).Plain :=
  hplain.sublist (List.dropWhile_sublist isBlank)

theorem plain_of_skipBlank {point : CodePoint} (hskip : skipBlank text = point :: rest)
    (hplain : text.Plain) : rest.Plain := by
  have hrest := plain_skipBlank hplain
  rw [hskip] at hrest
  exact (Text.plain_cons_iff.mp hrest).2

section Scalars

theorem natural_lt {digits : Text} (hdigits : digits.length ≤ Numeral.decimalLimit) :
    NumberText.natural digits < 10 ^ Numeral.decimalLimit := by
  rw [NumberText.natural]
  cases hvalue : Text.digitsValue? 10 digits with
  | none => exact Nat.pow_pos (by decide)
  | some value =>
      exact Nat.lt_of_lt_of_le (Text.lt_of_digitsValue? hvalue)
        (Nat.pow_le_pow_right (by decide) hdigits)

theorem sound_of_toJson {number : NumberText} (hread : number.toJson = .ok json) : Sound json := by
  rw [NumberText.toJson] at hread
  split at hread
  next =>
    split at hread
    next => contradiction
    next hlength =>
      cases hread
      have hnatural := natural_lt (Nat.le_of_not_lt hlength)
      refine .int ?_
      split
      next => rwa [Int.natAbs_neg]
      next => exact hnatural
  next =>
    cases hread
    exact .float fun whole hwhole => Binary64.natAbs_truncate_ofDecimal_lt hwhole

theorem sound_of_word {word : Text × Json} (hword : word ∈ words) : Sound word.2 := by
  have hfloat {value : Binary64} (hvalue : value.truncate? = none) : Sound (.float value) :=
    .float fun whole hwhole => by
      rw [hvalue] at hwhole
      contradiction
  revert word
  simp only [words, List.forall_mem_cons]
  exact ⟨.null, .bool, .bool, hfloat rfl, hfloat rfl, hfloat rfl, fun _ hnone => nomatch hnone⟩

theorem sound_of_scalar {parsed : Parsed text Json} (hread : scalar text = .ok parsed) :
    Sound parsed.value ∧ List.Sublist parsed.rest text := by
  rw [scalar] at hread
  split at hread
  next word value hfound =>
    dsimp only at hread
    split at hread
    next =>
      cases hread
      exact ⟨sound_of_word (List.mem_of_find?_eq_some hfound), List.drop_sublist _ _⟩
    next => contradiction
  next =>
    split at hread
    next => contradiction
    next number length hnumber =>
      obtain ⟨value, hvalue, hparsed⟩ := bind_eq_ok_iff.mp hread
      dsimp only at hparsed
      split at hparsed
      next =>
        cases hparsed
        exact ⟨sound_of_toJson hvalue, List.drop_sublist _ _⟩
      next => contradiction

end Scalars

variable {members : List (Text × Json)}

theorem mem_insertMember {member : Text × Json} {name : Text} {value : Json}
    (hmember : member ∈ insertMember name value members) :
    member = (name, value) ∨ member ∈ members := by
  induction members with
  | nil => exact .inl (List.mem_singleton.mp hmember)
  | cons own rest ih =>
      rw [insertMember] at hmember
      split at hmember
      next =>
        rcases List.mem_cons.mp hmember with heq | hrest
        · exact .inl heq
        · exact .inr (List.mem_cons_of_mem _ hrest)
      next =>
        rcases List.mem_cons.mp hmember with rfl | hrest
        · exact .inr (List.mem_cons_self ..)
        · exact (ih hrest).imp_right (List.mem_cons_of_mem _)

theorem mem_foldl_insertMember {member : Text × Json} {found : List (Text × Json)}
    (hmember : member ∈
      members.foldl (fun found member => insertMember member.1 member.2 found) found) :
    member ∈ members ∨ member ∈ found := by
  induction members generalizing found with
  | nil => exact .inr hmember
  | cons own rest ih =>
      rcases ih hmember with hrest | hinsert
      · exact .inl (List.mem_cons_of_mem _ hrest)
      · rcases mem_insertMember hinsert with rfl | hfound
        · exact .inl (List.mem_cons_self ..)
        · exact .inr hfound

/-- Every value in the part is sound. -/
def Part.Sound : Part → Prop
  | .value json => json.Sound
  | .elements items => ∀ item ∈ items, item.Sound
  | .members found => ∀ member ∈ found, Unpaired member.1 ∧ member.2.Sound

theorem sound_ofMembers (hmembers : (Part.members members).Sound) : Sound (ofMembers members) := by
  have hfound (member : Text × Json) (hmember : member ∈
      members.foldl (fun found member => insertMember member.1 member.2 found) []) :
      Unpaired member.1 ∧ member.2.Sound := by
    rcases mem_foldl_insertMember hmember with hmem | hnone
    · exact hmembers member hmem
    · contradiction
  exact .object (fun member hmember => (hfound member hmember).1)
    fun member hmember => (hfound member hmember).2

theorem Reads.sound (hreads : Reads room text part rest) (hplain : text.Plain) :
    part.Sound ∧ rest.Plain := by
  induction hreads with
  | text hbody =>
      have hstart := (Text.plain_cons_iff.mp hplain).2
      exact ⟨.text (hbody.unpaired hstart), hbody.plain_rest hstart⟩
  | bare hbare hscalar =>
      obtain ⟨hsound, hsublist⟩ := sound_of_scalar hscalar
      exact ⟨hsound, hplain.sublist hsublist⟩
  | noItems hclose =>
      have hstart := (Text.plain_cons_iff.mp hplain).2
      exact ⟨.array (List.forall_mem_nil _), plain_of_skipBlank hclose hstart⟩
  | items hopen hitems ih =>
      obtain ⟨hsound, hrest⟩ := ih (plain_skipBlank (Text.plain_cons_iff.mp hplain).2)
      exact ⟨.array hsound, hrest⟩
  | noMembers hclose =>
      have hstart := (Text.plain_cons_iff.mp hplain).2
      exact ⟨.object (List.forall_mem_nil _) (List.forall_mem_nil _),
        plain_of_skipBlank hclose hstart⟩
  | members hopen hmembers ih =>
      obtain ⟨hsound, hrest⟩ := ih (plain_skipBlank (Text.plain_cons_iff.mp hplain).2)
      exact ⟨sound_ofMembers hsound, hrest⟩
  | lastItem hitem hclose ih =>
      obtain ⟨hsound, hafter⟩ := ih hplain
      exact ⟨List.forall_mem_singleton.mpr hsound, plain_of_skipBlank hclose hafter⟩
  | nextItem hitem hcomma hitems ihitem ihitems =>
      obtain ⟨hsound, hafter⟩ := ihitem hplain
      obtain ⟨hothers, hrest⟩ := ihitems (plain_skipBlank (plain_of_skipBlank hcomma hafter))
      exact ⟨List.forall_mem_cons.mpr ⟨hsound, hothers⟩, hrest⟩
  | lastMember hname hcolon hitem hclose ih =>
      have hstart := (Text.plain_cons_iff.mp hplain).2
      obtain ⟨hsound, hafter⟩ :=
        ih (plain_skipBlank (plain_of_skipBlank hcolon (hname.plain_rest hstart)))
      exact ⟨List.forall_mem_singleton.mpr ⟨hname.unpaired hstart, hsound⟩,
        plain_of_skipBlank hclose hafter⟩
  | nextMember hname hcolon hitem hcomma hmembers ihitem ihmembers =>
      have hstart := (Text.plain_cons_iff.mp hplain).2
      obtain ⟨hsound, hafter⟩ :=
        ihitem (plain_skipBlank (plain_of_skipBlank hcolon (hname.plain_rest hstart)))
      obtain ⟨hothers, hrest⟩ := ihmembers (plain_skipBlank (plain_of_skipBlank hcomma hafter))
      exact ⟨List.forall_mem_cons.mpr ⟨⟨hname.unpaired hstart, hsound⟩, hothers⟩, hrest⟩

theorem sound_of_ofText (hread : ofText text = .ok json) (hplain : text.Plain) : Sound json := by
  obtain ⟨-, rest, hreads, -⟩ := document_eq_ok_iff.mp (mapError_eq_ok_iff.mp hread)
  exact (hreads.sound (plain_skipBlank hplain)).1

end KeyLayout.Json
