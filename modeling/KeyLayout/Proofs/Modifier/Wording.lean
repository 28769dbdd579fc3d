import KeyLayout.Modifier.Combination
import KeyLayout.Proofs.Outcome
import KeyLayout.Proofs.Text.Plain

namespace KeyLayout

/-! Every meta state is written as a combination of modifiers that can be read. -/

/-- Every name of a group: those of its sides, if it has sides, and the one for either. -/
def ModifierGroup.words (group : ModifierGroup) : List Text :=
  (if group.isPaired then [group.leftWord, group.rightWord] else []) ++ [group.word]

namespace MetaState

variable {state start : MetaState} {words : List Text} {text : Text}

theorem isPaired_of_isSided {group : ModifierGroup}
    (hsided : (group.sides state).isSided = true) : group.isPaired = true := by
  rw [ModifierGroup.isPaired]
  cases hbits : group.sideBits? with
  | some => rfl
  | none =>
      rw [Sides.isSided, ModifierGroup.sides, hbits] at hsided
      contradiction

theorem groupWords_sublist (state : MetaState) (group : ModifierGroup) :
    (state.groupWords group).Sublist group.words := by
  have hside (named : Bool) (word : Text) : (if named then [word] else []).Sublist [word] := by
    split
    next => exact List.Sublist.refl _
    next => exact List.nil_sublist _
  rw [groupWords, ModifierGroup.words]
  split
  next hsided =>
    rw [if_pos (isPaired_of_isSided hsided)]
    exact ((hside _ _).append (hside _ _)).trans (List.sublist_append_left _ _)
  split
  next => exact List.sublist_append_right _ _
  next => exact List.nil_sublist _

/-- The words for groups in a meta state are some of all names, in the order of the groups. -/
theorem flatMap_groupWords_sublist (state : MetaState) (groups : List ModifierGroup) :
    (groups.flatMap state.groupWords).Sublist (groups.flatMap ModifierGroup.words) := by
  induction groups with
  | nil => exact List.Sublist.refl _
  | cons group rest ih =>
      rw [List.flatMap_cons, List.flatMap_cons]
      exact (groupWords_sublist state group).append ih

def addName (text : Text) (combined : MetaState) (name : Text) :
    Except CombinationFault MetaState :=
  match bitNamed? name with
  | none => .error (.unknown name)
  | some bit =>
      if combined.testBit bit then .error (.repeated name text)
      else .ok (combined.setBit bit)

theorem foldlM_addName (hnamed : ∀ name ∈ words, (bitNamed? name).isSome = true)
    (hnodup : (words.map bitNamed?).Nodup)
    (hnew : ∀ name ∈ words, ∀ bit ∈ bitNamed? name, start.testBit bit = false) :
    words.foldlM (addName text) start = .ok (start.setBits (words.filterMap bitNamed?)) := by
  induction words generalizing start with
  | nil => rfl
  | cons name rest ih =>
      obtain ⟨hname, hrest⟩ := List.forall_mem_cons.mp hnamed
      obtain ⟨hnameNew, hrestNew⟩ := List.forall_mem_cons.mp hnew
      obtain ⟨hdistinct, hnodupRest⟩ := List.nodup_cons.mp hnodup
      obtain ⟨bit, hbit⟩ := Option.isSome_iff_exists.mp hname
      have hstep : addName text start name = .ok (start.setBit bit) := by
        rw [addName, hbit]
        exact if_neg (by rw [hnameNew bit hbit]; decide)
      have hlast : rest.foldlM (addName text) (start.setBit bit) =
          .ok ((start.setBit bit).setBits (rest.filterMap bitNamed?)) := by
        refine ih hrest hnodupRest fun other hother own hown => ?_
        have hne : bit ≠ own := by
          rintro rfl
          exact hdistinct (List.mem_map.mpr ⟨other, hother, hown.trans hbit.symm⟩)
        rw [testBit_setBit, hrestNew other hother own hown, decide_eq_false hne]
        rfl
      rw [List.foldlM_cons, List.filterMap_cons_some hbit]
      exact bind_eq_ok_iff.mpr ⟨_, hstep, hlast⟩

theorem all_words :
    (∀ name ∈ ModifierGroup.all.flatMap ModifierGroup.words,
      (bitNamed? name).isSome = true ∧ CodePoint.scalar '+' ∉ name ∧ name.Plain) ∧
    ((ModifierGroup.all.flatMap ModifierGroup.words).map bitNamed?).Nodup := by
  decide +kernel

/-- The state of the bits that are named where a state is written. -/
def restated (state : MetaState) : MetaState :=
  setBits 0 ((ModifierGroup.all.flatMap state.groupWords).filterMap bitNamed?)

/-- A combination of names is none of the texts for no modifiers at all. -/
theorem contains_emptyNames_joinWith (hnamed : ∀ name ∈ words, (bitNamed? name).isSome = true)
    (hplus : ∀ name ∈ words, CodePoint.scalar '+' ∉ name) (hsome : words ≠ []) :
    emptyNames.contains (Text.joinWith [.scalar '+'] words) = false := by
  have hunnamed : ∀ name ∈ emptyNames,
      ∀ part ∈ Text.splitOn (.scalar '+') name, bitNamed? part = none := by
    decide +kernel
  refine Bool.eq_false_iff.mpr fun hempty => ?_
  obtain ⟨first, rest, rfl⟩ := List.exists_cons_of_ne_nil hsome
  have hnone := hunnamed _ (List.contains_iff_mem.mp hempty) first
    (by rw [Text.splitOn_joinWith hplus hsome]; exact List.mem_cons_self ..)
  have hfirst := hnamed first (List.mem_cons_self ..)
  rw [hnone] at hfirst
  contradiction

theorem parse_format (state : MetaState) : parse state.format = .ok state.restated := by
  obtain ⟨hwords, hnodup⟩ := all_words
  have hsublist := flatMap_groupWords_sublist state ModifierGroup.all
  have hnamed (name : Text) (hname : name ∈ ModifierGroup.all.flatMap state.groupWords) :=
    hwords name (hsublist.subset hname)
  rw [restated, format]
  split
  next hnone =>
    rw [hnone]
    rfl
  next words hsome =>
    have hnonempty := contains_emptyNames_joinWith (fun name hname => (hnamed name hname).1)
      (fun name hname => (hnamed name hname).2.1) hsome
    change parse (Text.joinWith [.scalar '+'] _) = _
    rw [parse, hnonempty, if_neg Bool.false_ne_true,
      Text.splitOn_joinWith (fun name hname => (hnamed name hname).2.1) hsome]
    exact foldlM_addName (fun name hname => (hnamed name hname).1)
      (hnodup.sublist (hsublist.map _)) fun _ _ bit _ => Nat.zero_testBit bit

theorem exists_parse_format (state : MetaState) : ∃ last, parse state.format = .ok last :=
  ⟨_, parse_format state⟩

theorem plain_format (state : MetaState) : state.format.Plain := by
  have hsublist := flatMap_groupWords_sublist state ModifierGroup.all
  rw [format]
  split
  next => exact Text.plain_ofString "base"
  next words hsome =>
    exact Text.plain_joinWith (Text.plain_ofString "+") fun name hname =>
      (all_words.1 name (hsublist.subset hname)).2.2

end MetaState

end KeyLayout
