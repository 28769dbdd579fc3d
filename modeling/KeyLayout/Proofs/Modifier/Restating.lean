import KeyLayout.Proofs.Modifier.Compatible
import KeyLayout.Proofs.Modifier.Masks
import KeyLayout.Proofs.Modifier.Wording

namespace KeyLayout

/-! What a meta state says is left of it when it is written in words and read back.  The
words name the sides that are held, and either side only where no particular one is, so
that no mask and no typing tells the two states apart. -/

/-- What is named of the sides: those that are held, and either only where none is. -/
def Sides.named (sides : Sides) : Sides :=
  { sides with generic := sides.generic && !sides.isSided }

theorem Sides.named_alike (sides : Sides) : sides.named.Alike sides := by
  obtain ⟨generic, left, right⟩ := sides
  constructor <;> cases generic <;> cases left <;> cases right <;> rfl

namespace ModifierGroup

/-- The words for the group where these sides of it are held. -/
def wordsFor (group : ModifierGroup) (sides : Sides) : List Text :=
  if sides.isSided then
    (if sides.left then [group.leftWord] else []) ++
      (if sides.right then [group.rightWord] else [])
  else if sides.generic then
    [group.word]
  else
    []

def sidesOf (group : ModifierGroup) (isSet : Nat → Bool) : Sides where
  generic := isSet group.genericBit
  left := group.sideBits?.any fun bits => isSet bits.1
  right := group.sideBits?.any fun bits => isSet bits.2

theorem sidesOf_congr {first second : Nat → Bool} (group : ModifierGroup)
    (hbits : ∀ bit ∈ group.bits, first bit = second bit) :
    group.sidesOf first = group.sidesOf second := by
  cases hsides : group.sideBits? <;> simp_all [bits, sidesOf]

/-- The bits of the words for a group are read as what the words name. -/
theorem sidesOf_wordsFor (group : ModifierGroup) : ∀ sides : Sides,
    (sides.isSided = true → group.isPaired = true) →
      group.sidesOf ((group.wordsFor sides).filterMap MetaState.bitNamed?).contains =
        sides.named := by
  cases group <;> decide +kernel

/-- The keys that account for these sides of the group. -/
def keysFor (group : ModifierGroup) (sides : Sides) : List KeyCode :=
  if group.isPaired && sides.isSided then
    (group.keys.zip [sides.left, sides.right]).filterMap fun (code, set) =>
      if set then some code else none
  else if sides.isEmpty then
    []
  else
    group.keys.take 1

theorem keysFor_congr {first second : Sides} (group : ModifierGroup)
    (halike : first.Alike second) : group.keysFor first = group.keysFor second := by
  simp only [keysFor, Sides.isSided, halike.isEmpty, halike.left, halike.right]

theorem exists_bit_of_mem_words (group : ModifierGroup) : ∀ word ∈ group.words,
    ∃ bit ∈ group.bits, MetaState.bitNamed? word = some bit := by
  cases group <;> decide +kernel

end ModifierGroup

namespace MetaState

variable {state first second : MetaState} {group : ModifierGroup} {bit : Nat}

theorem testBit_restated : state.restated.testBit bit = true ↔
    ∃ group : ModifierGroup, ∃ word ∈ state.groupWords group, bitNamed? word = some bit := by
  simp only [restated, testBit_setBits, testBit_zero, Bool.or_false, List.contains_iff_mem,
    List.mem_filterMap, List.mem_flatMap, ModifierGroup.mem_all, true_and]
  rw [exists_comm]
  simp only [exists_and_right]

theorem testBit_restated_of_mem_bits (hbit : bit ∈ group.bits) :
    state.restated.testBit bit = ((state.groupWords group).filterMap bitNamed?).contains bit := by
  rw [Bool.eq_iff_iff, testBit_restated, List.contains_iff_mem, List.mem_filterMap]
  constructor
  · rintro ⟨other, word, hword, hnamed⟩
    obtain ⟨own, hown, hownNamed⟩ :=
      other.exists_bit_of_mem_words word ((groupWords_sublist state other).subset hword)
    obtain rfl := Option.some.inj (hownNamed.symm.trans hnamed)
    obtain rfl := ModifierGroup.eq_of_mem_bits hown hbit
    exact ⟨word, hword, hnamed⟩
  · exact fun ⟨word, hword, hnamed⟩ => ⟨group, word, hword, hnamed⟩

theorem sides_restated (state : MetaState) (group : ModifierGroup) :
    group.sides state.restated = (group.sides state).named :=
  calc group.sides state.restated
    _ = group.sidesOf ((state.groupWords group).filterMap bitNamed?).contains :=
      group.sidesOf_congr fun _ hbit => testBit_restated_of_mem_bits hbit
    _ = (group.sides state).named := group.sidesOf_wordsFor _ isPaired_of_isSided

theorem sides_restated_alike (state : MetaState) (group : ModifierGroup) :
    (group.sides state.restated).Alike (group.sides state) := by
  rw [sides_restated]
  exact Sides.named_alike _

theorem ofModifiers_restated (state : MetaState) : state.restated.OfModifiers :=
  ofModifiers_of_parse (parse_format state)

/-- To every mask the restated state is like the state. -/
theorem compatible_restated (mask state : MetaState) :
    mask.compatible state.restated = mask.compatible state := by
  simp only [compatible, ModifierGroup.compatible_eq_admits,
    (sides_restated_alike state _).admits_eq]

theorem format_restated (state : MetaState) : state.restated.format = state.format := by
  have hnamed (group : ModifierGroup) (sides : Sides) :
      group.wordsFor sides.named = group.wordsFor sides := by
    obtain ⟨generic, left, right⟩ := sides
    cases generic <;> cases left <;> cases right <;> rfl
  have hwords (group : ModifierGroup) :
      state.restated.groupWords group = state.groupWords group := by
    change group.wordsFor (group.sides state.restated) = group.wordsFor (group.sides state)
    rw [sides_restated, hnamed]
  rw [format, funext hwords, ← format]

/-! The keys and the locks that account for a state depend on no more than the masks do. -/

theorem heldKeys_congr (halike : ∀ group ∈ ModifierGroup.ephemeral,
    (group.sides first).Alike (group.sides second)) : first.heldKeys = second.heldKeys :=
  List.flatMap_congr fun group hgroup => group.keysFor_congr (halike group hgroup)

theorem lockBits_congr (hbits : ∀ group : ModifierGroup, group.isLock = true →
    first.testBit group.genericBit = second.testBit group.genericBit) :
    first.lockBits = second.lockBits := by
  refine congrArg (setBits 0) (List.filter_congr fun bit hbit => ?_)
  obtain ⟨group, hgroup, rfl⟩ := List.mem_map.mp hbit
  exact hbits group (ModifierGroup.mem_locks.mp hgroup)

theorem heldKeys_restated (state : MetaState) : state.restated.heldKeys = state.heldKeys :=
  heldKeys_congr fun group _ => sides_restated_alike state group

theorem lockBits_restated (state : MetaState) : state.restated.lockBits = state.lockBits := by
  refine lockBits_congr fun group hlock => ?_
  have hsided : (group.sides state).isSided = false :=
    Bool.eq_false_iff.mpr fun hsided => by
      have hpaired := isPaired_of_isSided hsided
      cases group <;> contradiction
  have hgeneric := congrArg Sides.generic (sides_restated state group)
  rwa [Sides.named, hsided, Bool.not_false, Bool.and_true] at hgeneric

end MetaState

end KeyLayout
