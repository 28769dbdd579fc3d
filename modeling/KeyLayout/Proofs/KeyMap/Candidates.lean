import KeyLayout.KeyMap.Reverse
import KeyLayout.Proofs.KeyMap.Lookup
import KeyLayout.Proofs.Modifier.Held
import KeyLayout.Proofs.StableSort
import KeyLayout.Proofs.Table
import Mathlib.Data.List.Flatten

namespace KeyLayout

/-! The candidates for some characters are the behaviors that produce one of them, each
once and in a strict order, or else the keys that are labelled with one of them. -/

/-- A behavior with its key and its place among the behaviors of the key. -/
structure Occurrence where
  code : KeyCode
  place : Nat
  behavior : Behavior

namespace Occurrence

variable {occurrence first second : Occurrence} {map : KeyMap} {characters : List CodePoint}
  {locks : Option MetaState} {preferred : MetaState}

def candidate (occurrence : Occurrence) : Candidate :=
  ⟨occurrence.code, occurrence.behavior.mask⟩

/-- The map has the behavior in this place. -/
def In (occurrence : Occurrence) (map : KeyMap) : Prop :=
  ∃ key, map.keys.get? occurrence.code = some key ∧
    key.behaviors[occurrence.place]? = some occurrence.behavior

/-- The behavior produces one of the characters and, if there are locks to agree with,
agrees with them on every group of locks. -/
structure Answers (occurrence : Occurrence) (characters : List CodePoint)
    (locks : Option MetaState) : Prop where
  produces : ∃ character ∈ characters, occurrence.behavior.character = some character
  agrees : ∀ state, locks = some state → ∀ group ∈ ModifierGroup.locks,
    group.compatible occurrence.behavior.mask state = true

def isAnswer (characters : List CodePoint) (locks : Option MetaState)
    (occurrence : Occurrence) : Bool :=
  occurrence.behavior.character.any characters.contains &&
    locks.all occurrence.behavior.mask.locksCompatible

theorem isAnswer_iff :
    occurrence.isAnswer characters locks = true ↔ occurrence.Answers characters locks := by
  rw [isAnswer, Bool.and_eq_true, Behavior.any_character_eq_true_iff, Option.all_eq_true]
  simp only [MetaState.locksCompatible, List.all_eq_true]
  exact ⟨fun ⟨hproduces, hagrees⟩ => ⟨hproduces, hagrees⟩,
    fun ⟨hproduces, hagrees⟩ => ⟨hproduces, hagrees⟩⟩

/-- What is compared first, second, third and last. -/
def rank (preferred : MetaState) (occurrence : Occurrence) : ℕ ×ₗ ℕ ×ₗ KeyCode ×ₗ ℕ :=
  toLex (if occurrence.behavior.mask = preferred then 0 else 1,
    toLex (occurrence.behavior.mask.bitCount, toLex (occurrence.code, occurrence.place)))

end Occurrence

namespace Candidate

/-- The mask that is preferred, and then the number of bits. -/
def rank (preferred : MetaState) : Candidate → ℕ ×ₗ ℕ :=
  StableSort.preferring (fun candidate => candidate.mask.bitCount)
    fun candidate => candidate.mask = preferred

theorem precedes_eq_byRank (preferred : MetaState) :
    precedes preferred = StableSort.byRank (rank preferred) := by
  funext first second
  rw [Bool.eq_iff_iff]
  simp [precedes, StableSort.byRank, rank, StableSort.preferring, Prod.Lex.toLex_le_toLex]

end Candidate

theorem Occurrence.rank_candidate (preferred : MetaState) (occurrence : Occurrence) :
    occurrence.candidate.rank preferred =
      toLex (if occurrence.behavior.mask = preferred then 0 else 1,
        occurrence.behavior.mask.bitCount) := by
  simp only [Candidate.rank, StableSort.preferring, decide_eq_true_eq]
  rfl

/-- Behaviors with candidates of the same rank are told apart by their keys and places. -/
theorem Occurrence.rank_lt_rank_iff (preferred : MetaState) (first second : Occurrence) :
    first.rank preferred < second.rank preferred ↔
      first.candidate.rank preferred < second.candidate.rank preferred ∨
        first.candidate.rank preferred = second.candidate.rank preferred ∧
          toLex (first.code, first.place) < toLex (second.code, second.place) := by
  simp only [rank, rank_candidate, Prod.Lex.toLex_lt_toLex, toLex_inj, Prod.mk.injEq]
  tauto

namespace KeyMap

variable {map : KeyMap} {characters : List CodePoint} {locks : Option MetaState}
  {preferred : MetaState} {occurrence : Occurrence}

/-- All behaviors, in ascending order of their keys. -/
def occurrences (map : KeyMap) : List Occurrence :=
  map.ascendingKeys.flatMap fun (code, key) =>
    key.behaviors.zipIdx.map fun (behavior, place) => ⟨code, place, behavior⟩

theorem mem_occurrences_iff : occurrence ∈ map.occurrences ↔ occurrence.In map := by
  obtain ⟨code, place, behavior⟩ := occurrence
  simp only [occurrences, ascendingKeys, List.mem_flatMap, List.mem_map, Prod.exists,
    Table.mem_ascending_iff, List.mem_zipIdx_iff_getElem?, Occurrence.mk.injEq, Occurrence.In]
  constructor
  · rintro ⟨own, key, hkey, _, _, hplace, rfl, rfl, rfl⟩
    exact ⟨key, hkey, hplace⟩
  · rintro ⟨key, hkey, hplace⟩
    exact ⟨code, key, hkey, behavior, place, hplace, rfl, rfl, rfl⟩

theorem pairwise_occurrences (map : KeyMap) :
    map.occurrences.Pairwise fun first second =>
      toLex (first.code, first.place) < toLex (second.code, second.place) := by
  rw [occurrences, List.pairwise_flatMap]
  constructor
  · rintro ⟨code, key⟩ -
    have hplaces : key.behaviors.zipIdx.Pairwise fun first second => first.2 < second.2 := by
      rw [← List.pairwise_map, List.zipIdx_map_snd]
      exact List.pairwise_lt_range'
    rw [List.pairwise_map]
    refine hplaces.imp fun {first second} hlt => ?_
    exact Prod.Lex.toLex_lt_toLex.mpr (.inr ⟨rfl, hlt⟩)
  · refine (Table.pairwise_ascending map.keys).imp fun {first second} hlt => ?_
    intro own hown other hother
    obtain ⟨_, -, rfl⟩ := List.mem_map.mp hown
    obtain ⟨_, -, rfl⟩ := List.mem_map.mp hother
    exact Prod.Lex.toLex_lt_toLex.mpr (.inl hlt)

theorem producers_eq (map : KeyMap) (characters : List CodePoint) (locks : Option MetaState) :
    map.producers characters locks =
      (map.occurrences.filter (·.isAnswer characters locks)).map Occurrence.candidate := by
  rw [producers, occurrences, List.filter_flatMap, List.map_flatMap]
  refine List.flatMap_congr fun (code, key) _ => ?_
  dsimp only
  have hbehaviors : key.behaviors = key.behaviors.zipIdx.map Prod.fst :=
    (List.zipIdx_map_fst 0 key.behaviors).symm
  conv_lhs => rw [hbehaviors]
  simp only [List.filter_map, List.map_map]
  rfl

/-- The behaviors that answer, sorted as their candidates are. -/
def answers (map : KeyMap) (characters : List CodePoint) (locks : Option MetaState)
    (preferred : MetaState) : List Occurrence :=
  (map.occurrences.filter (·.isAnswer characters locks)).mergeSort fun first second =>
    first.candidate.precedes preferred second.candidate

theorem mem_answers_iff :
    occurrence ∈ map.answers characters locks preferred ↔
      occurrence.In map ∧ occurrence.Answers characters locks := by
  rw [answers, List.mem_mergeSort, List.mem_filter, mem_occurrences_iff, Occurrence.isAnswer_iff]

theorem pairwise_answers (map : KeyMap) (characters : List CodePoint) (locks : Option MetaState)
    (preferred : MetaState) :
    (map.answers characters locks preferred).Pairwise fun first second =>
      first.rank preferred < second.rank preferred := by
  have hpairs := StableSort.pairwise_mergeSort_of_pairwise
    (fun occurrence : Occurrence => occurrence.candidate.rank preferred)
    ((pairwise_occurrences map).filter (·.isAnswer characters locks))
  rw [answers]
  simp only [Candidate.precedes_eq_byRank]
  refine hpairs.imp fun {first second} hrank => ?_
  exact (Occurrence.rank_lt_rank_iff _ _ _).mpr hrank

theorem map_answers (map : KeyMap) (characters : List CodePoint) (locks : Option MetaState)
    (preferred : MetaState) :
    (map.answers characters locks preferred).map Occurrence.candidate =
    (map.producers characters locks).mergeSort (Candidate.precedes preferred) := by
  rw [producers_eq, answers]
  exact List.map_mergeSort fun _ _ _ _ => rfl

theorem reverseMatches_of_answers (preferred : MetaState) (includeLabels : Bool)
    (hanswers : ∃ occurrence : Occurrence, occurrence.In map ∧
      occurrence.Answers characters locks) :
    map.reverseMatches characters preferred locks includeLabels =
      (map.answers characters locks preferred).map Occurrence.candidate := by
  obtain ⟨occurrence, hin, hown⟩ := hanswers
  have hmem : occurrence ∈ map.answers characters locks preferred :=
    mem_answers_iff.mpr ⟨hin, hown⟩
  have hproducer := List.mem_map_of_mem (f := Occurrence.candidate) hmem
  rw [map_answers, List.mem_mergeSort] at hproducer
  rw [map_answers, reverseMatches]
  split
  next hnone =>
    rw [hnone] at hproducer
    contradiction
  next => rfl

theorem reverseMatches_of_no_answer (preferred : MetaState) (includeLabels : Bool)
    (hnone : ¬∃ occurrence : Occurrence, occurrence.In map ∧
      occurrence.Answers characters locks) :
    map.reverseMatches characters preferred locks includeLabels =
      if includeLabels then map.labelled characters else [] := by
  have hempty : map.producers characters locks = [] := by
    rw [producers_eq, List.map_eq_nil_iff, List.filter_eq_nil_iff]
    intro occurrence hoccurrence hanswer
    exact hnone ⟨occurrence, mem_occurrences_iff.mp hoccurrence,
      Occurrence.isAnswer_iff.mp hanswer⟩
  rw [reverseMatches, hempty]

end KeyMap

/-- The label or the number of the key is one of the characters. -/
def Key.Labelled (key : Key) (characters : List CodePoint) : Prop :=
  ∃ character ∈ characters, key.label = some character ∨ key.number = some character

namespace KeyMap

/-- The codes of the keys with such a label or number, if these count. -/
def labelledCodes (map : KeyMap) (characters : List CodePoint) (includeLabels : Bool) :
    List KeyCode :=
  if includeLabels then (map.labelled characters).map Candidate.code else []

variable {map : KeyMap} {characters : List CodePoint} {includeLabels : Bool}

theorem mem_labelledCodes_iff {code : KeyCode} :
    code ∈ map.labelledCodes characters includeLabels ↔
      includeLabels = true ∧ ∃ key, map.keys.get? code = some key ∧ key.Labelled characters := by
  have hlabelled (key : Key) :
      (key.label.any characters.contains || key.number.any characters.contains) = true ↔
        key.Labelled characters := by
    simp only [Bool.or_eq_true, Option.any_eq_true, List.contains_iff_mem, Key.Labelled]
    constructor
    · rintro (⟨character, hown, hmem⟩ | ⟨character, hown, hmem⟩)
      · exact ⟨character, hmem, .inl hown⟩
      · exact ⟨character, hmem, .inr hown⟩
    · rintro ⟨character, hmem, hown | hown⟩
      · exact .inl ⟨character, hown, hmem⟩
      · exact .inr ⟨character, hown, hmem⟩
  cases includeLabels with
  | false => simp [labelledCodes]
  | true =>
      simp [labelledCodes, labelled, ascendingKeys, Table.mem_ascending_iff, hlabelled]

theorem pairwise_labelledCodes (map : KeyMap) (characters : List CodePoint)
    (includeLabels : Bool) :
    (map.labelledCodes characters includeLabels).Pairwise (· < ·) := by
  cases includeLabels with
  | false => exact .nil
  | true =>
      rw [labelledCodes, if_pos rfl, labelled, List.map_map]
      exact List.pairwise_map.mpr ((Table.pairwise_ascending map.keys).filter _)

theorem map_labelledCodes (map : KeyMap) (characters : List CodePoint) (includeLabels : Bool) :
    (map.labelledCodes characters includeLabels).map (Candidate.mk · 0) =
      if includeLabels then map.labelled characters else [] := by
  cases includeLabels with
  | false => rfl
  | true =>
      rw [labelledCodes, if_pos rfl, if_pos rfl, labelled, List.map_map, List.map_map]
      rfl

/-- What a key types is found again among the candidates that agree with the locks. -/
theorem exists_mask_of_character? {code : KeyCode} {state : MetaState} {character : CodePoint}
    (hcharacter : map.character? code state = some character) (preferred : MetaState)
    (includeLabels : Bool) :
    ∃ mask : MetaState, mask.compatible state = true ∧
      ⟨code, mask⟩ ∈
        map.reverseMatches [character] preferred (some state.lockBits) includeLabels := by
  obtain ⟨key, behavior, hkey, hfind, hown⟩ := character?_eq_some_iff.mp hcharacter
  have hmask := compatible_of_find? hfind
  obtain ⟨place, hplace⟩ := List.mem_iff_getElem?.mp (List.mem_of_find?_eq_some hfind)
  have hin : (Occurrence.mk code place behavior).In map := ⟨key, hkey, hplace⟩
  have hanswers : (Occurrence.mk code place behavior).Answers [character]
      (some state.lockBits) := by
    refine ⟨⟨character, List.mem_singleton.mpr rfl, hown⟩, ?_⟩
    intro locks hlocks group hgroup
    cases hlocks
    rw [MetaState.compatible_lockBits _ _ (ModifierGroup.mem_locks.mp hgroup)]
    exact List.all_eq_true.mp hmask group (ModifierGroup.mem_all group)
  refine ⟨behavior.mask, hmask, ?_⟩
  rw [reverseMatches_of_answers preferred includeLabels ⟨_, hin, hanswers⟩]
  exact List.mem_map_of_mem (mem_answers_iff.mpr ⟨hin, hanswers⟩)

/-- The candidates are the behaviors that produce one of the characters and agree with the
locks: each behavior once, in ascending order of their ranks.  Without any they are the keys
with such a label or number in ascending order, if these count.  The best candidate is the
first one, and whatever a key types under a state is found again under its locks with a mask
that answers the state. -/
theorem reverseMatches_characterized (map : KeyMap) (characters : List CodePoint)
    (preferred : MetaState) (locks : Option MetaState) (includeLabels : Bool) :
    ((∃ occurrence : Occurrence, occurrence.In map ∧ occurrence.Answers characters locks) →
      ∃ found : List Occurrence,
        found.Pairwise (fun first second => first.rank preferred < second.rank preferred) ∧
        (∀ occurrence, occurrence ∈ found ↔
          occurrence.In map ∧ occurrence.Answers characters locks) ∧
        map.reverseMatches characters preferred locks includeLabels =
          found.map Occurrence.candidate) ∧
    ((¬∃ occurrence : Occurrence, occurrence.In map ∧ occurrence.Answers characters locks) →
      ∃ codes : List KeyCode, codes.Pairwise (· < ·) ∧
        (∀ code, code ∈ codes ↔ includeLabels = true ∧
          ∃ key, map.keys.get? code = some key ∧ key.Labelled characters) ∧
        map.reverseMatches characters preferred locks includeLabels =
          codes.map (Candidate.mk · 0)) ∧
    map.reverseMatch? characters preferred locks includeLabels =
      (map.reverseMatches characters preferred locks includeLabels).head? ∧
    ∀ code state character, map.character? code state = some character →
      ∃ mask : MetaState, mask.compatible state = true ∧
        ⟨code, mask⟩ ∈
          map.reverseMatches [character] preferred (some state.lockBits) includeLabels := by
  refine ⟨fun hanswers => ?_, fun hnone => ?_, rfl, fun code state character hcharacter => ?_⟩
  · exact ⟨map.answers characters locks preferred, pairwise_answers .., fun _ => mem_answers_iff,
      reverseMatches_of_answers preferred includeLabels hanswers⟩
  · refine ⟨map.labelledCodes characters includeLabels, pairwise_labelledCodes ..,
      fun _ => mem_labelledCodes_iff, ?_⟩
    rw [reverseMatches_of_no_answer preferred includeLabels hnone, map_labelledCodes]
  · exact exists_mask_of_character? hcharacter preferred includeLabels

/-- Two keys that type a one, the first of them only after its other behaviors. -/
def ones : KeyMap where
  name := "ones"
  keys := ⟨[
    (8, {
      number := some (.scalar '1')
      behaviors := [⟨1, some (.scalar '!'), none, none⟩, ⟨0, some (.scalar '1'), none, none⟩] }),
    (7, {
      label := some (.scalar '0')
      behaviors := [⟨0, some (.scalar '1'), none, none⟩] })], by decide⟩

theorem reverseMatches_characterized_ones :
    (∃ occurrence : Occurrence, occurrence.In ones ∧ occurrence.Answers [.scalar '1'] (some 0)) ∧
      (∃ found : List Occurrence,
        found.Pairwise (fun first second => first.rank 1 < second.rank 1) ∧
          ones.reverseMatches [.scalar '1'] 1 (some 0) true = found.map Occurrence.candidate) ∧
      (¬∃ occurrence : Occurrence, occurrence.In ones ∧ occurrence.Answers [.scalar '0'] none) ∧
      (∃ codes : List KeyCode, codes.Pairwise (· < ·) ∧ 7 ∈ codes ∧
        ones.reverseMatches [.scalar '0'] 1 none true = codes.map (Candidate.mk · 0)) ∧
      ones.character? 8 1 = some (.scalar '!') ∧ ∃ mask : MetaState, mask.compatible 1 = true ∧
        ⟨8, mask⟩ ∈ ones.reverseMatches [.scalar '!'] 1 (some (MetaState.lockBits 1)) true := by
  have hanswers : ∃ occurrence : Occurrence,
      occurrence.In ones ∧ occurrence.Answers [.scalar '1'] (some 0) := by
    refine ⟨⟨7, 0, ⟨0, some (.scalar '1'), none, none⟩⟩, ⟨_, rfl, rfl⟩, ?_⟩
    exact Occurrence.isAnswer_iff.mp (by decide)
  have hnone : ¬∃ occurrence : Occurrence,
      occurrence.In ones ∧ occurrence.Answers [.scalar '0'] none := by
    have hall : ∀ entry ∈ ones.keys.entries, ∀ behavior ∈ entry.2.behaviors,
        ∀ character ∈ [CodePoint.scalar '0'], behavior.character ≠ some character := by
      decide
    rintro ⟨occurrence, ⟨key, hkey, hplace⟩, ⟨character, hmem, hown⟩, -⟩
    exact hall (occurrence.code, key) (Table.get?_eq_some_iff.mp hkey) occurrence.behavior
      (List.mem_of_getElem? hplace) character hmem hown
  have hcharacter : ones.character? 8 1 = some (.scalar '!') := by decide
  obtain ⟨hfound, -, -, hback⟩ :=
    reverseMatches_characterized ones [.scalar '1'] 1 (some 0) true
  obtain ⟨-, hcodes, -, -⟩ := reverseMatches_characterized ones [.scalar '0'] 1 none true
  obtain ⟨found, hsorted, -, hmatches⟩ := hfound hanswers
  obtain ⟨codes, hascending, hmem, hlabelled⟩ := hcodes hnone
  exact ⟨hanswers, ⟨found, hsorted, hmatches⟩, hnone,
    ⟨codes, hascending, (hmem 7).mpr ⟨rfl, _, rfl, .scalar '0', by decide, .inl rfl⟩, hlabelled⟩,
    hcharacter, hback 8 1 _ hcharacter⟩

end KeyMap

end KeyLayout
