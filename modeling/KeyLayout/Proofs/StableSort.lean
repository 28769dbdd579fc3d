import Mathlib.Data.List.Basic
import Mathlib.Data.List.Find
import Mathlib.Data.Prod.Lex
import Mathlib.Order.Defs.LinearOrder

namespace KeyLayout.StableSort

/-! Sorting by rank.  A sorted list is determined by its classes, the sublists of equal
rank, and a stable sort leaves every class as it was. -/

variable {α β : Type} [LinearOrder β] (rank : α → β)

def byRank (first second : α) : Bool :=
  decide (rank first ≤ rank second)

theorem byRank_trans (first second third : α) (hfirst : byRank rank first second)
    (hsecond : byRank rank second third) : byRank rank first third := by
  simp only [byRank, decide_eq_true_eq] at hfirst hsecond ⊢
  exact le_trans hfirst hsecond

theorem byRank_total (first second : α) :
    (byRank rank first second || byRank rank second first) = true := by
  simp only [byRank, Bool.or_eq_true, decide_eq_true_eq]
  exact le_total _ _

/-- The elements of one rank, in their order. -/
def rankClass (value : β) (elements : List α) : List α :=
  elements.filter (rank · = value)

@[simp] theorem rankClass_append (value : β) (first second : List α) :
    rankClass rank value (first ++ second) =
      rankClass rank value first ++ rankClass rank value second :=
  List.filter_append ..

theorem mem_rankClass {value : β} {elements : List α} {element : α} :
    element ∈ rankClass rank value elements ↔ element ∈ elements ∧ rank element = value := by
  simp [rankClass]

theorem pairwise_mergeSort (elements : List α) :
    (elements.mergeSort (byRank rank)).Pairwise fun first second =>
      rank first ≤ rank second := by
  have hsorted := List.pairwise_mergeSort (byRank_trans rank) (byRank_total rank) elements
  simpa [byRank] using hsorted

theorem rankClass_mergeSort (value : β) (elements : List α) :
    rankClass rank value (elements.mergeSort (byRank rank)) =
      rankClass rank value elements := by
  have hperm := List.mergeSort_perm elements (byRank rank)
  have hsublist : (rankClass rank value elements).Sublist
      (elements.mergeSort (byRank rank)) := by
    apply List.sublist_mergeSort (byRank_trans rank) (byRank_total rank)
    · -- elements of one rank are sorted in any order
      rw [List.pairwise_iff_forall_sublist]
      intro first second hpair
      have hfirst : first ∈ rankClass rank value elements := hpair.subset (by simp)
      have hsecond : second ∈ rankClass rank value elements := hpair.subset (by simp)
      rw [mem_rankClass] at hfirst hsecond
      simp [byRank, hfirst.2, hsecond.2]
    · exact List.filter_sublist
  have hclass : (rankClass rank value elements).Sublist
      (rankClass rank value (elements.mergeSort (byRank rank))) := by
    have hfiltered := hsublist.filter fun element => decide (rank element = value)
    simpa [rankClass] using hfiltered
  exact (hclass.eq_of_length (hperm.filter _).length_eq.symm).symm

/-- Elements of equal rank stay in their order. -/
theorem pairwise_mergeSort_of_pairwise {elements : List α} {holds : α → α → Prop}
    (hholds : elements.Pairwise holds) :
    (elements.mergeSort (byRank rank)).Pairwise fun first second =>
      rank first < rank second ∨ rank first = rank second ∧ holds first second := by
  refine List.pairwise_iff_forall_sublist.mpr fun {first second} hpair => ?_
  have hle : rank first ≤ rank second :=
    List.pairwise_iff_forall_sublist.mp (pairwise_mergeSort rank elements) hpair
  rcases hle.lt_or_eq with hlt | heq
  · exact .inl hlt
  · have hclass : [first, second].Sublist (rankClass rank (rank first) elements) := by
      rw [← rankClass_mergeSort]
      have hown := hpair.filter fun element => decide (rank element = rank first)
      simpa [rankClass, heq] using hown
    exact .inr ⟨heq, List.pairwise_iff_forall_sublist.mp hholds
      (hclass.trans List.filter_sublist)⟩

/-- The head of a sorted list has the least rank of all elements. -/
private theorem rank_head_le {head element : α} {tail : List α}
    (hsorted : (head :: tail).Pairwise fun first second => rank first ≤ rank second)
    (hmem : element ∈ head :: tail) : rank head ≤ rank element := by
  rcases List.mem_cons.mp hmem with rfl | htail
  · exact le_refl _
  · exact (List.pairwise_cons.mp hsorted).1 element htail

theorem eq_of_rankClass_eq {first second : List α}
    (hfirst : first.Pairwise fun left right => rank left ≤ rank right)
    (hsecond : second.Pairwise fun left right => rank left ≤ rank right)
    (hclass : ∀ value, rankClass rank value first = rankClass rank value second) :
    first = second := by
  have hmem : ∀ element, element ∈ first ↔ element ∈ second := by
    intro element
    have hiff := congrArg (element ∈ ·) (hclass (rank element))
    simpa [mem_rankClass] using hiff
  induction first generalizing second with
  | nil =>
      cases second with
      | nil => rfl
      | cons head tail => simpa using hmem head
  | cons head tail ih =>
      cases second with
      | nil => simpa using hmem head
      | cons other rest =>
          have hrank : rank head = rank other := le_antisymm
            (rank_head_le rank hfirst ((hmem other).mpr (List.mem_cons_self ..)))
            (rank_head_le rank hsecond ((hmem head).mp (List.mem_cons_self ..)))
          have hheads : head = other := by
            have hown := hclass (rank head)
            simp only [rankClass, List.filter_cons, hrank, decide_true, if_true] at hown
            exact (List.cons.inj hown).1
          subst other
          have htails : ∀ value, rankClass rank value tail = rankClass rank value rest := by
            intro value
            have hvalue := hclass value
            by_cases heq : rank head = value <;>
              simpa [rankClass, List.filter_cons, heq] using hvalue
          congr 1
          refine ih (List.pairwise_cons.mp hfirst).2 (List.pairwise_cons.mp hsecond).2
            htails fun element => ?_
          have hiff := congrArg (element ∈ ·) (htails (rank element))
          simpa [mem_rankClass] using hiff

/-- A sorted list with the classes of another is what sorting makes of it. -/
theorem eq_mergeSort {sorted elements : List α}
    (hsorted : sorted.Pairwise fun first second => rank first ≤ rank second)
    (hclass : ∀ value, rankClass rank value sorted = rankClass rank value elements) :
    sorted = elements.mergeSort (byRank rank) :=
  eq_of_rankClass_eq rank hsorted (pairwise_mergeSort rank elements) fun value =>
    (hclass value).trans (rankClass_mergeSort rank value elements).symm

/-- What is found in a list is found among those of its rank. -/
theorem find?_rankClass {does : α → Bool} {elements : List α} {found : α}
    (hfind : elements.find? does = some found) :
    (rankClass rank (rank found) elements).find? does = some found := by
  obtain ⟨hdoes, ahead, behind, rfl, hahead⟩ := List.find?_eq_some_iff_append.mp hfind
  rw [rankClass_append, List.find?_eq_some_iff_append]
  refine ⟨hdoes, rankClass rank (rank found) ahead, rankClass rank (rank found) behind, ?_,
    fun other hother => hahead other ((mem_rankClass rank).mp hother).1⟩
  simp [rankClass]

theorem rank_le_of_find?_mergeSort {does : α → Bool} {elements : List α} {found other : α}
    (hfind : (elements.mergeSort (byRank rank)).find? does = some found)
    (hother : other ∈ elements) (hdone : does other = true) : rank found ≤ rank other := by
  obtain ⟨-, ahead, behind, heq, hahead⟩ := List.find?_eq_some_iff_append.mp hfind
  have hsorted := pairwise_mergeSort rank elements
  have hin : other ∈ elements.mergeSort (byRank rank) := List.mem_mergeSort.mpr hother
  rw [heq, List.pairwise_append] at hsorted
  rw [heq, List.mem_append] at hin
  rcases hin with hin | hin
  · have hnot := hahead other hin
    rw [hdone] at hnot
    contradiction
  · exact rank_head_le rank hsorted.2.1 hin

/-- What is found in a sorted list is the first of the least rank among all that would do. -/
theorem find?_mergeSort (does : α → Bool) (elements : List α) :
    (elements.mergeSort (byRank rank)).find? does =
      elements.find? fun element => does element &&
        decide (∀ other ∈ elements, does other = true → rank element ≤ rank other) := by
  cases hfind : (elements.mergeSort (byRank rank)).find? does with
  | none =>
      rw [eq_comm, List.find?_eq_none]
      rw [List.find?_eq_none] at hfind
      intro element hmem hfound
      exact hfind element (List.mem_mergeSort.mpr hmem) (Bool.and_eq_true_iff.mp hfound).1
  | some found =>
      have hmem : found ∈ elements := List.mem_mergeSort.mp (List.mem_of_find?_eq_some hfind)
      have hdoes : does found = true := List.find?_some hfind
      -- the first that does in the class of the one found, which sorting leaves as it was
      rw [← find?_rankClass rank hfind, rankClass_mergeSort, rankClass, List.find?_filter]
      refine List.find?_congr fun element helement => ?_
      rw [Bool.eq_iff_iff]
      simp only [decide_eq_true_eq, Bool.and_eq_true]
      constructor
      · rintro ⟨hrank, hdone⟩
        refine ⟨hdone, fun other hother hown => ?_⟩
        rw [hrank]
        exact rank_le_of_find?_mergeSort rank hfind hother hown
      · rintro ⟨hdone, hall⟩
        exact ⟨le_antisymm (hall found hmem hdoes)
          (rank_le_of_find?_mergeSort rank hfind helement hdone), hdone⟩

/-- Elements that are preferred come first, and otherwise the rank decides. -/
def preferring (prefers : α → Bool) (element : α) : ℕ ×ₗ β :=
  toLex (if prefers element then 0 else 1, rank element)

theorem rankClass_preferring (prefers : α → Bool) (place : ℕ) (value : β)
    (elements : List α) :
    rankClass (preferring rank prefers) (toLex (place, value)) elements =
      (rankClass rank value elements).filter
        fun element => (if prefers element then 0 else 1) = place := by
  simp only [rankClass, preferring, List.filter_filter, toLex_inj, Prod.mk.injEq,
    Bool.decide_and]

theorem rankClass_filter (keeps : α → Bool) (value : β) (elements : List α) :
    rankClass rank value (elements.filter keeps) =
      (rankClass rank value elements).filter keeps := by
  simp only [rankClass, List.filter_filter, Bool.and_comm]

theorem mergeSort_preferring (prefers : α → Bool) (elements : List α) :
    elements.mergeSort (byRank (preferring rank prefers)) =
      (elements.mergeSort (byRank rank)).filter prefers ++
        (elements.mergeSort (byRank rank)).filter (!prefers ·) := by
  refine (eq_mergeSort _ ?_ fun value => ?_).symm
  · rw [List.pairwise_append]
    have hsorted := pairwise_mergeSort rank elements
    refine ⟨?_, ?_, fun first hfirst second hsecond => ?_⟩
    · refine (hsorted.filter _).imp_of_mem fun {first second} hfirst hsecond hle => ?_
      simp only [List.mem_filter] at hfirst hsecond
      simp [preferring, Prod.Lex.toLex_le_toLex, hfirst.2, hsecond.2, hle]
    · refine (hsorted.filter _).imp_of_mem fun {first second} hfirst hsecond hle => ?_
      simp only [List.mem_filter, Bool.not_eq_true'] at hfirst hsecond
      simp [preferring, Prod.Lex.toLex_le_toLex, hfirst.2, hsecond.2, hle]
    · simp only [List.mem_filter, Bool.not_eq_true'] at hfirst hsecond
      simp [preferring, Prod.Lex.toLex_le_toLex, hfirst.2, hsecond.2]
  · obtain ⟨place, own⟩ := value
    change rankClass _ (toLex (place, own)) _ = rankClass _ (toLex (place, own)) _
    rw [rankClass_append]
    simp only [rankClass_preferring, rankClass_filter, rankClass_mergeSort, List.filter_filter]
    generalize rankClass rank own elements = others
    -- the two parts are the elements in the first and in the second place
    cases place with
    | zero =>
        have hnone : others.filter (fun element =>
            !prefers element && decide ((if prefers element then 0 else 1) = 0)) = [] := by
          refine List.filter_eq_nil_iff.mpr fun element _ => ?_
          cases prefers element <;> simp
        rw [hnone, List.append_nil]
        refine List.filter_congr fun element _ => ?_
        cases prefers element <;> simp
    | succ place =>
        have hnone : others.filter (fun element =>
            prefers element && decide ((if prefers element then 0 else 1) = place + 1)) =
              [] := by
          refine List.filter_eq_nil_iff.mpr fun element _ => ?_
          cases prefers element <;> simp
        rw [hnone, List.nil_append]
        refine List.filter_congr fun element _ => ?_
        cases prefers element <;> simp

end KeyLayout.StableSort
