import KeyLayout.Text.CodePoint
import Mathlib.Data.List.Basic

namespace KeyLayout.Text

/-! Joining parts and splitting a text at a mark undo one another. -/

variable {text part rest : Text} {parts : List Text} {mark : CodePoint}

theorem joinWith_singleton (between part : Text) : joinWith between [part] = part := by
  simp [joinWith]

theorem joinWith_cons_cons (between part next : Text) (parts : List Text) :
    joinWith between (part :: next :: parts) =
      part ++ (between ++ joinWith between (next :: parts)) := by
  simp [joinWith]

/-- What holds of every code point of the parts and of what is between them. -/
theorem forall_mem_joinWith {holds : CodePoint → Prop} {between : Text}
    (hbetween : ∀ point ∈ between, holds point)
    (hparts : ∀ part ∈ parts, ∀ point ∈ part, holds point) :
    ∀ point ∈ joinWith between parts, holds point := by
  induction parts with
  | nil => exact List.forall_mem_nil _
  | cons part others ih =>
      obtain ⟨hpart, hothers⟩ := List.forall_mem_cons.mp hparts
      cases others with
      | nil => rwa [joinWith_singleton]
      | cons next others =>
          rw [joinWith_cons_cons]
          exact List.forall_mem_append.mpr
            ⟨hpart, List.forall_mem_append.mpr ⟨hbetween, ih hothers⟩⟩

theorem splitOn_ne_nil (mark : CodePoint) (text : Text) : splitOn mark text ≠ [] := by
  cases text with
  | nil => exact List.cons_ne_nil _ _
  | cons point rest =>
      rw [splitOn]
      split
      next => exact List.cons_ne_nil _ _
      split
      next => exact List.cons_ne_nil _ _
      next => exact List.cons_ne_nil _ _

theorem exists_splitOn_cons {point : CodePoint} (hpoint : point ≠ mark) (rest : Text) :
    ∃ part parts, splitOn mark rest = part :: parts ∧
      splitOn mark (point :: rest) = (point :: part) :: parts := by
  obtain ⟨part, parts, hparts⟩ := List.exists_cons_of_ne_nil (splitOn_ne_nil mark rest)
  refine ⟨part, parts, hparts, ?_⟩
  rw [splitOn, if_neg hpoint, hparts]

theorem splitOn_of_not_mem (hpart : mark ∉ part) : splitOn mark part = [part] := by
  induction part with
  | nil => rfl
  | cons point rest ih =>
      obtain ⟨hpoint, hrest⟩ := not_or.mp (mt List.mem_cons.mpr hpart)
      obtain ⟨first, others, hsplit, hwhole⟩ := exists_splitOn_cons (Ne.symm hpoint) rest
      rw [ih hrest] at hsplit
      cases hsplit
      exact hwhole

theorem splitOn_append (hpart : mark ∉ part) (rest : Text) :
    splitOn mark (part ++ mark :: rest) = part :: splitOn mark rest := by
  induction part with
  | nil => rw [List.nil_append, splitOn, if_pos rfl]
  | cons point tail ih =>
      obtain ⟨hpoint, htail⟩ := not_or.mp (mt List.mem_cons.mpr hpart)
      obtain ⟨first, others, hsplit, hwhole⟩ :=
        exists_splitOn_cons (Ne.symm hpoint) (tail ++ mark :: rest)
      rw [ih htail] at hsplit
      cases hsplit
      exact hwhole

theorem splitOn_joinWith (hparts : ∀ part ∈ parts, mark ∉ part) (hsome : parts ≠ []) :
    splitOn mark (joinWith [mark] parts) = parts := by
  induction parts with
  | nil => contradiction
  | cons part others ih =>
      obtain ⟨hpart, hothers⟩ := List.forall_mem_cons.mp hparts
      cases others with
      | nil => rw [joinWith_singleton, splitOn_of_not_mem hpart]
      | cons next others =>
          rw [joinWith_cons_cons, List.singleton_append, splitOn_append hpart,
            ih hothers (List.cons_ne_nil _ _)]

theorem joinWith_splitOn (mark : CodePoint) (text : Text) :
    joinWith [mark] (splitOn mark text) = text := by
  induction text with
  | nil => rfl
  | cons point rest ih =>
      by_cases hpoint : point = mark
      · obtain ⟨part, parts, hparts⟩ := List.exists_cons_of_ne_nil (splitOn_ne_nil mark rest)
        rw [splitOn, if_pos hpoint, hparts, joinWith_cons_cons, ← hparts, ih, hpoint]
        rfl
      · obtain ⟨part, parts, hparts, hwhole⟩ := exists_splitOn_cons hpoint rest
        rw [hparts] at ih
        rw [hwhole]
        cases parts with
        | nil =>
            rw [joinWith_singleton] at ih ⊢
            rw [ih]
        | cons next others =>
            rw [joinWith_cons_cons] at ih ⊢
            rw [List.cons_append, ih]

theorem not_mem_of_mem_splitOn (hpart : part ∈ splitOn mark text) : mark ∉ part := by
  induction text generalizing part with
  | nil =>
      rw [List.mem_singleton.mp hpart]
      exact List.not_mem_nil
  | cons point rest ih =>
      by_cases hpoint : point = mark
      · rw [splitOn, if_pos hpoint] at hpart
        rcases List.mem_cons.mp hpart with rfl | hrest
        · exact List.not_mem_nil
        · exact ih hrest
      · obtain ⟨first, others, hsplit, hwhole⟩ := exists_splitOn_cons hpoint rest
        rw [hwhole] at hpart
        rcases List.mem_cons.mp hpart with rfl | hothers
        · have hfirst : mark ∉ first := ih (hsplit ▸ List.mem_cons_self ..)
          exact fun hmem => (List.mem_cons.mp hmem).elim (fun heq => hpoint heq.symm) hfirst
        · exact ih (hsplit ▸ List.mem_cons_of_mem _ hothers)

end KeyLayout.Text
