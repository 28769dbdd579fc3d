import KeyLayout.Files.Tree
import KeyLayout.Proofs.Outcome

namespace KeyLayout.FileTree

/-! A file that is written is found where it was written. -/

variable {tree saved : FileTree} {place target last : Place} {node : FileNode} {path : Path}
  {bytes : List UInt8} {parts : List Text}

theorem node?_put_self (tree : FileTree) (target : Place) (node : FileNode) :
    (tree.put target node).node? target = some node := by
  simp [node?, put]

theorem lookup_filter_ne {entries : List (Place × FileNode)} (hne : place ≠ target) :
    (entries.filter (·.1 ≠ target)).lookup place = entries.lookup place := by
  induction entries with
  | nil => rfl
  | cons entry rest ih =>
      by_cases hentry : entry.1 = target
      · have hother : (place == entry.1) = false := beq_false_of_ne (hentry ▸ hne)
        rw [List.filter_cons_of_neg (by simpa using hentry), ih, List.lookup_cons, hother]
      · rw [List.filter_cons_of_pos (by simpa using hentry), List.lookup_cons, List.lookup_cons, ih]

theorem lookup_put (hne : place ≠ target) :
    (tree.put target node).entries.lookup place = tree.entries.lookup place := by
  have hother : (place == target) = false := beq_false_of_ne hne
  rw [put, List.lookup_cons, hother]
  exact lookup_filter_ne hne

/-- What leads to an entry leads to it, or to the one instead of it, afterwards. -/
theorem any_put (hany : tree.entries.any (place.isPrefixOf ·.1) = true) :
    (tree.put target node).entries.any (place.isPrefixOf ·.1) = true := by
  obtain ⟨entry, hentry, hprefix⟩ := List.any_eq_true.mp hany
  rw [List.any_eq_true]
  by_cases heq : entry.1 = target
  · exact ⟨(target, node), List.mem_cons_self .., heq ▸ hprefix⟩
  · exact ⟨entry, List.mem_cons_of_mem _ (List.mem_filter.mpr ⟨hentry, by simpa using heq⟩),
      hprefix⟩

theorem node?_put_of_directory (hne : place ≠ target)
    (hdirectory : tree.node? place = some .directory) :
    (tree.put target node).node? place = some .directory := by
  rw [node?] at hdirectory ⊢
  rw [lookup_put hne]
  split at hdirectory
  next => exact hdirectory
  next =>
    split at hdirectory
    next hwithin => exact if_pos (hwithin.imp_right (Or.imp_right any_put))
    next => contradiction

theorem walk_put (hwalk : tree.walk place parts = .ok last)
    (htarget : tree.node? target ≠ some .directory) :
    (tree.put target node).walk place parts = .ok last := by
  induction parts generalizing place with
  | nil => exact hwalk
  | cons part rest ih =>
      rw [walk] at hwalk ⊢
      split at hwalk
      next => contradiction
      next => contradiction
      next hdirectory =>
        have hne : place ≠ target := fun heq => htarget (heq ▸ hdirectory)
        rw [node?_put_of_directory hne hdirectory]
        split at hwalk
        next => contradiction
        next hshort =>
          dsimp only
          rw [if_neg hshort]
          exact ih hwalk

/-- Whatever a change of the tree leaves of the way to the path, the path leads there. -/
theorem locate_of_walk (hlocate : tree.locate path = .ok place)
    (hwalk : tree.walk (Place.ofRoot path.root) path.parts = .ok place →
      saved.walk (Place.ofRoot path.root) path.parts = .ok place) :
    saved.locate path = .ok place := by
  rw [locate] at hlocate ⊢
  split at hlocate
  next => contradiction
  next bytes hencode =>
    split at hlocate
    next => contradiction
    next hnull =>
      rw [if_neg hnull]
      split at hlocate
      next => contradiction
      next hshort =>
        rw [if_neg hshort]
        exact mapError_eq_ok_iff.mpr (hwalk (mapError_eq_ok_iff.mp hlocate))

theorem write_eq_ok_iff :
    tree.write path bytes = .ok saved ↔
      ∃ place, tree.locate path = .ok place ∧ tree.node? place ≠ some .directory ∧
        saved = tree.put place (.file bytes) := by
  rw [write]
  cases tree.locate path with
  | error error => exact iff_of_false (fun heq => nomatch heq) (by simp)
  | ok place =>
      dsimp only
      split
      next hdirectory => simp [hdirectory]
      next hfile =>
        constructor
        · intro heq
          cases heq
          exact ⟨place, rfl, hfile, rfl⟩
        · intro hplace
          obtain ⟨own, heq, -, rfl⟩ := hplace
          cases heq
          rfl

theorem status_of_write (hwrite : tree.write path bytes = .ok saved) :
    saved.status path = .file bytes := by
  obtain ⟨place, hlocate, htarget, rfl⟩ := write_eq_ok_iff.mp hwrite
  have hsame : (tree.put place (.file bytes)).locate path = .ok place :=
    locate_of_walk hlocate fun hwalk => walk_put hwalk htarget
  rw [status, hsame]
  dsimp only
  rw [node?_put_self]

/-- What is a file can be written over. -/
theorem exists_write {old : List UInt8} (hfile : tree.status path = .file old)
    (bytes : List UInt8) : ∃ saved, tree.write path bytes = .ok saved := by
  rw [status] at hfile
  split at hfile
  next => contradiction
  next => contradiction
  next place hlocate =>
    refine ⟨_, write_eq_ok_iff.mpr ⟨place, hlocate, fun hdirectory => ?_, rfl⟩⟩
    rw [hdirectory] at hfile
    contradiction

end KeyLayout.FileTree
