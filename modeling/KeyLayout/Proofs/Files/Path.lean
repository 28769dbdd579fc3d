import KeyLayout.Files.Path
import KeyLayout.Proofs.Text.Joining

namespace KeyLayout.Path

/-! A path is written as a text that means the same path. -/

variable {path : Path} {parts : List Text} {part text : Text}

/-- The part takes the path one step further. -/
def Leads (part : Text) : Prop :=
  part ≠ [] ∧ part ≠ Text.ofString "." ∧ separator ∉ part

theorem leads_of_mem_ofText (hpart : part ∈ (ofText text).parts) : Leads part := by
  obtain ⟨hsplit, hsays⟩ := List.mem_filter.mp hpart
  obtain ⟨hsome, hdot⟩ := of_decide_eq_true hsays
  exact ⟨hsome, hdot, Text.not_mem_of_mem_splitOn hsplit⟩

theorem filter_splitOn_joinWith (hparts : ∀ part ∈ parts, Leads part) :
    (Text.splitOn separator (Text.joinWith [separator] parts)).filter
      (fun part => decide (part ≠ [] ∧ part ≠ Text.ofString ".")) = parts := by
  cases parts with
  | nil => rfl
  | cons part others =>
      rw [Text.splitOn_joinWith (fun part hpart => (hparts part hpart).2.2)
        (List.cons_ne_nil _ _), List.filter_eq_self]
      exact fun part hpart => decide_eq_true ⟨(hparts part hpart).1, (hparts part hpart).2.1⟩

theorem takeWhile_joinWith (hparts : ∀ part ∈ parts, Leads part) :
    (Text.joinWith [separator] parts).takeWhile (· = separator) = [] := by
  cases parts with
  | nil => rfl
  | cons part others =>
      obtain ⟨hsome, -, hseparator⟩ := hparts part (List.mem_cons_self ..)
      obtain ⟨point, rest, rfl⟩ := List.exists_cons_of_ne_nil hsome
      have hpoint : point ≠ separator := fun heq => hseparator (heq ▸ List.mem_cons_self ..)
      cases others with
      | nil => rw [Text.joinWith_singleton, List.takeWhile_cons_of_neg (by simpa using hpoint)]
      | cons next others =>
          rw [Text.joinWith_cons_cons, List.cons_append,
            List.takeWhile_cons_of_neg (by simpa using hpoint)]

theorem splitOn_separator (rest : Text) :
    Text.splitOn separator (separator :: rest) = [] :: Text.splitOn separator rest :=
  if_pos rfl

theorem takeWhile_separator (rest : Text) :
    (separator :: rest).takeWhile (· = separator) =
      separator :: rest.takeWhile (· = separator) :=
  List.takeWhile_cons_of_pos (decide_eq_true rfl)

theorem filter_nil_cons (parts : List Text) :
    ([] :: parts).filter (fun part => decide (part ≠ [] ∧ part ≠ Text.ofString ".")) =
      parts.filter fun part => decide (part ≠ [] ∧ part ≠ Text.ofString ".") :=
  List.filter_cons_of_neg (by simp)

theorem ofText_toText (hparts : ∀ part ∈ path.parts, Leads part) : ofText path.toText = path := by
  obtain ⟨root, parts⟩ := path
  have hfilter := filter_splitOn_joinWith hparts
  have hfront := takeWhile_joinWith hparts
  dsimp only at hfilter hfront
  cases root with
  | relative =>
      rw [toText]
      dsimp only
      split
      next hempty =>
        rw [List.isEmpty_iff.mp hempty] at hfilter
        rw [← hfilter]
        rfl
      next => rw [ofText, rootOf, hfront, hfilter]; rfl
  | slash =>
      rw [toText, ofText, rootOf, takeWhile_separator, hfront, splitOn_separator,
        filter_nil_cons, hfilter]
      rfl
  | doubleSlash =>
      rw [toText, ofText, rootOf, takeWhile_separator, takeWhile_separator, hfront,
        splitOn_separator, splitOn_separator, filter_nil_cons, filter_nil_cons, hfilter]
      rfl

end KeyLayout.Path
