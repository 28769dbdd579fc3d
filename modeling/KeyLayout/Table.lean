namespace KeyLayout

/-! Finite tables that remember the order in which their keys first came in. -/

structure Table (κ ν : Type) where
  entries : List (κ × ν)
  nodup : (entries.map Prod.fst).Nodup
  deriving DecidableEq

namespace Table

variable {κ ν : Type} [DecidableEq κ]

def empty : Table κ ν := ⟨[], List.nodup_nil⟩

def keys (table : Table κ ν) : List κ :=
  table.entries.map Prod.fst

def size (table : Table κ ν) : Nat :=
  table.entries.length

def get? (table : Table κ ν) (key : κ) : Option ν :=
  (table.entries.find? (·.1 = key)).map Prod.snd

def contains (table : Table κ ν) (key : κ) : Bool :=
  table.keys.contains key

def replaceEntry (key : κ) (value : ν) : List (κ × ν) → List (κ × ν)
  | [] => []
  | entry :: rest =>
      (if entry.1 = key then (key, value) else entry) :: replaceEntry key value rest

theorem keys_replaceEntry (key : κ) (value : ν) (entries : List (κ × ν)) :
    (replaceEntry key value entries).map Prod.fst = entries.map Prod.fst := by
  induction entries with
  | nil => rfl
  | cons entry rest ih =>
      by_cases heq : entry.1 = key <;> simp [replaceEntry, heq, ih]

/-- A key that is there keeps its place; a new one goes to the end. -/
def insert (table : Table κ ν) (key : κ) (value : ν) : Table κ ν :=
  if hmem : key ∈ table.entries.map Prod.fst then
    ⟨replaceEntry key value table.entries, by
      rw [keys_replaceEntry]
      exact table.nodup⟩
  else
    ⟨table.entries ++ [(key, value)], by
      rw [List.map_append, List.nodup_append]
      refine ⟨table.nodup, by simp, ?_⟩
      intro left hleft right hright heq
      simp only [List.map_cons, List.map_nil, List.mem_singleton] at hright
      exact hmem (hright ▸ heq ▸ hleft)⟩

def ofList (entries : List (κ × ν)) : Table κ ν :=
  entries.foldl (fun table entry => table.insert entry.1 entry.2) empty

/-- The first table with every entry of the second written over it. -/
def override (table overlay : Table κ ν) : Table κ ν :=
  overlay.entries.foldl (fun table entry => table.insert entry.1 entry.2) table

/-- Both tables map the same keys to the same values, in whatever order. -/
def agrees [DecidableEq ν] (first second : Table κ ν) : Bool :=
  first.size = second.size &&
    first.entries.all fun entry => second.get? entry.1 = some entry.2

/-- The entries in ascending order of their keys. -/
def ascending {ν : Type} (table : Table Int ν) : List (Int × ν) :=
  table.entries.mergeSort fun first second => first.1 ≤ second.1

end Table

end KeyLayout
