import KeyLayout.Table

namespace KeyLayout.Table

/-! A table as the function from its keys to its values. -/

variable {κ ν : Type} [DecidableEq κ] {table overlay : Table κ ν} {key other : κ} {value : ν}
  {entries : List (κ × ν)}

theorem find?_eq_some_iff {entries : List (κ × ν)} (hnodup : (entries.map Prod.fst).Nodup)
    {key : κ} {value : ν} :
    (entries.find? (·.1 = key)).map Prod.snd = some value ↔ (key, value) ∈ entries := by
  induction entries with
  | nil => simp
  | cons entry rest ih =>
      obtain ⟨hentry, hrest⟩ := List.nodup_cons.mp hnodup
      obtain ⟨own, stored⟩ := entry
      by_cases heq : own = key
      · subst key
        have hnot : (own, value) ∉ rest := fun hmem =>
          hentry (List.mem_map.mpr ⟨_, hmem, rfl⟩)
        simp [hnot, eq_comm]
      · have hne : (key, value) ≠ (own, stored) := fun h => heq (congrArg Prod.fst h).symm
        simpa [heq, hne] using ih hrest

theorem get?_eq_some_iff {table : Table κ ν} {key : κ} {value : ν} :
    table.get? key = some value ↔ (key, value) ∈ table.entries :=
  find?_eq_some_iff table.nodup

theorem contains_insert_iff {table : Table κ ν} {key other : κ} {value : ν} :
    (table.insert key value).contains other = true ↔
      table.contains other = true ∨ other = key := by
  simp only [contains, keys, List.contains_iff_mem]
  rw [insert]
  split
  next hmem =>
    rw [keys_replaceEntry]
    exact ⟨.inl, fun hother => hother.elim id fun heq => heq ▸ hmem⟩
  next hnew => simp

theorem entries_insert_of_new (hnew : key ∉ table.entries.map Prod.fst) (value : ν) :
    (table.insert key value).entries = table.entries ++ [(key, value)] := by
  rw [insert, dif_neg hnew]

/-- Entries with new keys go to the end, in their order. -/
theorem entries_foldl_insert (hnodup : ((table.entries ++ entries).map Prod.fst).Nodup) :
    (entries.foldl (fun table entry => table.insert entry.1 entry.2) table).entries =
      table.entries ++ entries := by
  induction entries generalizing table with
  | nil => simp
  | cons entry rest ih =>
      have hnew : entry.1 ∉ table.entries.map Prod.fst := by
        rw [List.map_append, List.nodup_append] at hnodup
        exact fun hmem => hnodup.2.2 _ hmem _ (List.mem_cons_self ..) rfl
      have hinsert := entries_insert_of_new hnew entry.2
      rw [List.foldl_cons, ih (by rw [hinsert]; simpa using hnodup), hinsert,
        List.append_assoc, List.singleton_append]

theorem entries_ofList (hnodup : (entries.map Prod.fst).Nodup) :
    (ofList entries).entries = entries :=
  entries_foldl_insert hnodup

theorem ofList_entries (table : Table κ ν) : ofList table.entries = table := by
  have hentries := entries_ofList table.nodup
  cases h : ofList table.entries
  cases table
  rw [h] at hentries
  cases hentries
  rfl

theorem find?_replaceEntry (entries : List (κ × ν)) (key other : κ) (value : ν) :
    ((replaceEntry key value entries).find? (·.1 = other)).map Prod.snd =
      if other = key ∧ key ∈ entries.map Prod.fst then some value
      else (entries.find? (·.1 = other)).map Prod.snd := by
  induction entries with
  | nil => simp [replaceEntry]
  | cons entry rest ih =>
      by_cases hkey : entry.1 = key
      · by_cases hother : other = key
        · simp [replaceEntry, hkey, hother]
        · simpa [replaceEntry, hkey, hother, Ne.symm hother] using ih
      · have hmem : key ∈ (entry :: rest).map Prod.fst ↔ key ∈ rest.map Prod.fst := by
          rw [List.map_cons, List.mem_cons, or_iff_right (Ne.symm hkey)]
        by_cases hother : entry.1 = other
        · have hne : other ≠ key := hother ▸ hkey
          simp [replaceEntry, hother, hne]
        · simpa only [replaceEntry, hkey, if_false, List.find?_cons, hother, decide_false, hmem]
            using ih

theorem get?_insert (table : Table κ ν) (key other : κ) (value : ν) :
    (table.insert key value).get? other = if other = key then some value else table.get? other := by
  rw [get?, get?, insert]
  split
  next hmem =>
    rw [find?_replaceEntry]
    simp only [hmem, and_true]
  next hnew =>
    by_cases hother : other = key
    · have hnone : table.entries.find? (·.1 = key) = none :=
        List.find?_eq_none.mpr fun entry hentry heq =>
          hnew (List.mem_map.mpr ⟨entry, hentry, of_decide_eq_true heq⟩)
      simp [List.find?_append, hother, hnone]
    · simp [List.find?_append, hother, Ne.symm hother]

/-- Entries leave no table empty. -/
theorem foldl_insert_eq_empty_iff :
    entries.foldl (fun table entry => table.insert entry.1 entry.2) table = .empty ↔
      entries = [] ∧ table = .empty := by
  induction entries generalizing table with
  | nil => simp
  | cons entry rest ih =>
      have hne : table.insert entry.1 entry.2 ≠ .empty := by
        intro hempty
        have hfound := get?_insert table entry.1 entry.1 entry.2
        rw [hempty, if_pos rfl] at hfound
        contradiction
      simp [ih, hne]

theorem get?_override (table overlay : Table κ ν) (key : κ) :
    (table.override overlay).get? key = (overlay.get? key).or (table.get? key) := by
  -- the keys of an overlay differ, so that no entry is written over by a later one
  have hfold (entries : List (κ × ν)) (hnodup : (entries.map Prod.fst).Nodup) (table : Table κ ν) :
      (entries.foldl (fun table entry => table.insert entry.1 entry.2) table).get? key =
        ((entries.find? (·.1 = key)).map Prod.snd).or (table.get? key) := by
    induction entries generalizing table with
    | nil => rfl
    | cons entry rest ih =>
        obtain ⟨hentry, hrest⟩ := List.nodup_cons.mp hnodup
        rw [List.foldl_cons, ih hrest, get?_insert]
        by_cases hkey : entry.1 = key
        · have hnone : rest.find? (·.1 = key) = none :=
            List.find?_eq_none.mpr fun other hother heq =>
              hentry (List.mem_map.mpr ⟨other, hother, (of_decide_eq_true heq).trans hkey.symm⟩)
          simp [hkey, hnone]
        · simp [hkey, Ne.symm hkey]
  exact hfold overlay.entries overlay.nodup table

theorem mem_replaceEntry {entry : κ × ν} (hentry : entry ∈ replaceEntry key value entries) :
    entry = (key, value) ∨ entry ∈ entries := by
  induction entries with
  | nil => exact .inr hentry
  | cons own rest ih =>
      rw [replaceEntry, List.mem_cons] at hentry
      rcases hentry with rfl | hentry
      · split
        · exact .inl rfl
        · exact .inr (List.mem_cons_self ..)
      · exact (ih hentry).imp_right (List.mem_cons_of_mem own)

section Forall

variable {holds : κ × ν → Prop}

theorem forall_insert (htable : ∀ entry ∈ table.entries, holds entry) (hnew : holds (key, value)) :
    ∀ entry ∈ (table.insert key value).entries, holds entry := by
  intro entry hentry
  rw [insert] at hentry
  split at hentry
  next =>
    rcases mem_replaceEntry hentry with rfl | hentry
    · exact hnew
    · exact htable entry hentry
  next =>
    rcases List.mem_append.mp hentry with hentry | hentry
    · exact htable entry hentry
    · exact List.mem_singleton.mp hentry ▸ hnew

theorem forall_foldl_insert (htable : ∀ entry ∈ table.entries, holds entry)
    (hentries : ∀ entry ∈ entries, holds entry) :
    ∀ entry ∈ (entries.foldl (fun table entry => table.insert entry.1 entry.2) table).entries,
      holds entry := by
  induction entries generalizing table with
  | nil => exact htable
  | cons entry rest ih =>
      obtain ⟨hentry, hrest⟩ := List.forall_mem_cons.mp hentries
      exact ih (forall_insert htable hentry) hrest

theorem forall_override (htable : ∀ entry ∈ table.entries, holds entry)
    (hoverlay : ∀ entry ∈ overlay.entries, holds entry) :
    ∀ entry ∈ (table.override overlay).entries, holds entry :=
  forall_foldl_insert htable hoverlay

theorem forall_ofList (hentries : ∀ entry ∈ entries, holds entry) :
    ∀ entry ∈ (ofList entries).entries, holds entry :=
  forall_foldl_insert (fun _ hmem => nomatch hmem) hentries

end Forall

theorem size_insert_le (table : Table κ ν) (key : κ) (value : ν) :
    (table.insert key value).size ≤ table.size + 1 := by
  rw [insert]
  split
  next =>
    have hlength := congrArg List.length (keys_replaceEntry key value table.entries)
    rw [List.length_map, List.length_map] at hlength
    exact Nat.le_succ_of_le (Nat.le_of_eq hlength)
  next => exact Nat.le_of_eq List.length_append

theorem size_foldl_insert_le :
    (entries.foldl (fun table entry => table.insert entry.1 entry.2) table).size ≤
      table.size + entries.length := by
  induction entries generalizing table with
  | nil => exact Nat.le_refl _
  | cons entry rest ih =>
      have hentry := size_insert_le table entry.1 entry.2
      have hrest : (rest.foldl (fun table entry => table.insert entry.1 entry.2)
          (table.insert entry.1 entry.2)).size ≤
          (table.insert entry.1 entry.2).size + rest.length := ih
      rw [List.foldl_cons, List.length_cons]
      omega

/-- Repeated keys make a table shorter than its list. -/
theorem size_ofList_le (entries : List (κ × ν)) : (ofList entries).size ≤ entries.length := by
  have hsize : (ofList entries).size ≤ 0 + entries.length := size_foldl_insert_le
  rwa [Nat.zero_add] at hsize

/-- No key is in both tables. -/
def Disjoint (first second : Table κ ν) : Prop :=
  ∀ key ∈ first.keys, key ∉ second.keys

instance (first second : Table κ ν) : Decidable (first.Disjoint second) :=
  inferInstanceAs (Decidable (∀ key ∈ first.keys, key ∉ second.keys))

theorem disjoint_iff {first second : Table κ ν} :
    first.Disjoint second ↔ ∀ entry ∈ second.entries, first.contains entry.1 = false := by
  simp only [Disjoint, contains, ← Bool.not_eq_true, List.contains_iff_mem]
  constructor
  · exact fun hdisjoint entry hentry hmem =>
      hdisjoint entry.1 hmem (List.mem_map.mpr ⟨entry, hentry, rfl⟩)
  · rintro hdisjoint key hfirst hsecond
    obtain ⟨entry, hentry, rfl⟩ := List.mem_map.mp hsecond
    exact hdisjoint entry hentry hfirst

theorem Disjoint.entries_override {first second : Table κ ν}
    (hdisjoint : first.Disjoint second) :
    (first.override second).entries = first.entries ++ second.entries := by
  refine entries_foldl_insert ?_
  rw [List.map_append, List.nodup_append]
  refine ⟨first.nodup, second.nodup, ?_⟩
  rintro key hfirst other hsecond rfl
  exact hdisjoint key hfirst hsecond

theorem get?_eq_none_iff : table.get? key = none ↔ key ∉ table.keys := by
  rw [Option.eq_none_iff_forall_ne_some, keys, List.mem_map]
  constructor
  · rintro hnone ⟨entry, hentry, rfl⟩
    exact hnone entry.2 (get?_eq_some_iff.mpr hentry)
  · intro hkey value hvalue
    exact hkey ⟨_, get?_eq_some_iff.mp hvalue, rfl⟩

theorem mem_keys_iff : key ∈ table.keys ↔ ∃ value, table.get? key = some value := by
  rw [← Option.ne_none_iff_exists', ne_eq, get?_eq_none_iff, Decidable.not_not]

section Ascending

variable {ν : Type} {table : Table Int ν}

theorem mem_ascending_iff {entry : Int × ν} :
    entry ∈ table.ascending ↔ table.get? entry.1 = some entry.2 := by
  rw [ascending, List.mem_mergeSort, get?_eq_some_iff]

theorem pairwise_ascending (table : Table Int ν) :
    table.ascending.Pairwise fun first second => first.1 < second.1 := by
  have hsorted : table.ascending.Pairwise fun first second =>
      decide (first.1 ≤ second.1) = true := by
    refine List.pairwise_mergeSort (fun first second third hfirst hsecond => ?_)
      (fun first second => ?_) table.entries
    · rw [decide_eq_true_eq] at hfirst hsecond ⊢
      exact Int.le_trans hfirst hsecond
    · rw [Bool.or_eq_true, decide_eq_true_eq, decide_eq_true_eq]
      exact Int.le_total first.1 second.1
  simp only [decide_eq_true_eq] at hsorted
  have hnodup : table.ascending.Pairwise fun first second => first.1 ≠ second.1 :=
    List.pairwise_map.mp (((List.mergeSort_perm _ _).map _).nodup_iff.mpr table.nodup)
  exact hsorted.imp₂ (fun first second hle hne => Int.lt_iff_le_and_ne.mpr ⟨hle, hne⟩) hnodup

end Ascending

section Laws

variable {first second third : Table κ ν}

/-- A table is the order of its keys and the function to their values. -/
theorem ext_of_keys (hkeys : first.keys = second.keys)
    (hvalues : ∀ key, first.get? key = second.get? key) : first = second := by
  have hentries (table : Table κ ν) :
      table.entries.map (fun entry => (entry.1, some entry.2)) =
        table.keys.map fun key => (key, table.get? key) := by
    rw [keys, List.map_map]
    refine List.map_congr_left fun entry hentry => ?_
    rw [Function.comp_apply, get?_eq_some_iff.mpr hentry]
  have heq : first.entries = second.entries := by
    refine (List.map_inj_right fun entry other heq => ?_).mp
      ((hentries first).trans (Eq.trans ?_ (hentries second).symm))
    · rw [Prod.mk.injEq, Option.some.injEq] at heq
      exact Prod.ext heq.1 heq.2
    · simp only [hkeys, hvalues]
  cases first
  cases second
  cases heq
  rfl

theorem keys_insert (table : Table κ ν) (key : κ) (value : ν) :
    (table.insert key value).keys =
      if key ∈ table.keys then table.keys else table.keys ++ [key] := by
  rw [keys, keys, insert]
  split
  next => exact keys_replaceEntry ..
  next => rw [List.map_append, List.map_singleton]

/-- New keys go to the end, in the order of the overlay. -/
theorem keys_override (table overlay : Table κ ν) :
    (table.override overlay).keys =
      table.keys ++ overlay.keys.filter fun key => decide (key ∉ table.keys) := by
  have hfold (entries : List (κ × ν)) (hnodup : (entries.map Prod.fst).Nodup) (table : Table κ ν) :
      (entries.foldl (fun table entry => table.insert entry.1 entry.2) table).keys =
        table.keys ++ (entries.map Prod.fst).filter fun key => decide (key ∉ table.keys) := by
    induction entries generalizing table with
    | nil => simp
    | cons entry rest ih =>
        obtain ⟨hentry, hrest⟩ := List.nodup_cons.mp hnodup
        rw [List.foldl_cons, ih hrest, keys_insert, List.map_cons, List.filter_cons]
        split
        next hmem => simp [hmem]
        next hnew =>
          have hkeep : ∀ key ∈ rest.map Prod.fst,
              decide (key ∉ table.keys ++ [entry.1]) = decide (key ∉ table.keys) := by
            intro key hkey
            have hne : key ≠ entry.1 := fun heq => hentry (heq ▸ hkey)
            simp [hne]
          rw [List.filter_congr hkeep]
          simp [hnew]
  exact hfold overlay.entries overlay.nodup table

theorem mem_keys_override_iff :
    key ∈ (first.override second).keys ↔ key ∈ first.keys ∨ key ∈ second.keys := by
  rw [keys_override]
  by_cases hkey : key ∈ first.keys <;> simp [hkey]

theorem override_assoc (first second third : Table κ ν) :
    (first.override second).override third = first.override (second.override third) := by
  refine ext_of_keys ?_ fun key => by simp only [get?_override, Option.or_assoc]
  rw [keys_override (first.override second), keys_override first second,
    keys_override first (second.override third), keys_override second third, List.filter_append,
    List.filter_filter, List.append_assoc]
  refine congrArg (_ ++ ·) (congrArg (_ ++ ·) (List.filter_congr fun key _ => ?_))
  rw [← keys_override]
  simp only [mem_keys_override_iff, not_or, Bool.decide_and]

/-- What is there already need not be written over it. -/
theorem override_eq_left
    (hthere : ∀ key value, second.get? key = some value → first.get? key = some value) :
    first.override second = first := by
  refine ext_of_keys ?_ fun key => ?_
  · rw [keys_override, List.filter_eq_nil_iff.mpr, List.append_nil]
    intro key hkey
    obtain ⟨value, hvalue⟩ := mem_keys_iff.mp hkey
    simpa using mem_keys_iff.mpr ⟨value, hthere key value hvalue⟩
  · rw [get?_override]
    cases hvalue : second.get? key with
    | none => rfl
    | some value => exact (hthere key value hvalue).symm

theorem override_override (first second : Table κ ν) :
    (first.override second).override second = first.override second :=
  override_eq_left fun key value hvalue => by rw [get?_override, hvalue, Option.some_or]

theorem agrees_of_get? [DecidableEq ν] (hvalues : ∀ key, first.get? key = second.get? key) :
    first.agrees second = true := by
  have hmem (key : κ) : key ∈ first.keys ↔ key ∈ second.keys := by
    rw [mem_keys_iff, mem_keys_iff, hvalues]
  have hkeys : first.keys.Perm second.keys :=
    (List.perm_ext_iff_of_nodup first.nodup second.nodup).mpr hmem
  have hsize : first.size = second.size := by
    simpa [keys, size] using hkeys.length_eq
  rw [agrees, Bool.and_eq_true, decide_eq_true_eq, List.all_eq_true]
  refine ⟨hsize, fun entry hentry => ?_⟩
  rw [← hvalues, get?_eq_some_iff.mpr hentry, decide_eq_true_eq]

theorem Disjoint.override_comm [DecidableEq ν] (hdisjoint : second.Disjoint third)
    (first : Table κ ν) :
    ((first.override second).override third).agrees ((first.override third).override second) =
      true := by
  refine agrees_of_get? fun key => ?_
  simp only [get?_override]
  cases hsecond : second.get? key with
  | none => rfl
  | some value =>
      have hthird := hdisjoint key (mem_keys_iff.mpr ⟨value, hsecond⟩)
      rw [get?_eq_none_iff.mpr hthird]
      rfl

end Laws

end KeyLayout.Table
