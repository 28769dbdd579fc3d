import KeyLayout.Proofs.Grammar.Statements

namespace KeyLayout

/-! A block takes its settings one by one, as long as none is repeated, and ends up with
the key that they describe. -/

def Statement.behavior? : Property × Value → Option Behavior
  | (.mask mask, value) => some (value.behavior mask)
  | _ => none

/-- The key that a block ends up with. -/
def Key.ofSettings (settings : List (Property × Value)) : Key :=
  let behaviors := Behavior.sort (settings.filterMap Statement.behavior?)
  { label := (settings.lookup .label).bind Value.plainCharacter?
    number := ((settings.lookup .number).bind Value.plainCharacter?).or
      (Behavior.dialingCharacter? behaviors)
    behaviors := behaviors }

theorem Value.plainCharacter?_eq_some_iff {value : Value} {point : CodePoint} :
    value.plainCharacter? = some point ↔ value = ⟨some (some point), none⟩ := by
  obtain ⟨character, target⟩ := value
  cases target <;> cases character <;> simp [plainCharacter?]

namespace PendingKey

variable {pending next : PendingKey} {property other : Property} {value : Value}
  {setting : Property × Value} {settings : List (Property × Value)}

/-- The label or number that is set. -/
def mark (pending : PendingKey) : Property → Option CodePoint
  | .label => pending.label
  | .number => pending.number
  | .mask _ => none

def Has (pending : PendingKey) : Property → Prop
  | .label => pending.label.isSome = true
  | .number => pending.number.isSome = true
  | .mask mask => ∃ behavior ∈ pending.behaviors, behavior.mask = mask

def Plain (setting : Property × Value) : Prop :=
  setting.1 = .label ∨ setting.1 = .number → ∃ point, setting.2 = ⟨some (some point), none⟩

def withSetting (pending : PendingKey) : Property × Value → PendingKey
  | (.label, value) => { pending with label := value.plainCharacter? }
  | (.number, value) => { pending with number := value.plainCharacter? }
  | (.mask mask, value) =>
      { pending with behaviors := pending.behaviors ++ [value.behavior mask] }

def withSettings (pending : PendingKey) (settings : List (Property × Value)) : PendingKey :=
  settings.foldl withSetting pending

/-- A key whose block was just opened. -/
def new (code : KeyCode) (line : Nat) : PendingKey where
  code := code
  line := line

/-- The settings can be added: none is set already or twice. -/
structure Accepts (pending : PendingKey) (settings : List (Property × Value)) : Prop where
  fresh : ∀ setting ∈ settings, ¬pending.Has setting.1
  nodup : (settings.map Prod.fst).Nodup
  plain : ∀ setting ∈ settings, Plain setting

theorem plain_of_plainCharacter? {point : CodePoint} (hpoint : value.plainCharacter? = some point)
    (property : Property) : Plain (property, value) :=
  fun _ => ⟨point, Value.plainCharacter?_eq_some_iff.mp hpoint⟩

theorem plainCharacter?_of_plain (hplain : Plain (property, value))
    (hproperty : property = .label ∨ property = .number) :
    ∃ point, value.plainCharacter? = some point := by
  obtain ⟨point, heq⟩ := hplain hproperty
  exact ⟨point, Value.plainCharacter?_eq_some_iff.mpr heq⟩

theorem set_eq_ok_iff :
    pending.set value property = .ok next ↔
      ¬pending.Has property ∧ Plain (property, value) ∧
        next = pending.withSetting (property, value) := by
  cases property
  case label | number =>
    rw [set]
    constructor
    · intro hset
      split at hset
      next => contradiction
      next hnew =>
      split at hset
      next => contradiction
      next point hpoint =>
        cases hset
        exact ⟨hnew, plain_of_plainCharacter? hpoint _, by rw [withSetting, hpoint]⟩
    · rintro ⟨hnew, hplain, rfl⟩
      obtain ⟨point, hpoint⟩ := plainCharacter?_of_plain hplain (by simp)
      rw [Has] at hnew
      rw [if_neg hnew, hpoint, withSetting, hpoint]
  case mask mask =>
    have hplain : Plain (.mask mask, value) := by
      rintro (hlabel | hnumber) <;> contradiction
    have hhas : pending.behaviors.any (·.mask = mask) = true ↔ pending.Has (.mask mask) := by
      simp [Has]
    rw [set]
    constructor
    · intro hset
      split at hset
      next => contradiction
      next hnew =>
        cases hset
        exact ⟨fun hown => hnew (hhas.mpr hown), hplain, rfl⟩
    · rintro ⟨hnew, -, rfl⟩
      rw [if_neg fun hown => hnew (hhas.mp hown), withSetting]

theorem has_withSetting (hplain : Plain setting) :
    (pending.withSetting setting).Has other ↔ pending.Has other ∨ other = setting.1 := by
  obtain ⟨property, value⟩ := setting
  cases property
  case label | number =>
    obtain ⟨point, hpoint⟩ := plainCharacter?_of_plain hplain (by simp)
    cases other <;> simp [withSetting, Has, hpoint]
  case mask mask =>
    cases other with
    | label => simp [withSetting, Has]
    | number => simp [withSetting, Has]
    | mask own => simp [withSetting, Has, Value.behavior, or_and_right, exists_or, eq_comm]

theorem accepts_cons_iff :
    pending.Accepts (setting :: settings) ↔
      ¬pending.Has setting.1 ∧ Plain setting ∧
        (pending.withSetting setting).Accepts settings := by
  constructor
  · rintro ⟨hfresh, hnodup, hplain⟩
    obtain ⟨hfirst, hrest⟩ := List.forall_mem_cons.mp hfresh
    obtain ⟨hfirstPlain, hrestPlain⟩ := List.forall_mem_cons.mp hplain
    obtain ⟨hnew, hnodup⟩ := List.nodup_cons.mp hnodup
    refine ⟨hfirst, hfirstPlain, fun own hown hhas => ?_, hnodup, hrestPlain⟩
    rcases (has_withSetting hfirstPlain).mp hhas with hhas | heq
    · exact hrest own hown hhas
    · exact hnew (heq ▸ List.mem_map_of_mem hown)
  · rintro ⟨hfirst, hfirstPlain, hfresh, hnodup, hplain⟩
    refine ⟨List.forall_mem_cons.mpr ⟨hfirst, fun own hown hhas => ?_⟩,
      List.nodup_cons.mpr ⟨fun hmem => ?_, hnodup⟩,
      List.forall_mem_cons.mpr ⟨hfirstPlain, hplain⟩⟩
    · exact hfresh own hown ((has_withSetting hfirstPlain).mpr (.inl hhas))
    · obtain ⟨own, hown, heq⟩ := List.mem_map.mp hmem
      exact hfresh own hown ((has_withSetting hfirstPlain).mpr (.inr heq))

theorem accepts_nil : pending.Accepts [] :=
  ⟨by simp, by simp, by simp⟩

theorem setAll_eq_ok_iff :
    settings.foldlM (fun (pending : PendingKey) setting => pending.set setting.2 setting.1)
        pending = .ok next ↔
      pending.Accepts settings ∧ next = pending.withSettings settings := by
  induction settings generalizing pending with
  | nil =>
      simp only [List.foldlM_nil, withSettings, List.foldl_nil, accepts_nil, true_and]
      exact ⟨fun heq => (Except.ok.inj heq).symm, fun heq => heq ▸ rfl⟩
  | cons setting rest ih =>
      rw [List.foldlM_cons, bind_eq_ok_iff, accepts_cons_iff]
      constructor
      · rintro ⟨middle, hset, hrest⟩
        obtain ⟨hnew, hplain, rfl⟩ := set_eq_ok_iff.mp hset
        obtain ⟨haccepts, rfl⟩ := ih.mp hrest
        exact ⟨⟨hnew, hplain, haccepts⟩, rfl⟩
      · rintro ⟨⟨hnew, hplain, haccepts⟩, rfl⟩
        exact ⟨_, set_eq_ok_iff.mpr ⟨hnew, hplain, rfl⟩, ih.mpr ⟨haccepts, rfl⟩⟩

theorem apply_eq_ok_iff {statement : Statement} :
    pending.apply statement = .ok next ↔
      pending.Accepts (Statement.settings [statement]) ∧
        next = pending.withSettings (Statement.settings [statement]) := by
  rw [← setAll_eq_ok_iff, Statement.settings, List.flatMap_singleton, List.foldlM_map]
  rfl

theorem accepts_append_iff {more : List (Property × Value)} :
    pending.Accepts (settings ++ more) ↔
      pending.Accepts settings ∧ (pending.withSettings settings).Accepts more := by
  induction settings generalizing pending with
  | nil => simp [accepts_nil, withSettings]
  | cons setting rest ih =>
      rw [List.cons_append, accepts_cons_iff, accepts_cons_iff, ih]
      simp only [withSettings, List.foldl_cons, and_assoc]

section Finish

theorem has_withSettings (haccepts : pending.Accepts settings) :
    (pending.withSettings settings).Has other ↔
      pending.Has other ∨ other ∈ settings.map Prod.fst := by
  induction settings generalizing pending with
  | nil => simp [withSettings]
  | cons setting rest ih =>
      obtain ⟨-, hplain, hrest⟩ := accepts_cons_iff.mp haccepts
      change ((pending.withSetting setting).withSettings rest).Has other ↔ _
      rw [ih hrest, has_withSetting hplain, List.map_cons, List.mem_cons, or_assoc]

theorem isEmpty_iff : pending.isEmpty = true ↔ ∀ property, ¬pending.Has property := by
  simp only [isEmpty, Bool.and_eq_true, List.isEmpty_iff, Option.isNone_iff_eq_none]
  constructor
  · rintro ⟨⟨hbehaviors, hlabel⟩, hnumber⟩ property
    cases property <;> simp [Has, hbehaviors, hlabel, hnumber]
  · intro hnone
    refine ⟨⟨List.eq_nil_iff_forall_not_mem.mpr fun behavior hmem => ?_, ?_⟩, ?_⟩
    · exact hnone (.mask behavior.mask) ⟨behavior, hmem, rfl⟩
    · simpa [Has] using hnone .label
    · simpa [Has] using hnone .number

theorem mark_withSettings (haccepts : pending.Accepts settings)
    (hproperty : property = .label ∨ property = .number) :
    (pending.withSettings settings).mark property =
      (pending.mark property).or ((settings.lookup property).bind Value.plainCharacter?) := by
  induction settings generalizing pending with
  | nil => simp [withSettings]
  | cons setting rest ih =>
      obtain ⟨hnew, hplain, hrest⟩ := accepts_cons_iff.mp haccepts
      obtain ⟨own, value⟩ := setting
      change ((pending.withSetting (own, value)).withSettings rest).mark property = _
      rw [ih hrest, List.lookup_cons]
      by_cases heq : property = own
      · subst own
        obtain ⟨point, hpoint⟩ := plainCharacter?_of_plain hplain hproperty
        rcases hproperty with rfl | rfl
        · simp_all [mark, withSetting, Has]
        · simp_all [mark, withSetting, Has]
      · have hmark :
            (pending.withSetting (own, value)).mark property = pending.mark property := by
          rcases hproperty with rfl | rfl <;> cases own <;> first | contradiction | rfl
        rw [hmark, beq_eq_false_iff_ne.mpr heq]

theorem behaviors_withSettings (pending : PendingKey) (settings : List (Property × Value)) :
    (pending.withSettings settings).behaviors =
      pending.behaviors ++ settings.filterMap Statement.behavior? := by
  induction settings generalizing pending with
  | nil => simp [withSettings]
  | cons setting rest ih =>
      change ((pending.withSetting setting).withSettings rest).behaviors = _
      rw [ih]
      obtain ⟨own, value⟩ := setting
      cases own <;> simp [withSetting, List.filterMap_cons, Statement.behavior?]

theorem code_withSettings (pending : PendingKey) (settings : List (Property × Value)) :
    (pending.withSettings settings).code = pending.code := by
  induction settings generalizing pending with
  | nil => rfl
  | cons setting rest ih =>
      change ((pending.withSetting setting).withSettings rest).code = _
      rw [ih]
      obtain ⟨own, value⟩ := setting
      cases own <;> rfl

variable {code : KeyCode} {line : Nat}

theorem not_has_new : ¬(new code line).Has property := by
  cases property <;> simp [new, Has]

/-- A new block takes just the settings that fit, and is empty without any. -/
theorem fitting_iff :
    Statement.Fitting settings ↔ (new code line).Accepts settings ∧
      ((new code line).withSettings settings).isEmpty = false := by
  constructor
  · rintro ⟨hsome, hnodup, hplain⟩
    have haccepts : (new code line).Accepts settings :=
      ⟨fun _ _ => not_has_new, hnodup, hplain⟩
    refine ⟨haccepts, Bool.eq_false_iff.mpr fun hempty => ?_⟩
    obtain ⟨setting, rest, rfl⟩ := List.exists_cons_of_ne_nil hsome
    exact isEmpty_iff.mp hempty setting.1
      ((has_withSettings haccepts).mpr (.inr (List.mem_cons_self ..)))
  · rintro ⟨haccepts, hempty⟩
    refine ⟨?_, haccepts.nodup, haccepts.plain⟩
    rintro rfl
    cases hempty

theorem finish_withSettings
    (haccepts : (new code line).Accepts settings) :
    ((new code line).withSettings settings).finish =
      Key.ofSettings settings := by
  have hlabel : ((new code line).withSettings settings).label =
      (settings.lookup .label).bind Value.plainCharacter? :=
    mark_withSettings haccepts (.inl rfl)
  have hnumber : ((new code line).withSettings settings).number =
      (settings.lookup .number).bind Value.plainCharacter? :=
    mark_withSettings haccepts (.inr rfl)
  rw [finish, behaviors_withSettings, hlabel, hnumber]
  rfl

end Finish

end PendingKey

/-! The key that a block ends up with is the one that its settings declare. -/

section Declarations

variable {mask : MetaState} {value : Value} {behavior other : Behavior}

theorem Value.states_behavior (value : Value) (mask : MetaState) :
    value.States mask (value.behavior mask) where
  mask := rfl
  character point := Option.join_eq_some_iff
  fallback code := by
    rcases value with ⟨character, _ | ⟨_ | _, own⟩⟩ <;> simp [behavior]
  replacement code := by
    rcases value with ⟨character, _ | ⟨_ | _, own⟩⟩ <;> simp [behavior]

theorem Value.States.unique (hbehavior : value.States mask behavior)
    (hother : value.States mask other) : behavior = other := by
  have hmask : behavior.mask = other.mask := hbehavior.mask.trans hother.mask.symm
  have hcharacter : behavior.character = other.character := Option.ext fun point =>
    (hbehavior.character point).trans (hother.character point).symm
  have hfallback : behavior.fallback = other.fallback := Option.ext fun code =>
    (hbehavior.fallback code).trans (hother.fallback code).symm
  have hreplacement : behavior.replacement = other.replacement := Option.ext fun code =>
    (hbehavior.replacement code).trans (hother.replacement code).symm
  cases behavior
  cases other
  congr

namespace Statement

variable {settings : List (Property × Value)} {behaviors others : List Behavior} {key : Key}
  {property : Property} {point : CodePoint}

theorem statesAll_filterMap (settings : List (Property × Value)) :
    StatesAll settings (settings.filterMap behavior?) := by
  induction settings with
  | nil => exact .nil
  | cons setting rest ih =>
      obtain ⟨property, value⟩ := setting
      cases property with
      | label => exact .label ih
      | number => exact .number ih
      | mask mask => exact .mask (value.states_behavior mask) ih

theorem StatesAll.unique (hbehaviors : StatesAll settings behaviors)
    (hothers : StatesAll settings others) : behaviors = others := by
  induction hbehaviors generalizing others with
  | nil =>
      cases hothers
      rfl
  | label _ ih =>
      cases hothers with
      | label hrest => exact ih hrest
  | number _ ih =>
      cases hothers with
      | number hrest => exact ih hrest
  | mask hstates _ ih =>
      cases hothers with
      | mask hother hrest => rw [hstates.unique hother, ih hrest]

theorem lookup_eq_some_iff (hnodup : (settings.map Prod.fst).Nodup) :
    settings.lookup property = some value ↔ (property, value) ∈ settings := by
  induction settings with
  | nil => simp
  | cons setting rest ih =>
      obtain ⟨hnew, hrest⟩ := List.nodup_cons.mp hnodup
      obtain ⟨own, stored⟩ := setting
      rw [List.lookup_cons, List.mem_cons, Prod.mk.injEq]
      by_cases heq : property = own
      · subst own
        have hnot : (property, value) ∉ rest := fun hmem =>
          hnew (List.mem_map.mpr ⟨_, hmem, rfl⟩)
        simp [hnot, eq_comm]
      · simp [beq_eq_false_iff_ne.mpr heq, heq, ih hrest]

theorem plainCharacter?_lookup_eq_some_iff (hnodup : (settings.map Prod.fst).Nodup) :
    (settings.lookup property).bind Value.plainCharacter? = some point ↔
      (property, ⟨some (some point), none⟩) ∈ settings := by
  rw [Option.bind_eq_some_iff]
  simp only [lookup_eq_some_iff hnodup, Value.plainCharacter?_eq_some_iff]
  exact ⟨fun ⟨_, hmem, heq⟩ => heq ▸ hmem, fun hmem => ⟨_, hmem, rfl⟩⟩

theorem plainCharacter?_lookup_eq_none_iff (hfitting : Fitting settings)
    (hproperty : property = .label ∨ property = .number) :
    (settings.lookup property).bind Value.plainCharacter? = none ↔
      property ∉ settings.map Prod.fst := by
  rw [Option.eq_none_iff_forall_ne_some]
  simp only [ne_eq, plainCharacter?_lookup_eq_some_iff hfitting.nodup]
  constructor
  · intro hnone hmem
    obtain ⟨⟨own, value⟩, hsetting, rfl⟩ := List.mem_map.mp hmem
    obtain ⟨point, rfl⟩ := hfitting.plain _ hsetting hproperty
    exact hnone point hsetting
  · exact fun hnew point hmem => hnew (List.mem_map_of_mem hmem)

theorem declares_ofSettings (hfitting : Fitting settings) :
    Declares settings (Key.ofSettings settings) where
  label _ := plainCharacter?_lookup_eq_some_iff hfitting.nodup
  number _ := by
    rw [Key.ofSettings, Option.or_eq_some_iff, plainCharacter?_lookup_eq_some_iff hfitting.nodup,
      plainCharacter?_lookup_eq_none_iff hfitting (.inr rfl),
      Behavior.dialingCharacter?_eq_some_iff]
  behaviors := ⟨_, statesAll_filterMap settings, Behavior.sorts_iff.mpr rfl⟩

theorem Declares.unique {other : Key} (hkey : Declares settings key)
    (hother : Declares settings other) : key = other := by
  obtain ⟨stated, hstated, hsorts⟩ := hkey.behaviors
  obtain ⟨otherStated, hotherStated, hotherSorts⟩ := hother.behaviors
  obtain rfl := hstated.unique hotherStated
  have hbehaviors : key.behaviors = other.behaviors :=
    (Behavior.sorts_iff.mp hsorts).trans (Behavior.sorts_iff.mp hotherSorts).symm
  have hlabel : key.label = other.label := Option.ext fun point =>
    (hkey.label point).trans (hother.label point).symm
  have hnumber : key.number = other.number := Option.ext fun point => by
    rw [hkey.number, hother.number, hbehaviors]
  cases key
  cases other
  congr

/-- Settings that fit a block declare just one key. -/
theorem declares_iff (hfitting : Fitting settings) :
    Declares settings key ↔ key = Key.ofSettings settings :=
  ⟨fun hkey => hkey.unique (declares_ofSettings hfitting),
    fun heq => heq ▸ declares_ofSettings hfitting⟩

end Statement

end Declarations

end KeyLayout
