import KeyLayout.Decimal.Shortest
import KeyLayout.Json.Basic
import KeyLayout.Proofs.Text.Joining

namespace KeyLayout

/-! Values are shown without surrogates, whatever their texts hold. -/

namespace Text

def Plain (text : Text) : Prop :=
  ∀ point ∈ text, point.isSurrogate = false

instance (text : Text) : Decidable text.Plain :=
  inferInstanceAs (Decidable (∀ point ∈ text, point.isSurrogate = false))

variable {text other : Text} {parts : List Text} {point : CodePoint}

@[simp] theorem plain_nil : Plain [] :=
  fun _ hmem => nomatch hmem

@[simp] theorem plain_cons_iff : Plain (point :: text) ↔ point.isSurrogate = false ∧ text.Plain :=
  List.forall_mem_cons

@[simp] theorem plain_append_iff : Plain (text ++ other) ↔ text.Plain ∧ other.Plain :=
  List.forall_mem_append

@[simp] theorem plain_map_scalar (characters : List Char) : Plain (characters.map CodePoint.scalar) := by
  intro point hpoint
  obtain ⟨character, -, rfl⟩ := List.mem_map.mp hpoint
  rfl

@[simp] theorem plain_ofString (string : String) : (ofString string).Plain :=
  plain_map_scalar string.toList

@[simp] theorem plain_replicate (count : Nat) (character : Char) :
    Plain (List.replicate count (.scalar character)) := by
  intro point hpoint
  rw [List.eq_of_mem_replicate hpoint]
  rfl

theorem Plain.sublist (hplain : text.Plain) (hsublist : List.Sublist other text) : other.Plain :=
  fun point hpoint => hplain point (hsublist.subset hpoint)

theorem plain_joinWith {between : Text} (hbetween : between.Plain)
    (hparts : ∀ part ∈ parts, part.Plain) : (joinWith between parts).Plain :=
  forall_mem_joinWith hbetween hparts

@[simp] theorem plain_paddedHex (width value : Nat) : (paddedHex width value).Plain :=
  plain_append_iff.mpr ⟨plain_replicate _ _, plain_map_scalar _⟩

theorem plain_numericEscape (value : Nat) : (numericEscape value).Plain := by
  rw [numericEscape]
  split
  next => simp [CodePoint.backslash, CodePoint.isSurrogate]
  split
  next => simp [CodePoint.backslash, CodePoint.isSurrogate]
  next => simp [CodePoint.backslash, CodePoint.isSurrogate]

theorem isSurrogate_of_isPrintable (hprintable : point.isPrintable = true) :
    point.isSurrogate = false := by
  cases point with
  | scalar => rfl
  | surrogate offset =>
      have hrange : (0xD7FC, 0xF8FF) ∈ unprintableRanges := by decide +kernel
      rw [CodePoint.isPrintable, Bool.not_eq_true', List.any_eq_false] at hprintable
      have hoffset := offset.isLt
      have houtside := hprintable _ hrange
      rw [Bool.and_eq_true, decide_eq_true_eq, decide_eq_true_eq, CodePoint.toNat] at houtside
      omega

theorem plain_quotePoint {mark : CodePoint} (hmark : mark.isSurrogate = false)
    (point : CodePoint) : (quotePoint mark point).Plain := by
  have hescape {letter : CodePoint} (hletter : letter.isSurrogate = false) :
      Plain [.backslash, letter] :=
    plain_cons_iff.mpr ⟨rfl, plain_cons_iff.mpr ⟨hletter, plain_nil⟩⟩
  rw [quotePoint]
  split
  next hpoint =>
    rcases hpoint with rfl | rfl
    · exact hescape hmark
    · exact hescape rfl
  split
  next => exact hescape rfl
  split
  next => exact hescape rfl
  split
  next => exact hescape rfl
  split
  next hprintable =>
    exact plain_cons_iff.mpr ⟨isSurrogate_of_isPrintable hprintable, plain_nil⟩
  next => exact plain_numericEscape point.toNat

@[simp] theorem plain_quote (text : Text) : (quote text).Plain := by
  have hmark : (quotationMark text).isSurrogate = false := by
    rw [quotationMark]
    split
    next => rfl
    next => rfl
  have hbody : Plain (text.flatMap (quotePoint (quotationMark text))) := by
    intro point hpoint
    obtain ⟨own, -, hown⟩ := List.mem_flatMap.mp hpoint
    exact plain_quotePoint hmark own point hown
  rw [quote]
  simp [hmark, hbody]

@[simp] theorem plain_join_cons_iff :
    (join (text :: parts)).Plain ↔ text.Plain ∧ (join parts).Plain :=
  plain_append_iff

theorem plain_bracket {entries : List Text} (hentries : ∀ entry ∈ entries, entry.Plain) :
    (bracket entries).Plain := by
  have hjoined := plain_joinWith (plain_ofString ", ") hentries
  rw [bracket]
  simp [CodePoint.isSurrogate, hjoined]

end Text

namespace Binary64

variable {digits : Text}

@[simp] theorem plain_zeros (count : Int) : (zeros count).Plain :=
  Text.plain_replicate _ '0'

theorem plain_positional (hdigits : digits.Plain) (leading : Int) :
    (positional digits leading).Plain := by
  rw [positional]
  split
  next => simp [Text.join, hdigits]
  next =>
    have htake := hdigits.sublist (List.take_sublist (leading.toNat + 1) digits)
    have hdrop := hdigits.sublist (List.drop_sublist (leading.toNat + 1) digits)
    simp only [Text.plain_join_cons_iff, htake, plain_zeros, Text.plain_ofString, true_and]
    split
    next => simp [Text.join]
    next => simp [Text.join, hdrop]

theorem plain_withExponent (hdigits : digits.Plain) (leading : Int) :
    (withExponent digits leading).Plain := by
  have htake := hdigits.sublist (List.take_sublist 1 digits)
  have hdrop := hdigits.sublist (List.drop_sublist 1 digits)
  rw [withExponent]
  simp only [Text.plain_join_cons_iff, htake, true_and]
  refine ⟨?_, Text.plain_ofString _, ?_, plain_zeros _, Text.plain_ofString _, Text.plain_nil⟩
  · split
    next => exact Text.plain_nil
    next => exact Text.plain_append_iff.mpr ⟨Text.plain_ofString _, hdrop⟩
  · split
    next => exact Text.plain_ofString _
    next => exact Text.plain_ofString _

theorem plain_digitTexts (decimal : Decimal) : decimal.digitTexts.1.Plain := by
  rw [Decimal.digitTexts]
  exact Text.plain_map_scalar _

@[simp] theorem plain_format (value : Binary64) : value.format.Plain := by
  cases value with
  | notANumber => exact Text.plain_ofString _
  | infinite negative =>
      rw [format]
      split
      next => exact Text.plain_ofString _
      next => exact Text.plain_ofString _
  | finite negative mantissa exponent =>
      have hsign : Text.Plain (if negative then Text.ofString "-" else Text.ofString "") := by
        split
        next => exact Text.plain_ofString _
        next => exact Text.plain_ofString _
      have hdigits := plain_digitTexts (Decimal.shortest mantissa exponent)
      rw [format]
      split
      next => exact Text.plain_append_iff.mpr ⟨hsign, Text.plain_ofString _⟩
      next =>
        generalize (Decimal.shortest mantissa exponent).digitTexts = texts at hdigits
        obtain ⟨digits, leading⟩ := texts
        dsimp only
        split
        next => exact Text.plain_append_iff.mpr ⟨hsign, plain_positional hdigits _⟩
        next => exact Text.plain_append_iff.mpr ⟨hsign, plain_withExponent hdigits _⟩

end Binary64

namespace Json

mutual

theorem plain_display (json : Json) : json.display.Plain := by
  cases json with
  | null => exact Text.plain_ofString _
  | bool value =>
      rw [display]
      split
      next => exact Text.plain_ofString _
      next => exact Text.plain_ofString _
  | int value => exact Text.plain_ofString _
  | float value => exact value.plain_format
  | text value => exact Text.plain_quote value
  | array items => exact Text.plain_bracket (plain_displayItems items)
  | object members =>
      have hjoined := Text.plain_joinWith (Text.plain_ofString ", ") (plain_displayMembers members)
      rw [display]
      simp [CodePoint.isSurrogate, hjoined]

theorem plain_displayItems (items : List Json) : ∀ part ∈ displayItems items, part.Plain := by
  cases items with
  | nil => exact fun _ hmem => nomatch hmem
  | cons item rest =>
      rw [displayItems]
      exact List.forall_mem_cons.mpr ⟨plain_display item, plain_displayItems rest⟩

theorem plain_displayMembers (members : List (Text × Json)) :
    ∀ part ∈ displayMembers members, part.Plain := by
  cases members with
  | nil => exact fun _ hmem => nomatch hmem
  | cons member rest =>
      obtain ⟨name, value⟩ := member
      rw [displayMembers]
      refine List.forall_mem_cons.mpr ⟨?_, plain_displayMembers rest⟩
      have hvalue := plain_display value
      simp [hvalue, Text.join]

end

end Json

end KeyLayout
