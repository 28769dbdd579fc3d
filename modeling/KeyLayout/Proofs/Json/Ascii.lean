import KeyLayout.Files.Reading
import KeyLayout.Proofs.Json.Rereading
import KeyLayout.Proofs.Text.Plain

namespace KeyLayout

/-! JSON is written in ASCII, so that its bytes are its code points one by one. -/

/-- A line feed, or an ASCII character that is no control. -/
def CodePoint.IsGraphic (point : CodePoint) : Prop :=
  point = .scalar '\n' ∨ 0x20 ≤ point.toNat ∧ point.toNat < 0x7F

instance (point : CodePoint) : Decidable point.IsGraphic :=
  inferInstanceAs (Decidable (_ ∨ _))

namespace Text

/-- The text has only such code points. -/
def Graphic (text : Text) : Prop :=
  ∀ point ∈ text, point.IsGraphic

instance (text : Text) : Decidable text.Graphic :=
  inferInstanceAs (Decidable (∀ point ∈ text, point.IsGraphic))

variable {text other : Text} {point : CodePoint}

@[simp] theorem graphic_nil : Graphic [] :=
  List.forall_mem_nil _

@[simp] theorem graphic_cons_iff : Graphic (point :: text) ↔ point.IsGraphic ∧ text.Graphic :=
  List.forall_mem_cons

@[simp] theorem graphic_append_iff : Graphic (text ++ other) ↔ text.Graphic ∧ other.Graphic :=
  List.forall_mem_append

theorem isGraphic_of_isAsciiDigit (hdigit : point.isAsciiDigit = true) : point.IsGraphic := by
  obtain ⟨hlow, hhigh⟩ := Bool.and_eq_true_iff.mp hdigit
  have hlow := of_decide_eq_true hlow
  have hhigh := of_decide_eq_true hhigh
  exact .inr (by omega)

theorem graphic_ofNat (value : Nat) : (ofNat value).Graphic :=
  fun _ hpoint => isGraphic_of_isAsciiDigit (isAsciiDigit_of_mem_ofNat hpoint)

theorem graphic_ofInt (value : Int) : (ofInt value).Graphic := by
  cases value with
  | ofNat value => exact graphic_ofNat value
  | negSucc value =>
      rw [ofInt_negSucc]
      exact graphic_cons_iff.mpr ⟨by decide, graphic_ofNat _⟩

theorem graphic_hexOfNat (value : Nat) : (hexOfNat value).Graphic := by
  have hdigit : ∀ digit < 16, (CodePoint.scalar (Nat.digitChar digit)).IsGraphic := by decide
  induction value using Nat.strongRecOn with
  | ind value ih =>
      rw [hexOfNat]
      by_cases hvalue : value < 16
      · rw [Nat.toDigits_of_lt_base hvalue]
        exact graphic_cons_iff.mpr ⟨hdigit value hvalue, graphic_nil⟩
      · rw [Nat.toDigits_of_base_le (by decide) (Nat.le_of_not_lt hvalue), List.map_append]
        exact graphic_append_iff.mpr ⟨ih _ (by omega),
          graphic_cons_iff.mpr ⟨hdigit _ (Nat.mod_lt _ (by decide)), graphic_nil⟩⟩

theorem graphic_paddedHex (width value : Nat) : (paddedHex width value).Graphic := by
  refine graphic_append_iff.mpr ⟨fun point hpoint => ?_, graphic_hexOfNat value⟩
  rw [List.eq_of_mem_replicate hpoint]
  decide

theorem unifyNewlines_of_graphic (htext : text.Graphic) : unifyNewlines text = text := by
  induction text using unifyNewlines.induct with
  | case1 => rfl
  | case2 rest ih => exact absurd htext (by simp [CodePoint.IsGraphic, CodePoint.toNat])
  | case3 rest hnone ih => exact absurd htext (by simp [CodePoint.IsGraphic, CodePoint.toNat])
  | case4 point rest hcarriage hreturn ih =>
      rw [unifyNewlines.eq_4 _ _ hcarriage hreturn, ih (graphic_cons_iff.mp htext).2]

/-- Every code point as one byte. -/
def asciiBytes (text : Text) : List UInt8 :=
  text.map fun point => UInt8.ofNat point.toNat

theorem exists_of_isGraphic (hpoint : point.IsGraphic) :
    ∃ character, point = .scalar character ∧ character.toNat < 0x80 := by
  cases point with
  | scalar character =>
      refine ⟨character, rfl, ?_⟩
      rcases hpoint with heq | ⟨-, hhigh⟩
      · rw [CodePoint.scalar.inj heq]
        decide
      · exact Nat.lt_trans hhigh (by decide)
  | surrogate offset =>
      rcases hpoint with heq | ⟨-, hhigh⟩
      · contradiction
      · simp only [CodePoint.toNat] at hhigh
        omega

theorem encodeFrom_of_graphic (htext : text.Graphic) (position : Nat) :
    Utf8.encodeFrom position text = .ok (asciiBytes text) := by
  induction text generalizing position with
  | nil => rfl
  | cons point rest ih =>
      obtain ⟨hpoint, hrest⟩ := graphic_cons_iff.mp htext
      obtain ⟨character, rfl, hcharacter⟩ := exists_of_isGraphic hpoint
      have hone : Utf8.encodeScalar character.toNat = [UInt8.ofNat character.toNat] := by
        rw [Utf8.encodeScalar, if_pos hcharacter]
        dsimp only
        rw [Nat.zero_add, Nat.div_one]
      rw [Utf8.encodeFrom, ih hrest, hone]
      rfl

theorem ofFile_asciiBytes (htext : text.Graphic) : ofFile (asciiBytes text) = .ok text := by
  have hencode : Utf8.encode text = .ok (asciiBytes text) := encodeFrom_of_graphic htext 0
  rw [ofFile, Utf8.decode_of_encode hencode]
  exact congrArg Except.ok (unifyNewlines_of_graphic htext)

theorem plain_unifyNewlines (hplain : text.Plain) : (unifyNewlines text).Plain := by
  induction text using unifyNewlines.induct with
  | case1 => exact plain_nil
  | case2 rest ih =>
      exact plain_cons_iff.mpr ⟨rfl, ih (plain_cons_iff.mp (plain_cons_iff.mp hplain).2).2⟩
  | case3 rest hnone ih =>
      rw [unifyNewlines.eq_3 _ hnone]
      exact plain_cons_iff.mpr ⟨rfl, ih (plain_cons_iff.mp hplain).2⟩
  | case4 point rest hcarriage hreturn ih =>
      rw [unifyNewlines.eq_4 _ _ hcarriage hreturn]
      obtain ⟨hpoint, hrest⟩ := plain_cons_iff.mp hplain
      exact plain_cons_iff.mpr ⟨hpoint, ih hrest⟩

theorem plain_of_ofFile {bytes : List UInt8} (hfile : ofFile bytes = .ok text) : text.Plain := by
  rw [ofFile] at hfile
  cases hdecode : Utf8.decode bytes with
  | error error =>
      rw [hdecode] at hfile
      contradiction
  | ok own =>
      rw [hdecode] at hfile
      cases hfile
      exact plain_unifyNewlines (Utf8.isSurrogate_of_encode (Utf8.encode_of_decode hdecode))

end Text

namespace Json

open Text (Graphic graphic_nil graphic_cons_iff graphic_append_iff)

variable {room : Nat} {json : Json} {items : List Json} {members : List (Text × Json)}

theorem graphic_unitEscape (unit : Nat) : (unitEscape unit).Graphic := by
  rw [unitEscape]
  simp only [graphic_cons_iff, Text.graphic_paddedHex, and_true]
  decide

theorem isGraphic_of_namedEscape? {letter point : CodePoint}
    (hnamed : namedEscape? letter = some point) : letter.IsGraphic := by
  unfold namedEscape? at hnamed
  split at hnamed <;> first | contradiction | decide

theorem graphic_codePointEscape (value : Nat) : (codePointEscape value).Graphic := by
  rw [codePointEscape]
  split
  next => exact graphic_unitEscape _
  next => exact graphic_append_iff.mpr ⟨graphic_unitEscape _, graphic_unitEscape _⟩

theorem graphic_escapePoint (point : CodePoint) : (escapePoint point).Graphic := by
  rcases escapePoint_cases point with
    ⟨letter, hnamed, hwritten⟩ | ⟨-, -, hlow, hhigh, hwritten⟩ | hwritten
  · rw [hwritten, graphic_cons_iff, graphic_cons_iff]
    exact ⟨by decide, isGraphic_of_namedEscape? hnamed, graphic_nil⟩
  · rw [hwritten]
    exact graphic_cons_iff.mpr ⟨.inr ⟨hlow, hhigh⟩, graphic_nil⟩
  · rw [hwritten]
    exact graphic_codePointEscape _

theorem graphic_writeText (text : Text) : (writeText text).Graphic := by
  have hbody : Graphic (text.flatMap escapePoint) := by
    intro point hpoint
    obtain ⟨own, -, hown⟩ := List.mem_flatMap.mp hpoint
    exact graphic_escapePoint own point hown
  rw [writeText]
  simp only [graphic_append_iff, graphic_cons_iff, hbody, graphic_nil]
  decide

theorem graphic_newLine (depth : Nat) : (newLine depth).Graphic := by
  refine graphic_cons_iff.mpr ⟨by decide, fun point hpoint => ?_⟩
  rw [List.eq_of_mem_replicate hpoint]
  decide

theorem graphic_enclose {opening closing : CodePoint} {parts : List Text}
    (hopening : opening.IsGraphic) (hclosing : closing.IsGraphic)
    (hparts : ∀ part ∈ parts, part.Graphic) (depth : Nat) :
    (enclose depth opening closing parts).Graphic := by
  have hcomma : (CodePoint.scalar ',').IsGraphic := by decide
  have hjoined := Text.forall_mem_joinWith
    (graphic_cons_iff.mpr ⟨hcomma, graphic_newLine (depth + 1)⟩) hparts
  rw [enclose]
  split
  next => simp [hopening, hclosing]
  next =>
    simp only [graphic_append_iff, graphic_cons_iff, hopening, hclosing, graphic_newLine,
      graphic_nil, and_self, true_and, and_true]
    exact hjoined

theorem mem_writeItems {depth : Nat} {part : Text} (hpart : part ∈ writeItems depth items) :
    ∃ item ∈ items, part = write depth item := by
  induction items with
  | nil => contradiction
  | cons item rest ih =>
      rcases List.mem_cons.mp hpart with heq | hrest
      · exact ⟨item, List.mem_cons_self .., heq⟩
      · obtain ⟨own, hown, heq⟩ := ih hrest
        exact ⟨own, List.mem_cons_of_mem _ hown, heq⟩

theorem mem_writeMembers {depth : Nat} {part : Text}
    (hpart : part ∈ writeMembers depth members) :
    ∃ member ∈ members, part = writeMember depth member := by
  induction members with
  | nil => contradiction
  | cons member rest ih =>
      rcases List.mem_cons.mp hpart with heq | hrest
      · exact ⟨member, List.mem_cons_self .., heq⟩
      · obtain ⟨own, hown, heq⟩ := ih hrest
        exact ⟨own, List.mem_cons_of_mem _ hown, heq⟩

theorem Lasting.graphic_write (hlasting : Lasting room json) (depth : Nat) :
    (write depth json).Graphic := by
  induction hlasting generalizing depth with
  | null =>
      rw [write]
      decide
  | @bool _ value =>
      rw [write]
      cases value <;> decide
  | int => exact Text.graphic_ofInt _
  | text => exact graphic_writeText _
  | array hitems ih =>
      refine graphic_enclose (by decide) (by decide) (fun part hpart => ?_) depth
      obtain ⟨item, hitem, rfl⟩ := mem_writeItems hpart
      exact ih item hitem (depth + 1)
  | object hnodup hnames hmembers ih =>
      refine graphic_enclose (by decide) (by decide) (fun part hpart => ?_) depth
      obtain ⟨member, hmember, rfl⟩ := mem_writeMembers hpart
      have hvalue := ih member hmember (depth + 1)
      have hcolon : Graphic (Text.ofString ": ") := by decide
      rw [writeMember, Text.join]
      simp [graphic_writeText, hvalue, hcolon]

end Json

end KeyLayout
