import KeyLayout.Text.Utf8

namespace KeyLayout.Utf8

/-! What is encoded is decoded to the same text, what is decoded is encoded in the same
bytes, and only surrogates cannot be encoded. -/

variable {value : Nat} {text : Text} {bytes : List UInt8}

/-- The first byte announces the others, and together they stand for the value. -/
structure StandsFor (byte : UInt8) (following : List UInt8) (lead : Lead) (value : Nat) :
    Prop where
  lead_eq : Lead.ofByte? byte = some lead
  length_eq : following.length = lead.count
  continuation_eq : ∀ rest,
    continuation lead.count lead.low lead.high (following ++ rest) = following
  combine_eq : lead.combine following = value

theorem StandsFor.decodeFrom_append {byte : UInt8} {following : List UInt8} {lead : Lead}
    (hstands : StandsFor byte following lead value) (position : Nat) (rest : List UInt8) :
    decodeFrom position (byte :: following ++ rest) =
      (CodePoint.scalar (Char.ofNat value) :: ·) <$>
        decodeFrom (position + 1 + lead.count) rest := by
  obtain ⟨hlead, hlength, hcontinuation, hcombine⟩ := hstands
  rw [List.cons_append, decodeFrom, hlead]
  dsimp only
  rw [hcontinuation, if_pos hlength, hcombine, ← hlength, List.drop_left]

theorem continuation_cons {count low high : Nat} {byte : UInt8} {rest : List UInt8}
    (hlow : low ≤ byte.toNat) (hhigh : byte.toNat ≤ high) :
    continuation (count + 1) low high (byte :: rest) =
      byte :: continuation count 0x80 0xBF rest :=
  if_pos ⟨hlow, hhigh⟩

/-- A byte that continues a character carries six bits. -/
def continuing (value place : Nat) : UInt8 :=
  UInt8.ofNat (0x80 + value / place % 64)

theorem toNat_continuing (value place : Nat) :
    (continuing value place).toNat = 0x80 + value / place % 64 :=
  UInt8.toNat_ofNat_of_lt' (show _ < 256 by omega)

theorem continuation_continuing (count value place : Nat) (rest : List UInt8) :
    continuation (count + 1) 0x80 0xBF (continuing value place :: rest) =
      continuing value place :: continuation count 0x80 0xBF rest := by
  have hbyte := toNat_continuing value place
  exact continuation_cons (by omega) (by omega)

theorem stands_one (hvalue : value < 0x80) :
    StandsFor (UInt8.ofNat value) [] ⟨value, 0, 0x80, 0xBF⟩ value where
  lead_eq := by
    have hbyte : (UInt8.ofNat value).toNat = value := UInt8.toNat_ofNat_of_lt' (show _ < 256 by omega)
    rw [Lead.ofByte?, hbyte, if_pos hvalue]
  length_eq := rfl
  continuation_eq _ := rfl
  combine_eq := rfl

theorem stands_two (hlow : 0x80 ≤ value) (hhigh : value < 0x800) :
    StandsFor (UInt8.ofNat (0xC0 + value / 64)) [continuing value 1]
      ⟨value / 64, 1, 0x80, 0xBF⟩ value where
  lead_eq := by
    have hbyte : (UInt8.ofNat (0xC0 + value / 64)).toNat = 0xC0 + value / 64 :=
      UInt8.toNat_ofNat_of_lt' (show _ < 256 by omega)
    rw [Lead.ofByte?, hbyte, if_neg (by omega), if_neg (by omega), if_pos (by omega),
      Nat.add_sub_cancel_left]
  length_eq := rfl
  continuation_eq rest := continuation_continuing 0 value 1 rest
  combine_eq := by
    simp only [Lead.combine, List.foldl_cons, List.foldl_nil, toNat_continuing]
    omega

/-- The first of three bytes; the range of the second one depends on it. -/
def leadOfThree (value : Nat) : Lead where
  value := value / 4096
  count := 2
  low := if value / 4096 = 0 then 0xA0 else 0x80
  high := if value / 4096 = 0xD then 0x9F else 0xBF

theorem ofByte?_three (hvalue : value < 0x10000) :
    Lead.ofByte? (UInt8.ofNat (0xE0 + value / 4096)) = some (leadOfThree value) := by
  have hbyte : (UInt8.ofNat (0xE0 + value / 4096)).toNat = 0xE0 + value / 4096 :=
    UInt8.toNat_ofNat_of_lt' (show _ < 256 by omega)
  rw [Lead.ofByte?, hbyte, if_neg (by omega), if_neg (by omega), if_neg (by omega), leadOfThree]
  by_cases hfirst : value / 4096 = 0
  · rw [hfirst]
    rfl
  by_cases hsurrogates : value / 4096 = 0xD
  · rw [hsurrogates]
    rfl
  rw [if_neg (by omega), if_neg (by omega), if_pos (by omega), if_neg hfirst,
    if_neg hsurrogates, Nat.add_sub_cancel_left]

theorem stands_three (hlow : 0x800 ≤ value) (hhigh : value < 0x10000)
    (hscalar : value < 0xD800 ∨ 0xDFFF < value) :
    StandsFor (UInt8.ofNat (0xE0 + value / 4096)) [continuing value 64, continuing value 1]
      (leadOfThree value) value where
  lead_eq := ofByte?_three hhigh
  length_eq := rfl
  continuation_eq rest := by
    have hbyte := toNat_continuing value 64
    have hrange : (leadOfThree value).low ≤ (continuing value 64).toNat ∧
        (continuing value 64).toNat ≤ (leadOfThree value).high := by
      rw [hbyte, leadOfThree]
      dsimp only
      split <;> split <;> omega
    rw [leadOfThree] at hrange ⊢
    rw [List.cons_append, continuation_cons hrange.1 hrange.2]
    exact congrArg _ (continuation_continuing 0 value 1 rest)
  combine_eq := by
    simp only [Lead.combine, leadOfThree, List.foldl_cons, List.foldl_nil, toNat_continuing]
    omega

/-- The first of four bytes; the range of the second one depends on it. -/
def leadOfFour (value : Nat) : Lead where
  value := value / 262144
  count := 3
  low := if value / 262144 = 0 then 0x90 else 0x80
  high := if value / 262144 = 4 then 0x8F else 0xBF

theorem ofByte?_four (hvalue : value < 0x110000) :
    Lead.ofByte? (UInt8.ofNat (0xF0 + value / 262144)) = some (leadOfFour value) := by
  have hbyte : (UInt8.ofNat (0xF0 + value / 262144)).toNat = 0xF0 + value / 262144 :=
    UInt8.toNat_ofNat_of_lt' (show _ < 256 by omega)
  rw [Lead.ofByte?, hbyte, if_neg (by omega), if_neg (by omega), if_neg (by omega),
    if_neg (by omega), if_neg (by omega), if_neg (by omega), leadOfFour]
  by_cases hfirst : value / 262144 = 0
  · rw [hfirst]
    rfl
  by_cases hlast : value / 262144 = 4
  · rw [hlast]
    rfl
  rw [if_neg (by omega), if_pos (by omega), if_neg hfirst, if_neg hlast,
    Nat.add_sub_cancel_left]

theorem stands_four (hlow : 0x10000 ≤ value) (hhigh : value < 0x110000) :
    StandsFor (UInt8.ofNat (0xF0 + value / 262144))
      [continuing value 4096, continuing value 64, continuing value 1] (leadOfFour value)
      value where
  lead_eq := ofByte?_four hhigh
  length_eq := rfl
  continuation_eq rest := by
    have hbyte := toNat_continuing value 4096
    have hrange : (leadOfFour value).low ≤ (continuing value 4096).toNat ∧
        (continuing value 4096).toNat ≤ (leadOfFour value).high := by
      rw [hbyte, leadOfFour]
      dsimp only
      split <;> split <;> omega
    rw [leadOfFour] at hrange ⊢
    rw [List.cons_append, continuation_cons hrange.1 hrange.2, List.cons_append,
      continuation_continuing]
    exact congrArg _ (congrArg _ (continuation_continuing 0 value 1 rest))
  combine_eq := by
    simp only [Lead.combine, leadOfFour, List.foldl_cons, List.foldl_nil, toNat_continuing]
    omega

theorem exists_standsFor (hvalid : value.isValidChar) :
    ∃ byte following lead, encodeScalar value = byte :: following ∧
      StandsFor byte following lead value := by
  have hrange : value < 0xD800 ∨ 0xDFFF < value ∧ value < 0x110000 := hvalid
  rw [encodeScalar]
  dsimp only
  split
  next hone => exact ⟨_, _, _, by simp, stands_one hone⟩
  split
  next htwo => exact ⟨_, _, _, rfl, stands_two (by omega) htwo⟩
  split
  next hthree => exact ⟨_, _, _, rfl, stands_three (by omega) hthree (by omega)⟩
  next => exact ⟨_, _, _, rfl, stands_four (by omega) (by omega)⟩

/-- A character is decoded whatever comes after it. -/
theorem decodeFrom_encodeScalar (character : Char) (position : Nat) (rest : List UInt8) :
    ∃ next, decodeFrom position (encodeScalar character.toNat ++ rest) =
      (CodePoint.scalar character :: ·) <$> decodeFrom next rest := by
  obtain ⟨byte, following, lead, hbytes, hstands⟩ :
      ∃ byte following lead, encodeScalar character.toNat = byte :: following ∧
        StandsFor byte following lead character.toNat := exists_standsFor character.valid
  refine ⟨position + 1 + lead.count, ?_⟩
  rw [hbytes, hstands.decodeFrom_append, Char.ofNat_toNat]

/-- Only a character at the front is encoded. -/
theorem exists_of_encodeFrom_cons {start : Nat} {point : CodePoint} {rest : Text}
    (hencode : encodeFrom start (point :: rest) = .ok bytes) :
    ∃ character others, point = .scalar character ∧ encodeFrom (start + 1) rest = .ok others ∧
      bytes = encodeScalar character.toNat ++ others := by
  cases point with
  | surrogate => contradiction
  | scalar character =>
      rw [encodeFrom] at hencode
      cases hrest : encodeFrom (start + 1) rest with
      | error =>
          rw [hrest] at hencode
          contradiction
      | ok others =>
          rw [hrest] at hencode
          cases hencode
          exact ⟨character, others, rfl, rfl, rfl⟩

theorem decodeFrom_of_encodeFrom {start position : Nat}
    (hencode : encodeFrom start text = .ok bytes) :
    decodeFrom position bytes = .ok text := by
  induction text generalizing start position bytes with
  | nil =>
      cases hencode
      rw [decodeFrom]
  | cons point rest ih =>
      obtain ⟨character, others, rfl, hrest, rfl⟩ := exists_of_encodeFrom_cons hencode
      obtain ⟨next, hdecode⟩ := decodeFrom_encodeScalar character position others
      rw [hdecode, ih hrest]
      rfl

theorem decode_of_encode (hencode : encode text = .ok bytes) : decode bytes = .ok text :=
  decodeFrom_of_encodeFrom hencode

theorem exists_encodeFrom (htext : ∀ point ∈ text, point.isSurrogate = false)
    (position : Nat) : ∃ bytes, encodeFrom position text = .ok bytes := by
  induction text generalizing position with
  | nil => exact ⟨[], rfl⟩
  | cons point rest ih =>
      obtain ⟨hpoint, hrest⟩ := List.forall_mem_cons.mp htext
      cases point with
      | surrogate => contradiction
      | scalar character =>
          obtain ⟨bytes, hbytes⟩ := ih hrest (position + 1)
          exact ⟨encodeScalar character.toNat ++ bytes, by rw [encodeFrom, hbytes]; rfl⟩

theorem exists_encode (htext : ∀ point ∈ text, point.isSurrogate = false) :
    ∃ bytes, encode text = .ok bytes :=
  exists_encodeFrom htext 0

theorem isSurrogate_of_encodeFrom {start : Nat} (hencode : encodeFrom start text = .ok bytes) :
    ∀ point ∈ text, point.isSurrogate = false := by
  induction text generalizing start bytes with
  | nil => exact fun _ hmem => nomatch hmem
  | cons point rest ih =>
      obtain ⟨character, others, rfl, hrest, -⟩ := exists_of_encodeFrom_cons hencode
      exact List.forall_mem_cons.mpr ⟨rfl, ih hrest⟩

theorem isSurrogate_of_encode (hencode : encode text = .ok bytes) :
    ∀ point ∈ text, point.isSurrogate = false :=
  isSurrogate_of_encodeFrom hencode

theorem length_encodeScalar_le (value : Nat) : (encodeScalar value).length ≤ 4 := by
  rw [encodeScalar]
  split
  next => exact Nat.le_of_ble_eq_true rfl
  split
  next => exact Nat.le_of_ble_eq_true rfl
  split
  next => exact Nat.le_of_ble_eq_true rfl
  next => exact Nat.le_refl 4

theorem length_encodeFrom_le {position : Nat} (hencode : encodeFrom position text = .ok bytes) :
    bytes.length ≤ 4 * text.length := by
  induction text generalizing position bytes with
  | nil =>
      cases hencode
      exact Nat.zero_le _
  | cons point rest ih =>
      obtain ⟨character, others, rfl, hrest, rfl⟩ := exists_of_encodeFrom_cons hencode
      have hscalar := length_encodeScalar_le character.toNat
      have hothers := ih hrest
      rw [List.length_append, List.length_cons]
      omega

theorem length_encode_le (hencode : encode text = .ok bytes) : bytes.length ≤ 4 * text.length :=
  length_encodeFrom_le hencode

/-! From bytes to text and back: what a first byte announces, and no other, is encoded again. -/

theorem ofNat_eq_of_toNat (byte : UInt8) (hvalue : value = byte.toNat) :
    UInt8.ofNat value = byte := by
  rw [hvalue, UInt8.ofNat_toNat]

theorem exists_of_length_continuation {count low high : Nat}
    (hlength : (continuation (count + 1) low high bytes).length = count + 1) :
    ∃ byte rest, bytes = byte :: rest ∧ low ≤ byte.toNat ∧ byte.toNat ≤ high ∧
      continuation (count + 1) low high bytes = byte :: continuation count 0x80 0xBF rest ∧
      (continuation count 0x80 0xBF rest).length = count := by
  cases bytes with
  | nil => contradiction
  | cons byte rest =>
      rw [continuation] at hlength ⊢
      split at hlength
      next hrange =>
        rw [if_pos hrange]
        exact ⟨byte, rest, rfl, hrange.1, hrange.2, rfl, Nat.succ.inj hlength⟩
      next => contradiction

theorem continuation_zero (low high : Nat) : continuation 0 low high bytes = [] := by
  cases bytes <;> rfl

theorem continuation_isPrefix (count low high : Nat) (bytes : List UInt8) :
    continuation count low high bytes <+: bytes := by
  induction count generalizing low high bytes with
  | zero =>
      rw [continuation_zero]
      exact List.nil_prefix
  | succ count ih =>
      cases bytes with
      | nil => exact List.nil_prefix
      | cons byte rest =>
          rw [continuation]
          split
          · exact List.cons_prefix_cons.mpr ⟨rfl, ih 0x80 0xBF rest⟩
          · exact List.nil_prefix

theorem toNat_ofNat (hvalid : value.isValidChar) : (Char.ofNat value).toNat = value := by
  rw [Char.ofNat, dif_pos hvalid]
  rfl

/-- The bytes are those of a character. -/
structure Spells (bytes : List UInt8) (value : Nat) : Prop where
  valid : value.isValidChar
  encode_eq : encodeScalar value = bytes

theorem spells_one {byte : UInt8} (hbyte : byte.toNat < 0x80) : Spells [byte] byte.toNat where
  valid := .inl (by omega)
  encode_eq := by
    rw [encodeScalar]
    simp only [hbyte, if_true]
    rw [ofNat_eq_of_toNat byte (by omega)]

theorem spells_two {first second : UInt8} (hfirst : 0xC2 ≤ first.toNat ∧ first.toNat < 0xE0)
    (hsecond : 0x80 ≤ second.toNat ∧ second.toNat ≤ 0xBF) :
    Spells [first, second] ((first.toNat - 0xC0) * 64 + (second.toNat - 0x80)) where
  valid := .inl (by omega)
  encode_eq := by
    rw [encodeScalar]
    dsimp only
    rw [if_neg (by omega), if_pos (by omega), ofNat_eq_of_toNat first (by omega),
      ofNat_eq_of_toNat second (by omega)]

theorem spells_three {first second third : UInt8}
    (hfirst : 0xE0 ≤ first.toNat ∧ first.toNat < 0xF0)
    (hsecond : 0x80 ≤ second.toNat ∧ second.toNat ≤ 0xBF)
    (hthird : 0x80 ≤ third.toNat ∧ third.toNat ≤ 0xBF)
    (hshort : first.toNat = 0xE0 → 0xA0 ≤ second.toNat)
    (hsurrogate : first.toNat = 0xED → second.toNat ≤ 0x9F) :
    Spells [first, second, third]
      (((first.toNat - 0xE0) * 64 + (second.toNat - 0x80)) * 64 + (third.toNat - 0x80)) where
  valid := by
    change _ < 0xD800 ∨ 0xDFFF < _ ∧ _ < 0x110000
    omega
  encode_eq := by
    rw [encodeScalar]
    dsimp only
    rw [if_neg (by omega), if_neg (by omega), if_pos (by omega),
      ofNat_eq_of_toNat first (by omega), ofNat_eq_of_toNat second (by omega),
      ofNat_eq_of_toNat third (by omega)]

theorem spells_four {first second third fourth : UInt8}
    (hfirst : 0xF0 ≤ first.toNat ∧ first.toNat ≤ 0xF4)
    (hsecond : 0x80 ≤ second.toNat ∧ second.toNat ≤ 0xBF)
    (hthird : 0x80 ≤ third.toNat ∧ third.toNat ≤ 0xBF)
    (hfourth : 0x80 ≤ fourth.toNat ∧ fourth.toNat ≤ 0xBF)
    (hshort : first.toNat = 0xF0 → 0x90 ≤ second.toNat)
    (hlast : first.toNat = 0xF4 → second.toNat ≤ 0x8F) :
    Spells [first, second, third, fourth]
      ((((first.toNat - 0xF0) * 64 + (second.toNat - 0x80)) * 64 + (third.toNat - 0x80)) * 64 +
        (fourth.toNat - 0x80)) where
  valid := by
    change _ < 0xD800 ∨ 0xDFFF < _ ∧ _ < 0x110000
    omega
  encode_eq := by
    rw [encodeScalar]
    dsimp only
    rw [if_neg (by omega), if_neg (by omega), if_neg (by omega),
      ofNat_eq_of_toNat first (by omega), ofNat_eq_of_toNat second (by omega),
      ofNat_eq_of_toNat third (by omega), ofNat_eq_of_toNat fourth (by omega)]

theorem exists_of_continuation_one {low high : Nat}
    (hlength : (continuation 1 low high bytes).length = 1) :
    ∃ second : UInt8, continuation 1 low high bytes = [second] ∧
      low ≤ second.toNat ∧ second.toNat ≤ high := by
  obtain ⟨second, rest, -, hlow, hhigh, heq, -⟩ := exists_of_length_continuation hlength
  exact ⟨second, by rw [heq, continuation_zero], hlow, hhigh⟩

theorem exists_of_continuation_two {low high : Nat}
    (hlength : (continuation 2 low high bytes).length = 2) :
    ∃ second third : UInt8, continuation 2 low high bytes = [second, third] ∧
      (low ≤ second.toNat ∧ second.toNat ≤ high) ∧ 0x80 ≤ third.toNat ∧ third.toNat ≤ 0xBF := by
  obtain ⟨second, rest, -, hlow, hhigh, heq, hrest⟩ := exists_of_length_continuation hlength
  obtain ⟨third, hthird, hrange⟩ := exists_of_continuation_one hrest
  exact ⟨second, third, by rw [heq, hthird], ⟨hlow, hhigh⟩, hrange⟩

theorem exists_of_continuation_three {low high : Nat}
    (hlength : (continuation 3 low high bytes).length = 3) :
    ∃ second third fourth : UInt8, continuation 3 low high bytes = [second, third, fourth] ∧
      (low ≤ second.toNat ∧ second.toNat ≤ high) ∧
      (0x80 ≤ third.toNat ∧ third.toNat ≤ 0xBF) ∧ 0x80 ≤ fourth.toNat ∧ fourth.toNat ≤ 0xBF := by
  obtain ⟨second, rest, -, hlow, hhigh, heq, hrest⟩ := exists_of_length_continuation hlength
  obtain ⟨third, fourth, hothers, hrange⟩ := exists_of_continuation_two hrest
  exact ⟨second, third, fourth, by rw [heq, hothers], ⟨hlow, hhigh⟩, hrange⟩

/-- What a byte announces, by the number of bytes that are to follow. -/
theorem Lead.cases_ofByte? {byte : UInt8} {lead : Lead} (hlead : Lead.ofByte? byte = some lead) :
    byte.toNat < 0x80 ∧ lead = ⟨byte.toNat, 0, 0x80, 0xBF⟩ ∨
      (0xC2 ≤ byte.toNat ∧ byte.toNat < 0xE0) ∧ lead = ⟨byte.toNat - 0xC0, 1, 0x80, 0xBF⟩ ∨
      (0xE0 ≤ byte.toNat ∧ byte.toNat < 0xF0) ∧
        lead = ⟨byte.toNat - 0xE0, 2, if byte.toNat = 0xE0 then 0xA0 else 0x80,
          if byte.toNat = 0xED then 0x9F else 0xBF⟩ ∨
      (0xF0 ≤ byte.toNat ∧ byte.toNat ≤ 0xF4) ∧
        lead = ⟨byte.toNat - 0xF0, 3, if byte.toNat = 0xF0 then 0x90 else 0x80,
          if byte.toNat = 0xF4 then 0x8F else 0xBF⟩ := by
  rw [Lead.ofByte?] at hlead
  grind

/-- What a first byte announces, followed by what it asks for, is a character. -/
theorem Lead.spells {byte : UInt8} {lead : Lead} (hlead : Lead.ofByte? byte = some lead)
    (hlength : (continuation lead.count lead.low lead.high bytes).length = lead.count) :
    Spells (byte :: continuation lead.count lead.low lead.high bytes)
      (lead.combine (continuation lead.count lead.low lead.high bytes)) := by
  rcases Lead.cases_ofByte? hlead with
    ⟨hfirst, rfl⟩ | ⟨hfirst, rfl⟩ | ⟨hfirst, rfl⟩ | ⟨hfirst, rfl⟩
  · rw [continuation_zero]
    exact spells_one hfirst
  · obtain ⟨second, heq, hsecond⟩ := exists_of_continuation_one hlength
    rw [heq]
    exact spells_two hfirst hsecond
  · obtain ⟨second, third, heq, hsecond, hthird⟩ := exists_of_continuation_two hlength
    rw [heq]
    apply spells_three hfirst _ hthird <;> grind
  · obtain ⟨second, third, fourth, heq, hsecond, hthird, hfourth⟩ :=
      exists_of_continuation_three hlength
    rw [heq]
    apply spells_four hfirst _ hthird hfourth <;> grind

theorem encodeFrom_of_decodeFrom {position start : Nat}
    (hdecode : decodeFrom position bytes = .ok text) : encodeFrom start text = .ok bytes := by
  fun_induction decodeFrom position bytes generalizing text start with
  | case1 =>
      cases hdecode
      rfl
  | case2 | case4 | case5 => contradiction
  | @case3 position byte rest lead hlead following hlength ih =>
      cases hothers : decodeFrom (position + 1 + lead.count) (rest.drop lead.count) with
      | error =>
          rw [hothers] at hdecode
          contradiction
      | ok others =>
          rw [hothers] at hdecode
          cases hdecode
          obtain ⟨hvalid, hspelled⟩ := Lead.spells hlead hlength
          have hprefix := continuation_isPrefix lead.count lead.low lead.high rest
          have hrest : following ++ rest.drop lead.count = rest := by
            rw [← hlength]
            exact List.prefix_iff_eq_append.mp hprefix
          rw [encodeFrom, toNat_ofNat hvalid, hspelled, ih hothers]
          exact congrArg (fun rest => Except.ok (byte :: rest)) hrest

theorem encode_of_decode (hdecode : decode bytes = .ok text) : encode text = .ok bytes :=
  encodeFrom_of_decodeFrom hdecode

end KeyLayout.Utf8
