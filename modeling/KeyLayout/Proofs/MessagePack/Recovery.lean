import KeyLayout.MessagePack.Reader
import KeyLayout.MessagePack.Writer
import KeyLayout.Proofs.Outcome
import KeyLayout.Proofs.Text.Utf8
import Mathlib.Algebra.Group.Int.Defs
import Mathlib.Algebra.Group.Nat.Defs

namespace KeyLayout.MessagePack

/-! What is written is read back, whatever bytes come after it, unless a value in it is refused. -/

section Bytes

theorem takeBytes_append (bytes rest : List UInt8) :
    takeBytes bytes.length (bytes ++ rest) = .ok (bytes, rest) := by
  induction bytes with
  | nil => rfl
  | cons byte bytes ih =>
      rw [List.length_cons, List.cons_append, takeBytes, ih]
      rfl

theorem length_bigEndian (width value : Nat) :
    (Written.bigEndian width value).length = width := by
  induction width with
  | zero => rfl
  | succ width ih => rw [Written.bigEndian, List.length_cons, ih]

theorem foldl_bigEndian (width value total : Nat) :
    (Written.bigEndian width value).foldl (fun total byte => total * 256 + byte.toNat) total =
      total * 256 ^ width + value % 256 ^ width := by
  induction width generalizing total with
  | zero => simp [Written.bigEndian, Nat.mod_one]
  | succ width ih =>
      have hbyte : (UInt8.ofNat (value / 256 ^ width)).toNat = value / 256 ^ width % 256 :=
        UInt8.toNat_ofNat'
      have hmod : value % 256 ^ (width + 1) =
          value % 256 ^ width + 256 ^ width * (value / 256 ^ width % 256) :=
        Nat.mod_mul
      calc (Written.bigEndian (width + 1) value).foldl _ total
          = (total * 256 + value / 256 ^ width % 256) * 256 ^ width + value % 256 ^ width := by
            rw [Written.bigEndian, List.foldl_cons, ih]
            exact congrArg (fun byte => (total * 256 + byte) * _ + _) hbyte
        _ = total * 256 ^ (width + 1) + value % 256 ^ (width + 1) := by
            rw [hmod, Nat.pow_succ, Nat.add_mul, Nat.mul_assoc, Nat.mul_comm 256,
              Nat.mul_comm (value / 256 ^ width % 256), Nat.add_assoc,
              Nat.add_comm (256 ^ width * _)]

theorem ofBigEndian_bigEndian {width value : Nat} (hvalue : value < 256 ^ width) :
    ofBigEndian (Written.bigEndian width value) = value := by
  rw [ofBigEndian, foldl_bigEndian, Nat.zero_mul, Nat.zero_add, Nat.mod_eq_of_lt hvalue]

theorem headNumber_bigEndian {width value : Nat} (hvalue : value < 256 ^ width)
    (make : Nat → Head) (rest : List UInt8) :
    headNumber width make (Written.bigEndian width value ++ rest) = .ok (make value, rest) := by
  have htake := takeBytes_append (Written.bigEndian width value) rest
  rw [length_bigEndian] at htake
  rw [headNumber, htake]
  exact congrArg (fun number => Except.ok (make number, rest)) (ofBigEndian_bigEndian hvalue)

end Bytes

/-- Something that is read from the front of some bytes. -/
abbrev Read (α : Type) := List UInt8 → Except ReadFault (α × List UInt8)

/-- What is read first decides how the rest is read. -/
def Read.andThen {α β : Type} (read : Read α) (next : α → Read β) : Read β := fun bytes => do
  let (value, rest) ← read bytes
  next value rest

/-- A reader of items that reads something from each. -/
theorem read_andThen {α β : Type} (reader : Reader α) (next : α → Read β) :
    Reader.read (fun head => Read.andThen (reader head) next) = Read.andThen reader.read next := by
  funext bytes
  rw [Reader.read, Read.andThen, Reader.read]
  cases readHead bytes <;> rfl

/-- Reads the value from whatever was written, and leaves the bytes after it.  Only where a value
may be refused can the reading end before. -/
def Undoes {α : Type} (refused : Prop) (read : Read α) (written : Written) (value : α) : Prop :=
  ∀ bytes, written = .ok bytes → ∀ rest,
    read (bytes ++ rest) = .ok (value, rest) ∨ refused ∧ read (bytes ++ rest) = .error .invalid

namespace Written

variable {first second third : Written} {bytes : List UInt8}

theorem append_eq_ok_iff :
    append first second = .ok bytes ↔
      ∃ opening others, first = .ok opening ∧ second = .ok others ∧
        bytes = opening ++ others := by
  cases first with
  | error => simp [append, bind, Except.bind]
  | ok opening =>
      cases second with
      | error => simp [append, bind, Except.bind]
      | ok others => simp [append, bind, Except.bind, pure, Except.pure, eq_comm]

theorem append_assoc : append (append first second) third = append first (append second third) := by
  cases first <;> cases second <;> cases third <;>
    simp [append, bind, Except.bind, pure, Except.pure]

theorem append_nil (first : Written) : append first (.ok []) = first := by
  cases first <;> simp [append, bind, Except.bind, pure, Except.pure]

end Written

namespace Undoes

variable {α β : Type} {refused : Prop} {read : Read α} {next : α → Read β}
  {first second : Written} {value : α} {result : β}

/-- What is written in two parts is read in two steps. -/
theorem append (hfirst : Undoes refused read first value)
    (hsecond : Undoes refused (next value) second result) :
    Undoes refused (read.andThen next) (first.append second) result := by
  intro bytes hbytes rest
  obtain ⟨opening, others, hopening, hothers, rfl⟩ := Written.append_eq_ok_iff.mp hbytes
  rw [List.append_assoc, Read.andThen]
  rcases hfirst opening hopening (others ++ rest) with hread | ⟨hrefused, hread⟩
  · rw [hread]
    exact hsecond others hothers rest
  · rw [hread]
    exact .inr ⟨hrefused, rfl⟩

theorem ok {bytes : List UInt8} (hread : ∀ rest, read (bytes ++ rest) = .ok (value, rest)) :
    Undoes refused read (.ok bytes) value := by
  intro own hown rest
  cases hown
  exact .inl (hread rest)

theorem refuse {bytes : List UInt8} (hrefused : refused)
    (hread : ∀ rest, read (bytes ++ rest) = .error .invalid) :
    Undoes refused read (.ok bytes) value := by
  intro own hown rest
  cases hown
  exact .inr ⟨hrefused, hread rest⟩

/-- A second step may read nothing more. -/
theorem followed (hfirst : Undoes refused read first value)
    (hnext : Undoes refused (next value) (.ok []) result) :
    Undoes refused (read.andThen next) first result := by
  rw [← Written.append_nil first]
  exact hfirst.append hnext

theorem read_eq (hread : Undoes False read first value) {bytes : List UInt8}
    (hbytes : first = .ok bytes) (rest : List UInt8) : read (bytes ++ rest) = .ok (value, rest) :=
  (hread bytes hbytes rest).resolve_right fun hrefused => hrefused.1

end Undoes

section Heads

variable {refused : Prop} {fault : WriteFault} {start bound value length : Nat}
  {forms : List (UInt8 × Nat)}

theorem cases_shortest {bytes : List UInt8}
    (hbytes : Written.shortest fault start bound forms value = .ok bytes) :
    value < bound ∧ bytes = [UInt8.ofNat (start + value)] ∨
      ∃ form ∈ forms, value < 256 ^ form.2 ∧
        bytes = form.1 :: Written.bigEndian form.2 value := by
  rw [Written.shortest] at hbytes
  split at hbytes
  next hvalue =>
    cases hbytes
    exact .inl ⟨hvalue, rfl⟩
  split at hbytes
  next mark width hfind =>
    cases hbytes
    have hwidth : value < 256 ^ width := of_decide_eq_true (List.find?_some hfind :)
    exact .inr ⟨_, List.mem_of_find?_eq_some hfind, hwidth, rfl⟩
  next => contradiction

theorem undoes_shortest (make : Nat → Head)
    (hshort : ∀ number < bound, ∀ rest,
      readHead (UInt8.ofNat (start + number) :: rest) = .ok (make number, rest))
    (hforms : ∀ form ∈ forms, ∀ rest,
      readHead (form.1 :: rest) = headNumber form.2 make rest) :
    Undoes refused readHead (Written.shortest fault start bound forms value) (make value) := by
  intro bytes hbytes rest
  rcases cases_shortest hbytes with ⟨hvalue, rfl⟩ | ⟨form, hform, hvalue, rfl⟩
  · exact .inl (hshort value hvalue rest)
  · rw [List.cons_append, hforms form hform]
    exact .inl (headNumber_bigEndian hvalue make rest)

theorem toNat_byte {number : Nat} (hnumber : number < 256) :
    (UInt8.ofNat number).toNat = number :=
  UInt8.toNat_ofNat_of_lt' hnumber

theorem undoes_natural : Undoes refused readHead (Written.natural value) (.int value) := by
  refine undoes_shortest (fun number => .int number) (fun number hnumber rest => ?_) ?_
  · rw [Nat.zero_add, readHead, toNat_byte (by omega), if_pos hnumber]
  · simp only [List.forall_mem_cons]
    exact ⟨fun _ => rfl, fun _ => rfl, fun _ => rfl, fun _ => rfl, by simp⟩

/-- A number below zero is written in two's complement. -/
theorem headNumber_signed (width : Nat) (hvalue : value < 2 ^ (8 * width - 1)) (hwidth : 0 < width)
    (rest : List UInt8) :
    headNumber width (signed width) (Written.bigEndian width (256 ^ width - 1 - value) ++ rest) =
      .ok (.int (.negSucc value), rest) := by
  have hbytes : 256 ^ width = 2 * 2 ^ (8 * width - 1) := by
    rw [← Nat.pow_succ', show (256 : Nat) = 2 ^ 8 from rfl, ← Nat.pow_mul]
    congr 1
    omega
  have hbits : Nat.pow 2 (8 * width) = 256 ^ width := Nat.pow_mul 2 8 width
  have hhigh : ¬256 ^ width - 1 - value < Nat.pow 2 (8 * width - 1) := by
    change ¬_ < 2 ^ (8 * width - 1)
    omega
  rw [headNumber_bigEndian (by omega), signed, if_neg hhigh, hbits, Int.negSucc_eq]
  congr 3
  omega

theorem undoes_negative :
    Undoes refused readHead (Written.negative value) (.int (.negSucc value)) := by
  rw [Written.negative]
  split
  next hvalue =>
    refine .ok fun rest => ?_
    rw [List.singleton_append, readHead, toNat_byte (by omega), if_neg (by omega),
      if_neg (by omega), if_neg (by omega), if_neg (by omega), if_pos (by omega), Int.negSucc_eq]
    congr 3
    omega
  split
  next hvalue => exact .ok (headNumber_signed 1 hvalue (by decide))
  split
  next hvalue => exact .ok (headNumber_signed 2 hvalue (by decide))
  split
  next hvalue => exact .ok (headNumber_signed 4 hvalue (by decide))
  split
  next hvalue => exact .ok (headNumber_signed 8 hvalue (by decide))
  next =>
    intro bytes hbytes
    contradiction

theorem undoes_intHead (value : Int) : Undoes refused readHead (Written.int value) (.int value) := by
  cases value with
  | ofNat value => exact undoes_natural
  | negSucc value => exact undoes_negative

theorem undoes_textHead : Undoes refused readHead (Written.textHead length) (.text length) := by
  refine undoes_shortest .text (fun number hnumber rest => ?_) ?_
  · rw [readHead, toNat_byte (by omega), if_neg (by omega), if_neg (by omega), if_neg (by omega),
      if_pos (by omega), Nat.add_sub_cancel_left]
  · simp only [List.forall_mem_cons]
    exact ⟨fun _ => rfl, fun _ => rfl, fun _ => rfl, by simp⟩

theorem undoes_arrayHead :
    Undoes refused readHead (Written.arrayHead length) (.array length) := by
  refine undoes_shortest .array (fun number hnumber rest => ?_) ?_
  · rw [readHead, toNat_byte (by omega), if_neg (by omega), if_neg (by omega), if_pos (by omega),
      Nat.add_sub_cancel_left]
  · simp only [List.forall_mem_cons]
    exact ⟨fun _ => rfl, fun _ => rfl, by simp⟩

theorem undoes_mapHead : Undoes refused readHead (Written.mapHead length) (.map length) := by
  refine undoes_shortest .map (fun number hnumber rest => ?_) ?_
  · rw [readHead, toNat_byte (by omega), if_neg (by omega), if_pos (by omega),
      Nat.add_sub_cancel_left]
  · simp only [List.forall_mem_cons]
    exact ⟨fun _ => rfl, fun _ => rfl, by simp⟩

end Heads

section Readers

variable {α β : Type} {refused : Prop} {reader : Reader α} {write : α → Written}
  {valueReader : Reader β} {writeValue : β → Written}

/-- An integer is refused only if the condition does not hold of it. -/
theorem undoes_int {accept : Int → Bool} {value : Int}
    (haccept : refused ∨ accept value = true) :
    Undoes refused (Reader.int accept).read (Written.int value) value := by
  refine (undoes_intHead value).followed ?_
  by_cases hvalue : accept value = true
  · exact .ok fun _ => if_pos hvalue
  · exact .refuse (haccept.resolve_right hvalue) fun _ => if_neg hvalue

theorem undoes_bool (value : Bool) :
    Undoes refused Reader.bool.read (.ok (Written.bool value)) value := by
  refine .ok fun rest => ?_
  cases value <;> rfl

theorem text_append {text : Text} {encoded : List UInt8} (hencode : Utf8.encode text = .ok encoded)
    (rest : List UInt8) :
    Reader.text (.text encoded.length) (encoded ++ rest) = .ok (text, rest) := by
  rw [Reader.text, takeBytes_append]
  dsimp only [bind, Except.bind]
  rw [Utf8.decode_of_encode hencode]

theorem undoes_text (text : Text) : Undoes refused Reader.text.read (Written.text text) text := by
  rw [Written.text]
  cases hencode : Utf8.encode text with
  | error error =>
      intro bytes hbytes
      contradiction
  | ok encoded =>
      exact undoes_textHead.append (.ok fun rest => text_append hencode rest)

theorem character_eq :
    Reader.character = fun head => Read.andThen (Reader.text head) fun text bytes =>
      match text with
      | [point] => .ok (point, bytes)
      | _ => .error .invalid :=
  rfl

theorem undoes_character (point : CodePoint) :
    Undoes refused Reader.character.read (Written.text [point]) point := by
  rw [character_eq, read_andThen]
  exact (undoes_text [point]).followed (.ok fun _ => rfl)

/-- What is written does not begin as nothing does. -/
def Written.Present (written : Written) : Prop :=
  ∀ bytes, written = .ok bytes → ∀ rest held, readHead (bytes ++ rest) ≠ .ok (.nil, held)

theorem present_int (value : Int) : (Written.int value).Present := by
  intro bytes hbytes rest held hnil
  rw [(undoes_intHead value).read_eq hbytes] at hnil
  cases hnil

theorem present_text (text : Text) : (Written.text text).Present := by
  intro bytes hbytes rest held hnil
  rw [Written.text] at hbytes
  cases hencode : Utf8.encode text with
  | error error =>
      rw [hencode] at hbytes
      contradiction
  | ok encoded =>
      rw [hencode] at hbytes
      obtain ⟨opening, others, hopening, -, rfl⟩ := Written.append_eq_ok_iff.mp hbytes
      rw [List.append_assoc, undoes_textHead.read_eq hopening] at hnil
      cases hnil

theorem undoes_option {value : Option α} (hpresent : ∀ own ∈ value, (write own).Present)
    (hvalue : ∀ own ∈ value, Undoes refused reader.read (write own) own) :
    Undoes refused (Reader.option reader).read (Written.option write value) value := by
  cases value with
  | none => exact .ok fun _ => rfl
  | some own =>
      intro bytes hbytes rest
      have hown : Undoes refused (Read.andThen reader.read fun value rest => .ok (some value, rest))
          (write own) (some own) :=
        (hvalue own rfl).followed (.ok fun _ => rfl)
      -- a head that is not nil leaves the choice to the reader of the value
      have hread : (Reader.option reader).read (bytes ++ rest) =
          Read.andThen reader.read (fun value rest => .ok (some value, rest)) (bytes ++ rest) := by
        rw [← read_andThen, Reader.read, Reader.read]
        cases hhead : readHead (bytes ++ rest) with
        | error => rfl
        | ok found =>
            obtain ⟨head, held⟩ := found
            cases head with
            | nil => exact absurd hhead (hpresent own rfl bytes hbytes rest held)
            | _ => rfl
      rw [hread]
      exact hown bytes hbytes rest

theorem items_succ (count : Nat) :
    Reader.items reader (count + 1) = Read.andThen reader.read fun item =>
      Read.andThen (Reader.items reader count) fun others rest => .ok (item :: others, rest) :=
  rfl

theorem undoes_items {values : List α}
    (hvalues : ∀ value ∈ values, Undoes refused reader.read (write value) value) :
    Undoes refused (Reader.items reader values.length) (Written.sequence (values.map write))
      values := by
  induction values with
  | nil => exact .ok fun _ => rfl
  | cons value rest ih =>
      obtain ⟨hvalue, hrest⟩ := List.forall_mem_cons.mp hvalues
      rw [List.length_cons, items_succ]
      exact hvalue.append ((ih hrest).followed (.ok fun _ => rfl))

theorem undoes_array {values : List α}
    (hvalues : ∀ value ∈ values, Undoes refused reader.read (write value) value) :
    Undoes refused (Reader.array reader).read (Written.array write values) values :=
  undoes_arrayHead.append (undoes_items hvalues)

theorem entries_succ (count : Nat) :
    Reader.entries reader valueReader (count + 1) = Read.andThen reader.read fun key =>
      Read.andThen valueReader.read fun value =>
        Read.andThen (Reader.entries reader valueReader count) fun others rest =>
          .ok ((key, value) :: others, rest) :=
  rfl

theorem undoes_entries {entries : List (α × β)}
    (hkeys : ∀ entry ∈ entries, Undoes refused reader.read (write entry.1) entry.1)
    (hvalues : ∀ entry ∈ entries, Undoes refused valueReader.read (writeValue entry.2) entry.2) :
    Undoes refused (Reader.entries reader valueReader entries.length)
      (Written.sequence
        (entries.map fun entry => (write entry.1).append (writeValue entry.2))) entries := by
  induction entries with
  | nil => exact .ok fun _ => rfl
  | cons entry rest ih =>
      obtain ⟨hkey, hkeys⟩ := List.forall_mem_cons.mp hkeys
      obtain ⟨hvalue, hvalues⟩ := List.forall_mem_cons.mp hvalues
      rw [List.map_cons, Written.sequence, List.foldr_cons, Written.append_assoc,
        List.length_cons, entries_succ]
      exact hkey.append (hvalue.append ((ih hkeys hvalues).followed (.ok fun _ => rfl)))

theorem undoes_map {entries : List (α × β)}
    (hkeys : ∀ entry ∈ entries, Undoes refused reader.read (write entry.1) entry.1)
    (hvalues : ∀ entry ∈ entries, Undoes refused valueReader.read (writeValue entry.2) entry.2) :
    Undoes refused (Reader.map reader valueReader).read (Written.map write writeValue entries)
      entries :=
  undoes_mapHead.append (undoes_entries hkeys hvalues)

end Readers

section Records

variable {σ : Type} {refused : Prop} {reader : FieldReader σ} {state last : σ}
  {fields : List (Text × Written)}

theorem undoes_field {α : Type} {own : Reader α} {written : Written} {value : α}
    (hvalue : Undoes refused own.read written value) (set : α → σ) :
    Undoes refused (FieldReader.field own set) written (set value) := by
  change Undoes refused (Read.andThen own.read fun value rest => .ok (set value, rest)) _ _
  exact hvalue.followed (.ok fun _ => rfl)

theorem exists_byte_of_textHead {length : Nat} {bytes : List UInt8}
    (hbytes : Written.textHead length = .ok bytes) :
    ∃ byte rest, bytes = byte :: rest ∧
      (0xA0 ≤ byte.toNat ∧ byte.toNat < 0xC0 ∨ 0xD9 ≤ byte.toNat ∧ byte.toNat ≤ 0xDB) := by
  rcases cases_shortest hbytes with ⟨hlength, rfl⟩ | ⟨form, hform, -, rfl⟩
  · refine ⟨_, [], rfl, .inl ?_⟩
    rw [toNat_byte (by omega)]
    omega
  · refine ⟨_, _, rfl, .inr ?_⟩
    simp only [List.mem_cons, List.not_mem_nil, or_false] at hform
    rcases hform with rfl | rfl | rfl <;> decide

/-- The name of a field is read as the bytes that its text is written in. -/
theorem undoes_fieldName {name : Text} {encoded : List UInt8}
    (hencode : Utf8.encode name = .ok encoded) :
    Undoes refused fieldName (Written.text name) encoded := by
  intro bytes hbytes rest
  rw [Written.text, hencode] at hbytes
  obtain ⟨opening, others, hopening, hothers, rfl⟩ := Written.append_eq_ok_iff.mp hbytes
  cases hothers
  have hhead := undoes_textHead.read_eq hopening (encoded ++ rest)
  obtain ⟨byte, tail, rfl, hbyte⟩ := exists_byte_of_textHead hopening
  rw [List.append_assoc]
  rw [List.cons_append] at hhead ⊢
  have hnames : ((0xA0 ≤ byte.toNat && byte.toNat < 0xC0) ||
      (0xD9 ≤ byte.toNat && byte.toNat ≤ 0xDB)) = true := by
    simpa using hbyte
  rw [fieldName]
  dsimp only
  rw [if_pos hnames, hhead]
  exact .inl (takeBytes_append encoded rest)

/-- The fields, read one after the other from the first state, lead to the last one. -/
inductive Fills (refused : Prop) (reader : FieldReader σ) : σ → List (Text × Written) → σ → Prop
  | nil {state : σ} : Fills refused reader state [] state
  | cons {state next last : σ} {name : Text} {encoded : List UInt8} {field : Written}
      {rest : List (Text × Written)} (hname : Utf8.encode name = .ok encoded)
      (hfield : Undoes refused (reader encoded state) field next)
      (hrest : Fills refused reader next rest last) :
      Fills refused reader state ((name, field) :: rest) last

theorem read_succ (count : Nat) (state : σ) :
    reader.read (count + 1) state = Read.andThen fieldName fun name =>
      Read.andThen (reader name state) fun next => reader.read count next :=
  rfl

theorem Fills.undoes (hfills : Fills refused reader state fields last) :
    Undoes refused (reader.read fields.length state)
      (Written.sequence (fields.map fun field => (Written.text field.1).append field.2))
      last := by
  induction hfills with
  | nil => exact .ok fun _ => rfl
  | cons hname hfield _ ih =>
      rw [List.map_cons, Written.sequence, List.foldr_cons, Written.append_assoc,
        List.length_cons, read_succ]
      exact (undoes_fieldName hname).append (hfield.append ih)

theorem undoes_record (hfills : Fills refused reader state fields last) :
    Undoes refused (Reader.record reader state).read (Written.record fields) last :=
  undoes_mapHead.append hfills.undoes

end Records

/-- There is no fault in what is written. -/
def Written.Succeeds (written : Written) : Prop :=
  ∃ bytes, written = .ok bytes

namespace Written.Succeeds

variable {α β : Type} {first second : Written} {write : α → Written} {writeValue : β → Written}

theorem append (hfirst : first.Succeeds) (hsecond : second.Succeeds) :
    (first.append second).Succeeds := by
  obtain ⟨opening, hopening⟩ := hfirst
  obtain ⟨others, hothers⟩ := hsecond
  exact ⟨_, append_eq_ok_iff.mpr ⟨opening, others, hopening, hothers, rfl⟩⟩

theorem sequence {items : List Written} (hitems : ∀ item ∈ items, item.Succeeds) :
    (Written.sequence items).Succeeds := by
  induction items with
  | nil => exact ⟨[], rfl⟩
  | cons item rest ih =>
      obtain ⟨hitem, hrest⟩ := List.forall_mem_cons.mp hitems
      exact hitem.append (ih hrest)

theorem shortest {fault : WriteFault} {start bound value : Nat} {forms : List (UInt8 × Nat)}
    (hvalue : ∃ form ∈ forms, value < 256 ^ form.2) :
    (Written.shortest fault start bound forms value).Succeeds := by
  rw [Written.shortest]
  split
  next => exact ⟨_, rfl⟩
  split
  next => exact ⟨_, rfl⟩
  next hnone =>
    obtain ⟨form, hform, hwidth⟩ := hvalue
    have hnot := List.find?_eq_none.mp hnone form hform
    exact absurd (decide_eq_true hwidth) hnot

theorem int {value : Int} (hlow : 0 ≤ value) (hhigh : value < 2 ^ 64) :
    (Written.int value).Succeeds := by
  obtain ⟨number, rfl⟩ := Int.eq_ofNat_of_zero_le hlow
  exact shortest ⟨(0xCF, 8), by simp, by simp only; omega⟩

theorem textHead {length : Nat} (hlength : length < 2 ^ 32) : (Written.textHead length).Succeeds :=
  shortest ⟨(0xDB, 4), by simp, hlength⟩

theorem arrayHead {length : Nat} (hlength : length < 2 ^ 32) : (Written.arrayHead length).Succeeds :=
  shortest ⟨(0xDD, 4), by simp, hlength⟩

theorem mapHead {length : Nat} (hlength : length < 2 ^ 32) : (Written.mapHead length).Succeeds :=
  shortest ⟨(0xDF, 4), by simp, hlength⟩

theorem text {value : Text} (hvalue : ∀ point ∈ value, point.isSurrogate = false)
    (hlength : ∀ bytes, Utf8.encode value = .ok bytes → bytes.length < 2 ^ 32) :
    (Written.text value).Succeeds := by
  obtain ⟨bytes, hbytes⟩ := Utf8.exists_encode hvalue
  rw [Written.text, hbytes]
  exact (textHead (hlength bytes hbytes)).append ⟨bytes, rfl⟩

theorem option {value : Option α} (hvalue : ∀ own ∈ value, (write own).Succeeds) :
    (Written.option write value).Succeeds := by
  cases value with
  | none => exact ⟨nil, rfl⟩
  | some own => exact hvalue own rfl

theorem array {values : List α} (hlength : values.length < 2 ^ 32)
    (hvalues : ∀ value ∈ values, (write value).Succeeds) : (Written.array write values).Succeeds :=
  (arrayHead hlength).append (sequence (List.forall_mem_map.mpr hvalues))

theorem map {entries : List (α × β)} (hlength : entries.length < 2 ^ 32)
    (hkeys : ∀ entry ∈ entries, (write entry.1).Succeeds)
    (hvalues : ∀ entry ∈ entries, (writeValue entry.2).Succeeds) :
    (Written.map write writeValue entries).Succeeds :=
  (mapHead hlength).append (sequence (List.forall_mem_map.mpr fun entry hentry =>
    (hkeys entry hentry).append (hvalues entry hentry)))

theorem record {fields : List (Text × Written)} (hlength : fields.length < 2 ^ 32)
    (hnames : ∀ field ∈ fields, (Written.text field.1).Succeeds)
    (hfields : ∀ field ∈ fields, field.2.Succeeds) : (Written.record fields).Succeeds :=
  (mapHead hlength).append (sequence (List.forall_mem_map.mpr fun field hfield =>
    (hnames field hfield).append (hfields field hfield)))

end Written.Succeeds

end KeyLayout.MessagePack
