import KeyLayout.Proofs.Json.Escaping
import KeyLayout.Proofs.Json.Grammar
import KeyLayout.Proofs.Text.Joining

namespace KeyLayout

/-! What is written as JSON is read as the same value again. -/

theorem Text.ofInt_ofNat (value : Nat) : ofInt (.ofNat value) = ofNat value :=
  rfl

theorem Text.ofInt_negSucc (value : Nat) :
    ofInt (.negSucc value) = .scalar '-' :: ofNat (value + 1) := by
  change ofString ("-" ++ Nat.repr (value + 1)) = .scalar '-' :: ofString (Nat.repr (value + 1))
  rw [ofString, String.toList_append, List.map_append]
  rfl

theorem Text.exists_ofNat_cons (value : Nat) :
    ∃ digit rest, ofNat value = .scalar digit :: rest ∧ digit.isDigit = true := by
  obtain ⟨digit, others, hdigits⟩ :=
    List.exists_cons_of_ne_nil (Nat.toDigits_ne_nil (n := value) (b := 10))
  refine ⟨digit, others.map .scalar, ?_, ?_⟩
  · rw [ofNat_eq, hdigits, List.map_cons]
  · exact Nat.isDigit_of_mem_toDigits (by decide) (by decide) (hdigits ▸ List.mem_cons_self ..)

namespace Json

variable {text value rest : Text} {room depth : Nat} {number : Int}

/-- No number goes on with what stands here. -/
def EndsNumber (rest : Text) : Prop :=
  ∀ point ∈ rest.head?, point.isAsciiDigit = false ∧ point ≠ .scalar '.' ∧
    point ≠ .scalar 'e' ∧ point ≠ .scalar 'E'

section Integers

theorem EndsNumber.digits (hends : EndsNumber rest) (number : Nat) :
    NumberText.digits (Text.ofNat number ++ rest) = Text.ofNat number := by
  have hall : ∀ point ∈ Text.ofNat number, point.isAsciiDigit = true :=
    fun point hpoint => Text.isAsciiDigit_of_mem_ofNat hpoint
  rw [NumberText.digits, List.takeWhile_append_of_pos hall]
  cases rest with
  | nil => simp
  | cons point tail => simp [(hends point rfl).1]

theorem EndsNumber.readWhole (hends : EndsNumber rest) (number : Nat) :
    NumberText.readWhole (Text.ofNat number ++ rest) = Text.ofNat number := by
  rcases Nat.eq_zero_or_pos number with rfl | hpositive
  · rfl
  · obtain ⟨digit, others, hdigits, -⟩ := Text.exists_ofNat_cons number
    have hhead := Text.head?_ofNat_ne hpositive
    rw [NumberText.readWhole.eq_2]
    · exact hends.digits number
    · intro tail heq
      rw [hdigits] at hhead heq
      exact hhead (congrArg List.head? heq)

theorem EndsNumber.readFraction (hends : EndsNumber rest) : NumberText.readFraction rest = none := by
  unfold NumberText.readFraction
  split
  next => exact absurd rfl (hends _ rfl).2.1
  next => rfl

theorem EndsNumber.readExponent (hends : EndsNumber rest) :
    NumberText.readExponent rest = (none, 0) := by
  unfold NumberText.readExponent
  split
  next => exact absurd rfl (hends _ rfl).2.2.1
  next => exact absurd rfl (hends _ rfl).2.2.2
  next => rfl

theorem EndsNumber.read? (hends : EndsNumber rest) (number : Int) :
    NumberText.read? (Text.ofInt number ++ rest) =
      some (⟨decide (number < 0), Text.ofNat number.natAbs, none, none⟩,
        (Text.ofInt number).length) := by
  have hempty : ∀ value, (Text.ofNat value).isEmpty = false := by
    intro value
    obtain ⟨digit, others, hdigits, -⟩ := Text.exists_ofNat_cons value
    rw [hdigits]
    rfl
  cases number with
  | ofNat value =>
      obtain ⟨digit, others, hdigits, hdigit⟩ := Text.exists_ofNat_cons value
      have hsign : (Text.ofNat value ++ rest).head? ≠ some (.scalar '-') := by
        rw [hdigits]
        rintro ⟨⟩
        contradiction
      rw [Text.ofInt_ofNat, NumberText.read?]
      simp only [hsign, decide_false, Bool.false_eq_true, if_false, List.drop_zero,
        hends.readWhole, hempty, Nat.zero_add, List.drop_left, hends.readFraction,
        hends.readExponent, Option.map_none, Option.getD_none, Nat.add_zero]
      rfl
  | negSucc value =>
      have hnegative : decide (Int.negSucc value < 0) = true :=
        decide_eq_true (Int.negSucc_lt_zero value)
      rw [Text.ofInt_negSucc, List.cons_append, NumberText.read?]
      simp only [List.head?_cons, decide_true, if_true, List.drop_succ_cons, List.drop_zero,
        hends.readWhole, hempty, Bool.false_eq_true, if_false, Nat.add_comm 1, List.drop_left,
        hends.readFraction, hends.readExponent, Option.map_none, Option.getD_none, Nat.add_zero,
        hnegative, List.length_cons]
      rfl

theorem toJson_ofNat (hnumber : number.natAbs < 10 ^ Numeral.decimalLimit) :
    NumberText.toJson ⟨decide (number < 0), Text.ofNat number.natAbs, none, none⟩ =
      .ok (.int number) := by
  have hlength := (Text.length_ofNat_le_iff (by decide)).mpr hnumber
  rw [NumberText.toJson]
  dsimp only
  rw [if_neg (Nat.not_lt_of_le hlength), NumberText.natural, Text.digitsValue?_ofNat,
    Option.getD_some]
  congr 2
  split
  next hnegative =>
    have hbelow := of_decide_eq_true hnegative
    omega
  next hpositive =>
    have hbelow := mt decide_eq_true hpositive
    omega

end Integers

section Scalars

theorem exists_letters {word : Text × Json} (hword : word ∈ words) :
    ∃ first second rest, word.1 = .scalar first :: .scalar second :: rest ∧
      first.isDigit = false ∧ second.isDigit = false ∧ first ∉ ['\x22', '[', '\x7b'] := by
  revert word
  simp only [words, List.forall_mem_cons]
  refine ⟨⟨_, _, _, rfl, rfl, rfl, ?_⟩, ⟨_, _, _, rfl, rfl, rfl, ?_⟩,
    ⟨_, _, _, rfl, rfl, rfl, ?_⟩, ⟨_, _, _, rfl, rfl, rfl, ?_⟩, ⟨_, _, _, rfl, rfl, rfl, ?_⟩,
    ⟨_, _, _, rfl, rfl, rfl, ?_⟩, fun _ hnone => nomatch hnone⟩ <;> decide

theorem find?_words (number : Int) (rest : Text) :
    (words.find? fun word => word.1.isPrefixOf (Text.ofInt number ++ rest)) = none := by
  rw [List.find?_eq_none]
  intro word hword hprefix
  obtain ⟨first, second, tail, hletters, hfirst, hsecond, -⟩ := exists_letters hword
  rw [hletters, List.isPrefixOf_iff_prefix] at hprefix
  cases number with
  | ofNat value =>
      obtain ⟨digit, others, hdigits, hdigit⟩ := Text.exists_ofNat_cons value
      rw [Text.ofInt_ofNat, hdigits, List.cons_append, List.cons_prefix_cons] at hprefix
      rw [CodePoint.scalar.inj hprefix.1, hdigit] at hfirst
      contradiction
  | negSucc value =>
      obtain ⟨digit, others, hdigits, hdigit⟩ := Text.exists_ofNat_cons (value + 1)
      rw [Text.ofInt_negSucc, hdigits, List.cons_append, List.cons_append,
        List.cons_prefix_cons, List.cons_prefix_cons] at hprefix
      rw [CodePoint.scalar.inj hprefix.2.1, hdigit] at hsecond
      contradiction

theorem scalar_ofInt (hends : EndsNumber rest)
    (hnumber : number.natAbs < 10 ^ Numeral.decimalLimit) :
    ∃ hshorter, scalar (Text.ofInt number ++ rest) = .ok ⟨.int number, rest, hshorter⟩ := by
  have hpositive : 0 < (Text.ofInt number).length := by
    cases number with
    | ofNat value =>
        obtain ⟨digit, others, hdigits, -⟩ := Text.exists_ofNat_cons value
        rw [Text.ofInt_ofNat, hdigits]
        exact Nat.succ_pos _
    | negSucc value =>
        rw [Text.ofInt_negSucc]
        exact Nat.succ_pos _
  have hshorter : rest.length < (Text.ofInt number ++ rest).length := by
    rw [List.length_append]
    omega
  refine ⟨hshorter, ?_⟩
  rw [scalar, find?_words, hends.read?]
  refine bind_eq_ok_iff.mpr ⟨.int number, toJson_ofNat hnumber, ?_⟩
  simp only [List.drop_left, hshorter, dif_pos]

theorem find?_word {word : Text × Json} (hword : word ∈ words) (rest : Text) :
    (words.find? fun other => other.1.isPrefixOf (word.1 ++ rest)) = some word := by
  revert word
  simp only [words, List.forall_mem_cons]
  exact ⟨rfl, rfl, rfl, rfl, rfl, rfl, fun _ hnone => nomatch hnone⟩

theorem scalar_word {word : Text × Json} (hword : word ∈ words) (rest : Text) :
    ∃ hshorter, scalar (word.1 ++ rest) = .ok ⟨word.2, rest, hshorter⟩ := by
  obtain ⟨first, second, tail, hletters, -⟩ := exists_letters hword
  have hshorter : rest.length < (word.1 ++ rest).length := by
    rw [hletters, List.length_append, List.length_cons]
    omega
  refine ⟨hshorter, ?_⟩
  rw [scalar, find?_word hword]
  simp only [List.drop_left, hshorter, dif_pos]

theorem scalar_ne_of_isDigit {digit letter : Char} (hdigit : digit.isDigit = true)
    (hletter : letter.isDigit = false) : CodePoint.scalar digit ≠ .scalar letter := by
  intro heq
  rw [CodePoint.scalar.inj heq, hletter] at hdigit
  contradiction

theorem isBare_ofInt (number : Int) (rest : Text) : IsBare (Text.ofInt number ++ rest) := by
  intro mark hmark
  cases number with
  | ofNat value =>
      obtain ⟨digit, others, hdigits, hdigit⟩ := Text.exists_ofNat_cons value
      rw [Text.ofInt_ofNat, hdigits] at hmark
      cases hmark
      exact ⟨scalar_ne_of_isDigit hdigit rfl, scalar_ne_of_isDigit hdigit rfl,
        scalar_ne_of_isDigit hdigit rfl⟩
  | negSucc value =>
      rw [Text.ofInt_negSucc] at hmark
      cases hmark
      decide

theorem isBare_word {word : Text × Json} (hword : word ∈ words) (rest : Text) :
    IsBare (word.1 ++ rest) := by
  obtain ⟨first, second, tail, hletters, -, -, hmarks⟩ := exists_letters hword
  rw [hletters]
  intro mark hmark
  cases hmark
  simpa using hmarks

theorem reads_word {word : Text × Json} (hword : word ∈ words) (rest : Text) :
    Reads room (word.1 ++ rest) (.value word.2) rest := by
  obtain ⟨hshorter, hscalar⟩ := scalar_word hword rest
  exact .bare (isBare_word hword rest) hscalar

end Scalars

section Lines

theorem isBlank_of_mem_newLine {point : CodePoint} (hpoint : point ∈ newLine depth) :
    isBlank point = true := by
  rcases List.mem_cons.mp hpoint with rfl | hspace
  · rfl
  · rw [List.eq_of_mem_replicate hspace]
    rfl

/-- The text starts with a mark that is not blank. -/
def Solid (text : Text) : Prop :=
  ∃ point rest, text = point :: rest ∧ isBlank point = false

theorem Solid.append (hsolid : Solid text) (rest : Text) : Solid (text ++ rest) := by
  obtain ⟨point, tail, rfl, hpoint⟩ := hsolid
  exact ⟨point, tail ++ rest, rfl, hpoint⟩

theorem Solid.skipBlank (hsolid : Solid text) : skipBlank text = text := by
  obtain ⟨point, tail, rfl, hpoint⟩ := hsolid
  rw [Json.skipBlank, List.dropWhile_cons_of_neg (by rw [hpoint]; decide)]

theorem Solid.skipBlank_newLine (hsolid : Solid text) (depth : Nat) :
    Json.skipBlank (newLine depth ++ text) = text := by
  rw [Json.skipBlank, List.dropWhile_append_of_pos fun _ hpoint => isBlank_of_mem_newLine hpoint]
  exact hsolid.skipBlank

theorem Solid.skipBlank_space (hsolid : Solid text) :
    Json.skipBlank (.scalar ' ' :: text) = text :=
  hsolid.skipBlank

theorem endsNumber_newLine (depth : Nat) (rest : Text) : EndsNumber (newLine depth ++ rest) := by
  intro point hpoint
  cases hpoint
  decide

theorem endsNumber_comma (rest : Text) : EndsNumber (.scalar ',' :: rest) := by
  intro point hpoint
  cases hpoint
  decide

/-- What stands between the items or members of a container. -/
def separator (depth : Nat) : Text :=
  .scalar ',' :: newLine depth

theorem joinWith_separator_append (depth : Nat) (part next : Text) (others : List Text)
    (rest : Text) :
    Text.joinWith (separator depth) (part :: next :: others) ++ rest =
      part ++ .scalar ',' :: (newLine depth ++
        (Text.joinWith (separator depth) (next :: others) ++ rest)) := by
  simp only [Text.joinWith_cons_cons, separator, List.append_assoc, List.cons_append]

theorem enclose_cons_append (depth : Nat) (opening closing : CodePoint) (part : Text)
    (parts : List Text) (rest : Text) :
    enclose depth opening closing (part :: parts) ++ rest =
      opening :: (newLine (depth + 1) ++
        (Text.joinWith (separator (depth + 1)) (part :: parts) ++
          (newLine depth ++ closing :: rest))) := by
  rw [enclose]
  simp [separator]

theorem exists_enclose_cons (depth : Nat) (opening closing : CodePoint) (parts : List Text) :
    ∃ tail, enclose depth opening closing parts = opening :: tail := by
  rw [enclose]
  split
  next => exact ⟨_, rfl⟩
  next => exact ⟨_, rfl⟩

theorem exists_joinWith_cons (between part : Text) (parts : List Text) (rest : Text) :
    ∃ after, Text.joinWith between (part :: parts) ++ rest = part ++ after := by
  cases parts with
  | nil => exact ⟨rest, by rw [Text.joinWith_singleton]⟩
  | cons next others => exact ⟨_, by rw [Text.joinWith_cons_cons, List.append_assoc]⟩

theorem Solid.joinWith (hsolid : Solid text) (between : Text) (parts : List Text) (rest : Text) :
    Solid (Text.joinWith between (text :: parts) ++ rest) := by
  obtain ⟨after, hafter⟩ := exists_joinWith_cons between text parts rest
  rw [hafter]
  exact hsolid.append after

end Lines

/-- The value is the same once it has been written and read again. -/
inductive Lasting : Nat → Json → Prop
  | null {room : Nat} : Lasting room .null
  | bool {room : Nat} {value : Bool} : Lasting room (.bool value)
  | int {room : Nat} {number : Int} (hnumber : number.natAbs < 10 ^ Numeral.decimalLimit) :
      Lasting room (.int number)
  | text {room : Nat} {content : Text} (hcontent : Unpaired content) : Lasting room (.text content)
  | array {room : Nat} {items : List Json} (hitems : ∀ item ∈ items, Lasting room item) :
      Lasting (room + 1) (.array items)
  | object {room : Nat} {members : List (Text × Json)} (hnodup : (members.map Prod.fst).Nodup)
      (hnames : ∀ member ∈ members, Unpaired member.1)
      (hmembers : ∀ member ∈ members, Lasting room member.2) :
      Lasting (room + 1) (.object members)

variable {json item : Json} {items : List Json} {members : List (Text × Json)}

/-- With this mark a value may start. -/
def StartsValue (point : CodePoint) : Prop :=
  isBlank point = false ∧ point ≠ .scalar ']' ∧ point ≠ .scalar '\ufeff'

theorem startsValue_of_isDigit {digit : Char} (hdigit : digit.isDigit = true) :
    StartsValue (.scalar digit) := by
  refine ⟨?_, scalar_ne_of_isDigit hdigit rfl, scalar_ne_of_isDigit hdigit rfl⟩
  unfold isBlank
  split
  next heq => exact absurd heq (scalar_ne_of_isDigit hdigit rfl)
  next heq => exact absurd heq (scalar_ne_of_isDigit hdigit rfl)
  next heq => exact absurd heq (scalar_ne_of_isDigit hdigit rfl)
  next heq => exact absurd heq (scalar_ne_of_isDigit hdigit rfl)
  next => rfl

theorem Lasting.exists_write_cons (hlasting : Lasting room json) (depth : Nat) :
    ∃ point tail, write depth json = point :: tail ∧ StartsValue point := by
  cases hlasting with
  | null => exact ⟨_, _, rfl, rfl, by decide, by decide⟩
  | @bool _ value =>
      cases value with
      | true => exact ⟨_, _, rfl, rfl, by decide, by decide⟩
      | false => exact ⟨_, _, rfl, rfl, by decide, by decide⟩
  | @int _ number =>
      cases number with
      | ofNat value =>
          obtain ⟨digit, others, hdigits, hdigit⟩ := Text.exists_ofNat_cons value
          exact ⟨_, _, hdigits, startsValue_of_isDigit hdigit⟩
      | negSucc value => exact ⟨_, _, Text.ofInt_negSucc value, rfl, by decide, by decide⟩
  | text => exact ⟨_, _, rfl, rfl, by decide, by decide⟩
  | array =>
      obtain ⟨tail, htail⟩ := exists_enclose_cons depth (.scalar '[') (.scalar ']') _
      exact ⟨_, tail, htail, rfl, by decide, by decide⟩
  | object =>
      obtain ⟨tail, htail⟩ := exists_enclose_cons depth (.scalar '\x7b') (.scalar '\x7d') _
      exact ⟨_, tail, htail, rfl, by decide, by decide⟩

theorem Lasting.solid_write (hlasting : Lasting room json) (depth : Nat) :
    Solid (write depth json) := by
  obtain ⟨point, tail, htail, hpoint, -⟩ := hlasting.exists_write_cons depth
  exact ⟨point, tail, htail, hpoint⟩

/-- The value is what is read where it was written, whatever it was written in front of. -/
def ReadsBack (room : Nat) (json : Json) : Prop :=
  ∀ depth rest, EndsNumber rest → Reads room (write depth json ++ rest) (.value json) rest

section Containers

theorem reads_items (depth outer : Nat) (hlasting : ∀ item ∈ items, Lasting room item)
    (hreads : ∀ item ∈ items, ReadsBack room item) (hsome : items ≠ []) (rest : Text) :
    Reads room (Text.joinWith (separator depth) (writeItems depth items) ++
      (newLine outer ++ .scalar ']' :: rest)) (.elements items) rest := by
  induction items with
  | nil => contradiction
  | cons item others ih =>
      obtain ⟨hitem, hothers⟩ := List.forall_mem_cons.mp hreads
      obtain ⟨-, hlastingOthers⟩ := List.forall_mem_cons.mp hlasting
      cases others with
      | nil =>
          have hclose : Solid (.scalar ']' :: rest) := ⟨_, _, rfl, rfl⟩
          rw [writeItems, writeItems, Text.joinWith_singleton]
          exact .lastItem (hitem depth _ (endsNumber_newLine outer _))
            (hclose.skipBlank_newLine outer)
      | cons next others =>
          have hmore := ih hlastingOthers hothers (List.cons_ne_nil _ _)
          have hsolid := ((hlastingOthers next (List.mem_cons_self ..)).solid_write depth).joinWith
            (separator depth) (writeItems depth others) (newLine outer ++ .scalar ']' :: rest)
          have hcomma (after : Text) : Solid (.scalar ',' :: after) := ⟨_, _, rfl, rfl⟩
          rw [writeItems] at hmore
          rw [writeItems, writeItems, joinWith_separator_append]
          refine .nextItem (hitem depth _ (endsNumber_comma _)) (hcomma _).skipBlank ?_
          rw [hsolid.skipBlank_newLine]
          exact hmore

/-- A name and a value as a member of an object is written. -/
def writeMember (depth : Nat) (member : Text × Json) : Text :=
  Text.join [writeText member.1, ": ", write depth member.2]

theorem writeMember_append (depth : Nat) (member : Text × Json) (rest : Text) :
    writeMember depth member ++ rest =
      .scalar '\x22' :: (member.1.flatMap escapePoint ++
        .scalar '\x22' :: .scalar ':' :: .scalar ' ' :: (write depth member.2 ++ rest)) := by
  have hcolon : Text.ofString ": " = [.scalar ':', .scalar ' '] := rfl
  simp [writeMember, writeText, Text.join, hcolon, CodePoint.doubleMark]

theorem solid_writeMember (depth : Nat) (member : Text × Json) :
    Solid (writeMember depth member) :=
  ⟨_, _, rfl, rfl⟩

theorem writeMembers_cons (depth : Nat) (member : Text × Json) (others : List (Text × Json)) :
    writeMembers depth (member :: others) =
      writeMember depth member :: writeMembers depth others := by
  rw [writeMembers, writeMember]

theorem reads_members (depth outer : Nat) (hnames : ∀ member ∈ members, Unpaired member.1)
    (hlasting : ∀ member ∈ members, Lasting room member.2)
    (hreads : ∀ member ∈ members, ReadsBack room member.2) (hsome : members ≠ []) (rest : Text) :
    Reads room (Text.joinWith (separator depth) (writeMembers depth members) ++
      (newLine outer ++ .scalar '\x7d' :: rest)) (.members members) rest := by
  induction members with
  | nil => contradiction
  | cons member others ih =>
      obtain ⟨hname, hnamesOthers⟩ := List.forall_mem_cons.mp hnames
      obtain ⟨hmember, hothers⟩ := List.forall_mem_cons.mp hreads
      obtain ⟨hlastingMember, hlastingOthers⟩ := List.forall_mem_cons.mp hlasting
      have hcolon (after : Text) : Solid (.scalar ':' :: after) := ⟨_, _, rfl, rfl⟩
      have hitem (after : Text) (hafter : EndsNumber after) :
          Reads room (Json.skipBlank (.scalar ' ' :: (write depth member.2 ++ after)))
            (.value member.2) after := by
        rw [((hlastingMember.solid_write depth).append after).skipBlank_space]
        exact hmember depth after hafter
      cases others with
      | nil =>
          have hclose : Solid (.scalar '\x7d' :: rest) := ⟨_, _, rfl, rfl⟩
          have hafter := endsNumber_newLine outer (.scalar '\x7d' :: rest)
          rw [writeMembers_cons, writeMembers, Text.joinWith_singleton, writeMember_append]
          exact .lastMember (body_of_unpaired hname _) (hcolon _).skipBlank (hitem _ hafter)
            (hclose.skipBlank_newLine outer)
      | cons next others =>
          have hmore := ih hnamesOthers hlastingOthers hothers (List.cons_ne_nil _ _)
          have hsolid := (solid_writeMember depth next).joinWith (separator depth)
            (writeMembers depth others) (newLine outer ++ .scalar '\x7d' :: rest)
          have hcomma (after : Text) : Solid (.scalar ',' :: after) := ⟨_, _, rfl, rfl⟩
          rw [writeMembers_cons] at hmore
          rw [writeMembers_cons, writeMembers_cons, joinWith_separator_append, writeMember_append]
          refine .nextMember (body_of_unpaired hname _) (hcolon _).skipBlank
            (hitem _ (endsNumber_comma _)) (hcomma _).skipBlank ?_
          rw [hsolid.skipBlank_newLine]
          exact hmore

theorem insertMember_of_new {name : Text} (hnew : name ∉ members.map Prod.fst) (item : Json) :
    insertMember name item members = members ++ [(name, item)] := by
  induction members with
  | nil => rfl
  | cons member rest ih =>
      rw [List.map_cons, List.mem_cons, not_or] at hnew
      rw [insertMember, if_neg (Ne.symm hnew.1), ih hnew.2, List.cons_append]

theorem foldl_insertMember {found : List (Text × Json)}
    (hnodup : ((found ++ members).map Prod.fst).Nodup) :
    members.foldl (fun found member => insertMember member.1 member.2 found) found =
      found ++ members := by
  induction members generalizing found with
  | nil => rw [List.foldl_nil, List.append_nil]
  | cons member rest ih =>
      have hnew : member.1 ∉ found.map Prod.fst := by
        rw [List.map_append, List.nodup_append] at hnodup
        exact fun hmem => hnodup.2.2 _ hmem _ (List.mem_cons_self ..) rfl
      rw [List.foldl_cons, insertMember_of_new hnew, ih (by simpa using hnodup), List.append_assoc,
        List.singleton_append]

theorem ofMembers_of_nodup (hnodup : (members.map Prod.fst).Nodup) :
    ofMembers members = .object members := by
  rw [← List.nil_append members] at hnodup
  rw [ofMembers, foldl_insertMember hnodup, List.nil_append]

theorem reads_array {outer : Nat} (hlasting : ∀ item ∈ items, Lasting room item)
    (hreads : ∀ item ∈ items, ReadsBack room item) (rest : Text) :
    Reads (room + 1) (write outer (.array items) ++ rest) (.value (.array items)) rest := by
  cases items with
  | nil =>
      have hclose : Solid (.scalar ']' :: rest) := ⟨_, _, rfl, rfl⟩
      exact .noItems hclose.skipBlank
  | cons item others =>
      have hitems := reads_items (outer + 1) outer hlasting hreads
        (List.cons_ne_nil _ _) rest
      obtain ⟨point, tail, htail, hblank, hclose, -⟩ :=
        (hlasting item (List.mem_cons_self ..)).exists_write_cons (outer + 1)
      obtain ⟨after, hafter⟩ := exists_joinWith_cons (separator (outer + 1))
        (write (outer + 1) item) (writeItems (outer + 1) others)
        (newLine outer ++ .scalar ']' :: rest)
      -- what is read first is whether the array is closed at once
      have hsolid : Solid (point :: tail ++ after) := ⟨_, _, rfl, hblank⟩
      rw [writeItems, hafter, htail, ← hsolid.skipBlank_newLine (outer + 1)] at hitems
      rw [write, writeItems, enclose_cons_append, hafter, htail]
      refine .items ?_ hitems
      rw [hsolid.skipBlank_newLine]
      exact fun heq => hclose (Option.some.inj heq)

theorem reads_object {outer : Nat} (hnodup : (members.map Prod.fst).Nodup)
    (hnames : ∀ member ∈ members, Unpaired member.1)
    (hlasting : ∀ member ∈ members, Lasting room member.2)
    (hreads : ∀ member ∈ members, ReadsBack room member.2) (rest : Text) :
    Reads (room + 1) (write outer (.object members) ++ rest) (.value (.object members)) rest := by
  cases members with
  | nil =>
      have hclose : Solid (.scalar '\x7d' :: rest) := ⟨_, _, rfl, rfl⟩
      exact .noMembers hclose.skipBlank
  | cons member others =>
      have hmembers := reads_members (outer + 1) outer hnames hlasting hreads
        (List.cons_ne_nil _ _) rest
      obtain ⟨after, hafter⟩ := exists_joinWith_cons (separator (outer + 1))
        (writeMember (outer + 1) member) (writeMembers (outer + 1) others)
        (newLine outer ++ .scalar '\x7d' :: rest)
      have hsolid := (solid_writeMember (outer + 1) member).append after
      rw [writeMembers_cons, hafter, ← hsolid.skipBlank_newLine (outer + 1)] at hmembers
      rw [write, writeMembers_cons, enclose_cons_append, hafter, ← ofMembers_of_nodup hnodup]
      refine .members ?_ hmembers
      rw [hsolid.skipBlank_newLine]
      exact fun heq => absurd (Option.some.inj heq) (by decide)

end Containers

theorem Lasting.readsBack (hlasting : Lasting room json) : ReadsBack room json := by
  induction hlasting with
  | null =>
      have hword : (Text.ofString "null", Json.null) ∈ words := by simp [words]
      exact fun depth rest _ => reads_word hword rest
  | @bool _ value =>
      intro depth rest _
      have htrue : (Text.ofString "true", Json.bool true) ∈ words := by simp [words]
      have hfalse : (Text.ofString "false", Json.bool false) ∈ words := by simp [words]
      cases value with
      | true => exact reads_word htrue rest
      | false => exact reads_word hfalse rest
  | int hnumber =>
      intro depth rest hends
      obtain ⟨hshorter, hscalar⟩ := scalar_ofInt hends hnumber
      exact .bare (isBare_ofInt _ rest) hscalar
  | @text room content hcontent =>
      intro depth rest _
      have hbody := body_of_unpaired hcontent rest
      rw [write, writeText, List.append_assoc]
      exact .text hbody
  | array hitems ih => exact fun depth rest _ => reads_array hitems ih rest
  | object hnodup hnames hmembers ih =>
      exact fun depth rest _ => reads_object hnodup hnames hmembers ih rest

theorem document_write (hlasting : Lasting deepest json) : document (write 0 json) = .ok json := by
  obtain ⟨point, tail, htail, hblank, -, hmark⟩ := hlasting.exists_write_cons 0
  have hsolid := hlasting.solid_write 0
  have hreads := hlasting.readsBack 0 [] (fun _ hnone => nomatch hnone)
  rw [List.append_nil] at hreads
  refine document_eq_ok_iff.mpr ⟨?_, [], ?_, rfl⟩
  · rw [htail]
    exact fun heq => hmark (Option.some.inj heq)
  · rw [hsolid.skipBlank]
    exact hreads

theorem ofText_write (hlasting : Lasting deepest json) : ofText (write 0 json) = .ok json := by
  rw [ofText, document_write hlasting]
  rfl

end Json

end KeyLayout
