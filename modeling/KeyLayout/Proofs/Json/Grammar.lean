import KeyLayout.Proofs.Json.Body

namespace KeyLayout.Json

/-! The grammar of JSON values.  The reader accepts exactly what it derives. -/

/-- What is read at one time: a value, or what stands between the marks of a container. -/
inductive Part where
  | value (json : Json)
  | elements (items : List Json)
  | members (found : List (Text × Json))

/-- The text starts neither a text nor a container. -/
def IsBare (text : Text) : Prop :=
  ∀ mark ∈ text.head?, mark ≠ .scalar '\x22' ∧ mark ≠ .scalar '[' ∧ mark ≠ .scalar '\x7b'

/-- At the front of the text stands the part, and after it the rest.  So many containers may
be open at a time as there is room for. -/
inductive Reads : Nat → Text → Part → Text → Prop
  | text {room : Nat} {start content rest : Text} (hbody : Body start content rest) :
      Reads room (.scalar '\x22' :: start) (.value (.text content)) rest
  | bare {room : Nat} {text rest : Text} {json : Json} {hshorter : rest.length < text.length}
      (hbare : IsBare text) (hscalar : scalar text = .ok ⟨json, rest, hshorter⟩) :
      Reads room text (.value json) rest
  | noItems {room : Nat} {start rest : Text} (hclose : skipBlank start = .scalar ']' :: rest) :
      Reads (room + 1) (.scalar '[' :: start) (.value (.array [])) rest
  | items {room : Nat} {start rest : Text} {items : List Json}
      (hopen : (skipBlank start).head? ≠ some (.scalar ']'))
      (hitems : Reads room (skipBlank start) (.elements items) rest) :
      Reads (room + 1) (.scalar '[' :: start) (.value (.array items)) rest
  | noMembers {room : Nat} {start rest : Text}
      (hclose : skipBlank start = .scalar '\x7d' :: rest) :
      Reads (room + 1) (.scalar '\x7b' :: start) (.value (.object [])) rest
  | members {room : Nat} {start rest : Text} {found : List (Text × Json)}
      (hopen : (skipBlank start).head? ≠ some (.scalar '\x7d'))
      (hmembers : Reads room (skipBlank start) (.members found) rest) :
      Reads (room + 1) (.scalar '\x7b' :: start) (.value (ofMembers found)) rest
  | lastItem {room : Nat} {text after rest : Text} {item : Json}
      (hitem : Reads room text (.value item) after)
      (hclose : skipBlank after = .scalar ']' :: rest) :
      Reads room text (.elements [item]) rest
  | nextItem {room : Nat} {text after others rest : Text} {item : Json} {items : List Json}
      (hitem : Reads room text (.value item) after)
      (hcomma : skipBlank after = .scalar ',' :: others)
      (hitems : Reads room (skipBlank others) (.elements items) rest) :
      Reads room text (.elements (item :: items)) rest
  | lastMember {room : Nat} {start middle afterColon after rest name : Text} {item : Json}
      (hname : Body start name middle) (hcolon : skipBlank middle = .scalar ':' :: afterColon)
      (hitem : Reads room (skipBlank afterColon) (.value item) after)
      (hclose : skipBlank after = .scalar '\x7d' :: rest) :
      Reads room (.scalar '\x22' :: start) (.members [(name, item)]) rest
  | nextMember {room : Nat} {start middle afterColon after others rest name : Text}
      {item : Json} {found : List (Text × Json)} (hname : Body start name middle)
      (hcolon : skipBlank middle = .scalar ':' :: afterColon)
      (hitem : Reads room (skipBlank afterColon) (.value item) after)
      (hcomma : skipBlank after = .scalar ',' :: others)
      (hmembers : Reads room (skipBlank others) (.members found) rest) :
      Reads room (.scalar '\x22' :: start) (.members ((name, item) :: found)) rest

variable {room : Nat} {text rest : Text} {json : Json}

theorem enter_eq_ok_iff {container : JsonContainer} {left : Nat} :
    enter container room = .ok left ↔ room = left + 1 := by
  cases room with
  | zero => simp [enter]
  | succ room => simp [enter]

/-- What the grammar derives from the values, elements and members that are read from one
text. -/
structure ReadsWhatIsRead (text : Text) : Prop where
  value : ∀ {room : Nat} {parsed : Parsed text Json}, Json.value room text = .ok parsed →
    Reads room text (.value parsed.value) parsed.rest
  elements : ∀ {room : Nat} {parsed : Parsed text (List Json)},
    Json.elements room text = .ok parsed → Reads room text (.elements parsed.value) parsed.rest
  members : ∀ {room : Nat} {parsed : Parsed text (List (Text × Json))},
    Json.members room text = .ok parsed → Reads room text (.members parsed.value) parsed.rest

section Soundness

theorem head?_ne_of_ne_cons {mark : CodePoint} (hne : ∀ tail, text ≠ mark :: tail) :
    text.head? ≠ some mark := by
  intro hhead
  obtain ⟨tail, htail⟩ := List.head?_eq_some_iff.mp hhead
  exact hne tail htail

theorem reads_of_value
    (hshorter : ∀ shorter : Text, shorter.length < text.length → ReadsWhatIsRead shorter)
    {parsed : Parsed text Json} (hread : value room text = .ok parsed) :
    Reads room text (.value parsed.value) parsed.rest := by
  rw [value.eq_def] at hread
  split at hread
  next start =>
    obtain ⟨body, hbody, heq⟩ := bind_eq_ok_iff.mp hread
    cases heq
    exact .text (body_of_textBody hbody)
  next start =>
    obtain ⟨left, hleft, hmatch⟩ := bind_eq_ok_iff.mp hread
    clear hread
    obtain rfl := enter_eq_ok_iff.mp hleft
    split at hmatch
    next after hclose =>
      cases hmatch
      exact .noItems hclose
    next hopen =>
      obtain ⟨items, hitems, heq⟩ := bind_eq_ok_iff.mp hmatch
      cases heq
      have hlength := length_skipBlank start
      exact .items (head?_ne_of_ne_cons hopen)
        ((hshorter (skipBlank start) (by rw [List.length_cons]; omega)).elements hitems)
  next start =>
    obtain ⟨left, hleft, hmatch⟩ := bind_eq_ok_iff.mp hread
    clear hread
    obtain rfl := enter_eq_ok_iff.mp hleft
    split at hmatch
    next after hclose =>
      cases hmatch
      exact .noMembers hclose
    next hopen =>
      obtain ⟨found, hfound, heq⟩ := bind_eq_ok_iff.mp hmatch
      cases heq
      have hlength := length_skipBlank start
      exact .members (head?_ne_of_ne_cons hopen)
        ((hshorter (skipBlank start) (by rw [List.length_cons]; omega)).members hfound)
  next htext hitems hmembers =>
    refine @Reads.bare _ _ _ _ parsed.shorter (fun mark hmark => ?_) hread
    obtain ⟨tail, rfl⟩ := List.head?_eq_some_iff.mp hmark
    refine ⟨?_, ?_, ?_⟩
    · exact fun heq => htext tail (congrArg (· :: tail) heq)
    · exact fun heq => hitems tail (congrArg (· :: tail) heq)
    · exact fun heq => hmembers tail (congrArg (· :: tail) heq)

theorem reads_of_elements
    (hvalue : ∀ {parsed : Parsed text Json}, value room text = .ok parsed →
      Reads room text (.value parsed.value) parsed.rest)
    (hshorter : ∀ shorter : Text, shorter.length < text.length → ReadsWhatIsRead shorter)
    {parsed : Parsed text (List Json)} (hread : elements room text = .ok parsed) :
    Reads room text (.elements parsed.value) parsed.rest := by
  rw [elements.eq_def] at hread
  obtain ⟨item, hitem, hmatch⟩ := bind_eq_ok_iff.mp hread
  clear hread
  split at hmatch
  next rest hclose =>
    cases hmatch
    exact .lastItem (hvalue hitem) hclose
  next rest hcomma =>
    obtain ⟨others, hothers, heq⟩ := bind_eq_ok_iff.mp hmatch
    cases heq
    have hitemShorter := item.shorter
    have hlength := length_of_skipBlank hcomma
    have hblank := length_skipBlank rest
    exact .nextItem (hvalue hitem) hcomma
      ((hshorter (skipBlank rest) (by omega)).elements hothers)
  next => contradiction

theorem reads_of_members
    (hshorter : ∀ shorter : Text, shorter.length < text.length → ReadsWhatIsRead shorter)
    {parsed : Parsed text (List (Text × Json))} (hread : members room text = .ok parsed) :
    Reads room text (.members parsed.value) parsed.rest := by
  rw [members.eq_def] at hread
  split at hread
  next start =>
    obtain ⟨name, hname, hmatch⟩ := bind_eq_ok_iff.mp hread
    clear hread
    split at hmatch
    next afterColon hcolon =>
      obtain ⟨item, hitem, hend⟩ := bind_eq_ok_iff.mp hmatch
      clear hmatch
      have hbody := body_of_textBody hname
      have hnameShorter := name.shorter
      have hafter := length_of_skipBlank hcolon
      have hblank := length_skipBlank afterColon
      have hvalue := (hshorter (skipBlank afterColon) (by rw [List.length_cons]; omega)).value hitem
      split at hend
      next rest hclose =>
        cases hend
        exact .lastMember hbody hcolon hvalue hclose
      next rest hcomma =>
        obtain ⟨others, hothers, heq⟩ := bind_eq_ok_iff.mp hend
        cases heq
        have hitemShorter := item.shorter
        have hlength := length_of_skipBlank hcomma
        have hrest := length_skipBlank rest
        exact .nextMember hbody hcolon hvalue hcomma
          ((hshorter (skipBlank rest) (by rw [List.length_cons]; omega)).members hothers)
      next => contradiction
    next => contradiction
  next => contradiction

theorem readsWhatIsRead (text : Text) : ReadsWhatIsRead text := by
  generalize hsize : text.length = size
  induction size using Nat.strongRecOn generalizing text with
  | ind size ih =>
      have hshorter : ∀ shorter : Text, shorter.length < text.length →
          ReadsWhatIsRead shorter := by
        intro shorter hlength
        exact ih shorter.length (hsize ▸ hlength) shorter rfl
      exact ⟨reads_of_value hshorter,
        reads_of_elements (reads_of_value hshorter) hshorter, reads_of_members hshorter⟩

end Soundness

section Completeness

/-- The part is what is read. -/
def IsRead (room : Nat) (text : Text) : Part → Text → Prop
  | .value json, rest => ∃ hshorter, Json.value room text = .ok ⟨json, rest, hshorter⟩
  | .elements items, rest => ∃ hshorter, Json.elements room text = .ok ⟨items, rest, hshorter⟩
  | .members found, rest => ∃ hshorter, Json.members room text = .ok ⟨found, rest, hshorter⟩

variable {start after others content name : Text} {item : Json} {items : List Json}
  {found : List (Text × Json)}

theorem IsRead.quoted (hbody : Body start content rest) :
    IsRead room (.scalar '\x22' :: start) (.value (.text content)) rest := by
  obtain ⟨hshorter, hread⟩ := textBody_of_body hbody _
  refine ⟨by simp only [List.length_cons]; omega, ?_⟩
  rw [value.eq_1, hread]
  rfl

theorem IsRead.bare {hshorter : rest.length < text.length} (hbare : IsBare text)
    (hscalar : scalar text = .ok ⟨json, rest, hshorter⟩) :
    IsRead room text (.value json) rest := by
  refine ⟨hshorter, ?_⟩
  rw [value.eq_4]
  · exact hscalar
  · intro tail heq
    exact (hbare _ (by rw [heq]; rfl)).1 rfl
  · intro tail heq
    exact (hbare _ (by rw [heq]; rfl)).2.1 rfl
  · intro tail heq
    exact (hbare _ (by rw [heq]; rfl)).2.2 rfl

theorem IsRead.noItems (hclose : skipBlank start = .scalar ']' :: rest) :
    IsRead (room + 1) (.scalar '[' :: start) (.value (.array [])) rest := by
  have hlength := length_of_skipBlank hclose
  refine ⟨by simp only [List.length_cons]; omega, ?_⟩
  rw [value.eq_2]
  refine bind_eq_ok_iff.mpr ⟨room, rfl, ?_⟩
  split
  next tail htail =>
    cases htail.symm.trans hclose
    rfl
  next hopen => exact absurd hclose (hopen rest)

theorem IsRead.someItems (hopen : (skipBlank start).head? ≠ some (.scalar ']'))
    (hitems : IsRead room (skipBlank start) (.elements items) rest) :
    IsRead (room + 1) (.scalar '[' :: start) (.value (.array items)) rest := by
  obtain ⟨hshorter, hread⟩ := hitems
  have hlength := length_skipBlank start
  refine ⟨by simp only [List.length_cons]; omega, ?_⟩
  rw [value.eq_2]
  refine bind_eq_ok_iff.mpr ⟨room, rfl, ?_⟩
  split
  next tail htail => exact absurd (congrArg List.head? htail) hopen
  next => exact bind_eq_ok_iff.mpr ⟨_, hread, rfl⟩

theorem IsRead.noMembers (hclose : skipBlank start = .scalar '\x7d' :: rest) :
    IsRead (room + 1) (.scalar '\x7b' :: start) (.value (.object [])) rest := by
  have hlength := length_of_skipBlank hclose
  refine ⟨by simp only [List.length_cons]; omega, ?_⟩
  rw [value.eq_3]
  refine bind_eq_ok_iff.mpr ⟨room, rfl, ?_⟩
  split
  next tail htail =>
    cases htail.symm.trans hclose
    rfl
  next hopen => exact absurd hclose (hopen rest)

theorem IsRead.someMembers (hopen : (skipBlank start).head? ≠ some (.scalar '\x7d'))
    (hmembers : IsRead room (skipBlank start) (.members found) rest) :
    IsRead (room + 1) (.scalar '\x7b' :: start) (.value (ofMembers found)) rest := by
  obtain ⟨hshorter, hread⟩ := hmembers
  have hlength := length_skipBlank start
  refine ⟨by simp only [List.length_cons]; omega, ?_⟩
  rw [value.eq_3]
  refine bind_eq_ok_iff.mpr ⟨room, rfl, ?_⟩
  split
  next tail htail => exact absurd (congrArg List.head? htail) hopen
  next => exact bind_eq_ok_iff.mpr ⟨_, hread, rfl⟩

theorem IsRead.lastItem (hitem : IsRead room text (.value item) after)
    (hclose : skipBlank after = .scalar ']' :: rest) :
    IsRead room text (.elements [item]) rest := by
  obtain ⟨hshorter, hread⟩ := hitem
  have hlength := length_of_skipBlank hclose
  refine ⟨by omega, ?_⟩
  rw [elements.eq_1]
  refine bind_eq_ok_iff.mpr ⟨_, hread, ?_⟩
  split
  next tail htail =>
    cases htail.symm.trans hclose
    rfl
  next tail htail => cases htail.symm.trans hclose
  next hnone _ => exact absurd hclose (hnone _)

theorem IsRead.nextItem (hitem : IsRead room text (.value item) after)
    (hcomma : skipBlank after = .scalar ',' :: others)
    (hitems : IsRead room (skipBlank others) (.elements items) rest) :
    IsRead room text (.elements (item :: items)) rest := by
  obtain ⟨hshorter, hread⟩ := hitem
  obtain ⟨hothers, hreadOthers⟩ := hitems
  have hlength := length_of_skipBlank hcomma
  have hblank := length_skipBlank others
  refine ⟨by omega, ?_⟩
  rw [elements.eq_1]
  refine bind_eq_ok_iff.mpr ⟨_, hread, ?_⟩
  split
  next tail htail => cases htail.symm.trans hcomma
  next tail htail =>
    cases htail.symm.trans hcomma
    exact bind_eq_ok_iff.mpr ⟨_, hreadOthers, rfl⟩
  next _ hnone => exact absurd hcomma (hnone _)

variable {middle afterColon : Text}

theorem IsRead.lastMember (hname : Body start name middle)
    (hcolon : skipBlank middle = .scalar ':' :: afterColon)
    (hitem : IsRead room (skipBlank afterColon) (.value item) after)
    (hclose : skipBlank after = .scalar '\x7d' :: rest) :
    IsRead room (.scalar '\x22' :: start) (.members [(name, item)]) rest := by
  obtain ⟨hshorterName, hreadName⟩ := textBody_of_body hname (start.length + 1)
  obtain ⟨hshorter, hread⟩ := hitem
  have hlength := length_of_skipBlank hclose
  have hblank := length_skipBlank afterColon
  have hafter := length_of_skipBlank hcolon
  refine ⟨by simp only [List.length_cons]; omega, ?_⟩
  rw [members.eq_1]
  refine bind_eq_ok_iff.mpr ⟨_, hreadName, ?_⟩
  split
  next tail htail =>
    cases htail.symm.trans hcolon
    refine bind_eq_ok_iff.mpr ⟨_, hread, ?_⟩
    split
    next tail htail =>
      cases htail.symm.trans hclose
      rfl
    next tail htail => cases htail.symm.trans hclose
    next hnone _ => exact absurd hclose (hnone _)
  next hnone => exact absurd hcolon (hnone _)

theorem IsRead.nextMember (hname : Body start name middle)
    (hcolon : skipBlank middle = .scalar ':' :: afterColon)
    (hitem : IsRead room (skipBlank afterColon) (.value item) after)
    (hcomma : skipBlank after = .scalar ',' :: others)
    (hmembers : IsRead room (skipBlank others) (.members found) rest) :
    IsRead room (.scalar '\x22' :: start) (.members ((name, item) :: found)) rest := by
  obtain ⟨hshorterName, hreadName⟩ := textBody_of_body hname (start.length + 1)
  obtain ⟨hshorter, hread⟩ := hitem
  obtain ⟨hothers, hreadOthers⟩ := hmembers
  have hlength := length_of_skipBlank hcomma
  have hblank := length_skipBlank afterColon
  have hrest := length_skipBlank others
  have hafter := length_of_skipBlank hcolon
  refine ⟨by simp only [List.length_cons]; omega, ?_⟩
  rw [members.eq_1]
  refine bind_eq_ok_iff.mpr ⟨_, hreadName, ?_⟩
  split
  next tail htail =>
    cases htail.symm.trans hcolon
    refine bind_eq_ok_iff.mpr ⟨_, hread, ?_⟩
    split
    next tail htail => cases htail.symm.trans hcomma
    next tail htail =>
      cases htail.symm.trans hcomma
      exact bind_eq_ok_iff.mpr ⟨_, hreadOthers, rfl⟩
    next _ hnone => exact absurd hcomma (hnone _)
  next hnone => exact absurd hcolon (hnone _)

theorem isRead_of_reads {part : Part} (hreads : Reads room text part rest) :
    IsRead room text part rest := by
  induction hreads with
  | text hbody => exact .quoted hbody
  | bare hbare hscalar => exact .bare hbare hscalar
  | noItems hclose => exact .noItems hclose
  | items hopen hitems ih => exact .someItems hopen ih
  | noMembers hclose => exact .noMembers hclose
  | members hopen hmembers ih => exact .someMembers hopen ih
  | lastItem hitem hclose ih => exact .lastItem ih hclose
  | nextItem hitem hcomma hitems ihitem ihitems => exact .nextItem ihitem hcomma ihitems
  | lastMember hname hcolon hitem hclose ih => exact .lastMember hname hcolon ih hclose
  | nextMember hname hcolon hitem hcomma hmembers ihitem ihmembers =>
      exact .nextMember hname hcolon ihitem hcomma ihmembers

theorem document_eq_ok_iff :
    document text = .ok json ↔ text.head? ≠ some (.scalar '\ufeff') ∧
      ∃ rest, Reads deepest (skipBlank text) (.value json) rest ∧ skipBlank rest = [] := by
  rw [document]
  constructor
  · intro hread
    split at hread
    next => contradiction
    next hmark =>
      obtain ⟨parsed, hparsed, hmatch⟩ := bind_eq_ok_iff.mp hread
      split at hmatch
      next hend =>
        cases hmatch
        exact ⟨hmark, parsed.rest, (readsWhatIsRead _).value hparsed, hend⟩
      next => contradiction
  · intro hreads
    obtain ⟨hmark, rest, hreads, hend⟩ := hreads
    obtain ⟨hshorter, hread⟩ := isRead_of_reads hreads
    rw [if_neg hmark]
    refine bind_eq_ok_iff.mpr ⟨_, hread, ?_⟩
    dsimp only
    rw [hend]
    rfl

end Completeness

end KeyLayout.Json
