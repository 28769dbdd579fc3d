import KeyLayout.Proofs.MessagePack.Recovery

namespace KeyLayout.MessagePack

/-! Readers look at no more bytes than they read: what follows changes neither what is read nor
any fault but that the bytes end early. -/

variable {α β : Type}

/-- What is read of these bytes, or the fault in them unless they end early, is the same when
more bytes follow. -/
def Read.Settled (read : Read α) (bytes : List UInt8) : Prop :=
  ∀ more, read bytes = .error .malformed ∨
    read (bytes ++ more) = (read bytes).map (Prod.map id (· ++ more))

def Read.Incremental (read : Read α) : Prop :=
  ∀ bytes, read.Settled bytes

namespace Read.Settled

variable {read : Read α} {next : α → Read β} {bytes : List UInt8}

theorem andThen (hread : read.Settled bytes)
    (hnext : ∀ value rest, read bytes = .ok (value, rest) → (next value).Settled rest) :
    (read.andThen next).Settled bytes := by
  intro more
  rw [Read.andThen, Read.andThen]
  rcases hread more with hmalformed | hmore
  · exact .inl (by rw [hmalformed]; rfl)
  · rw [hmore]
    cases hbytes : read bytes with
    | error fault => exact .inr rfl
    | ok found => exact hnext found.1 found.2 hbytes more

end Read.Settled

namespace Read.Incremental

variable {read : Read α} {next : α → Read β}

theorem andThen (hread : read.Incremental) (hnext : ∀ value, (next value).Incremental) :
    (read.andThen next).Incremental :=
  fun bytes => (hread bytes).andThen fun value rest _ => hnext value rest

theorem pure (value : α) : Incremental fun bytes => .ok (value, bytes) :=
  fun _ _ => .inr rfl

theorem fault (fault : ReadFault) : Incremental (fun _ => .error fault : Read α) :=
  fun _ _ => .inr rfl

end Read.Incremental

section Heads

theorem incremental_takeBytes (count : Nat) : Read.Incremental (takeBytes count) := by
  induction count with
  | zero => exact .pure []
  | succ count ih =>
      rintro (_ | ⟨byte, bytes⟩)
      · exact fun _ => .inl rfl
      · have htake : Read.Settled (Read.andThen (takeBytes count) fun taken rest =>
            .ok (byte :: taken, rest)) bytes :=
          (ih bytes).andThen fun _ _ _ _ => .inr rfl
        exact htake

theorem incremental_headNumber (width : Nat) (make : Nat → Head) :
    Read.Incremental (headNumber width make) :=
  (incremental_takeBytes width).andThen fun taken => .pure (make (ofBigEndian taken))

theorem incremental_readHead : Read.Incremental readHead := by
  rintro (_ | ⟨byte, rest⟩) more
  · exact .inl rfl
  · rw [List.cons_append, readHead, readHead]
    repeat' split
    all_goals first
      | exact .inr rfl
      | exact incremental_headNumber _ _ rest more

end Heads

def Reader.Incremental (reader : Reader α) : Prop :=
  ∀ head : Head, Read.Incremental (reader head)

namespace Reader.Incremental

variable {reader : Reader α} {other : Reader β}

theorem read (hreader : reader.Incremental) : Read.Incremental reader.read :=
  incremental_readHead.andThen hreader

theorem refuse (head : Head) : Read.Incremental (Reader.refuse head : Read α) := by
  intro bytes more
  have htake := incremental_takeBytes head.payload bytes more
  rw [Reader.refuse, Reader.refuse]
  rcases htake with hmalformed | hmore
  · exact .inl (by rw [hmalformed])
  · rw [hmore]
    cases takeBytes head.payload bytes <;> exact .inr rfl

theorem int (accept : Int → Bool) : (Reader.int accept).Incremental := by
  intro head bytes more
  unfold Reader.int
  split
  next value =>
    split
    next => exact .inr rfl
    next => exact .inr rfl
  next => exact refuse head bytes more

theorem bool : Reader.bool.Incremental := by
  intro head bytes more
  unfold Reader.bool
  split
  next => exact .inr rfl
  next => exact refuse head bytes more

theorem text : Reader.text.Incremental := by
  intro head bytes more
  unfold Reader.text
  split
  next length =>
    rcases incremental_takeBytes length bytes more with hmalformed | hmore
    · exact .inl (by rw [hmalformed]; rfl)
    · rw [hmore]
      cases takeBytes length bytes with
      | error fault => exact .inr rfl
      | ok found =>
          dsimp only [Except.map, Prod.map, bind, Except.bind, id]
          cases Utf8.decode found.1 <;> exact .inr rfl
  next => exact refuse head bytes more

theorem character : Reader.character.Incremental := by
  intro head
  rw [character_eq]
  refine (text head).andThen fun text => ?_
  split <;> first | exact .pure _ | exact .fault _

theorem option (hreader : reader.Incremental) : (Reader.option reader).Incremental := by
  intro head bytes more
  unfold Reader.option
  split
  next => exact .inr rfl
  next => exact (hreader head).andThen (fun value => .pure (some value)) bytes more

theorem items (hreader : reader.Incremental) (count : Nat) :
    Read.Incremental (Reader.items reader count) := by
  induction count with
  | zero => exact .pure []
  | succ count ih =>
      rw [items_succ]
      exact hreader.read.andThen fun item => ih.andThen fun others => .pure (item :: others)

theorem array (hreader : reader.Incremental) : (Reader.array reader).Incremental := by
  intro head bytes more
  unfold Reader.array
  split
  next length => exact hreader.items length bytes more
  next => exact refuse head bytes more

theorem entries (hreader : reader.Incremental) (hother : other.Incremental) (count : Nat) :
    Read.Incremental (Reader.entries reader other count) := by
  induction count with
  | zero => exact .pure []
  | succ count ih =>
      rw [entries_succ]
      exact hreader.read.andThen fun key => hother.read.andThen fun value =>
        ih.andThen fun others => .pure ((key, value) :: others)

theorem map (hreader : reader.Incremental) (hother : other.Incremental) :
    (Reader.map reader other).Incremental := by
  intro head bytes more
  unfold Reader.map
  split
  next length => exact hreader.entries hother length bytes more
  next => exact refuse head bytes more

end Reader.Incremental

section Records

variable {σ : Type} {reader : FieldReader σ}

theorem incremental_fieldName : Read.Incremental fieldName := by
  rintro (_ | ⟨byte, rest⟩) more
  · exact .inl rfl
  · rw [List.cons_append, fieldName, fieldName]
    dsimp only
    split
    next =>
      exact incremental_readHead.andThen (fun head => incremental_takeBytes head.payload)
        (byte :: rest) more
    next => exact .inr rfl

theorem skip_succ (count : Nat) (outer : List Nat) (bytes : List UInt8) :
    skip ((count + 1) :: outer) bytes = (do
      let (head, rest) ← readHead bytes
      let (_, rest) ← takeBytes head.payload rest
      if head.children = 0 then skip (count :: outer) rest
      else if deepest < outer.length + 1 then .error .depth
      else skip (head.children :: count :: outer) rest) := by
  rw [skip]
  split
  next fault hhead =>
    rw [hhead]
    rfl
  next head rest hhead =>
    rw [hhead]
    dsimp only [bind, Except.bind]
    split
    next fault htake => rw [htake]
    next taken left htake => rw [htake, List.length_cons]

/-- What is due is read as nothing. -/
def skipping (due : List Nat) : Read Unit := fun bytes => do
  let rest ← skip due bytes
  return ((), rest)

theorem skipping_nil : skipping [] = fun bytes => .ok ((), bytes) := by
  funext bytes
  rw [skipping, skip]
  rfl

theorem skipping_zero (outer : List Nat) : skipping (0 :: outer) = skipping outer := by
  funext bytes
  rw [skipping, skipping, skip]

theorem skipping_succ (count : Nat) (outer : List Nat) :
    skipping ((count + 1) :: outer) = Read.andThen readHead fun head =>
      Read.andThen (takeBytes head.payload) fun _ =>
        if head.children = 0 then skipping (count :: outer)
        else if deepest < outer.length + 1 then fun _ => .error .depth
        else skipping (head.children :: count :: outer) := by
  funext bytes
  simp only [skipping, skip_succ, Read.andThen, bind_assoc]
  congr 1
  funext found
  congr 1
  funext taken
  split
  next => rfl
  split <;> rfl

theorem settled_skipping (due : List Nat) (bytes : List UInt8) :
    (skipping due).Settled bytes := by
  match due with
  | [] =>
      rw [skipping_nil]
      exact Read.Incremental.pure () bytes
  | 0 :: outer =>
      rw [skipping_zero]
      exact settled_skipping outer bytes
  | (count + 1) :: outer =>
      rw [skipping_succ]
      refine (incremental_readHead bytes).andThen fun head held hhead => ?_
      refine (incremental_takeBytes head.payload held).andThen fun taken rest htake => ?_
      -- an item is at least one byte long, so that fewer bytes are left
      have hrest : rest.length < bytes.length := by
        have hheld := length_readHead hhead
        have htaken := length_takeBytes htake
        omega
      split
      next => exact settled_skipping (count :: outer) rest
      split
      next => exact Read.Incremental.fault .depth rest
      next => exact settled_skipping (head.children :: count :: outer) rest
termination_by (bytes.length, due.length)

theorem Read.Incremental.field {own : Reader α} (hown : own.Incremental) (set : α → σ) :
    Read.Incremental (FieldReader.field own set) :=
  hown.read.andThen fun value => .pure (set value)

theorem Read.Incremental.skip (state : σ) : Read.Incremental (FieldReader.skip state) := by
  have hskip : FieldReader.skip state =
      Read.andThen (skipping [1]) fun _ rest => .ok (state, rest) := by
    funext bytes
    rw [FieldReader.skip, Read.andThen, skipping]
    cases MessagePack.skip [1] bytes <;> rfl
  rw [hskip]
  exact Read.Incremental.andThen (settled_skipping [1]) fun _ => .pure state

def FieldReader.Incremental (reader : FieldReader σ) : Prop :=
  ∀ name state, Read.Incremental (reader name state)

namespace FieldReader.Incremental

theorem read (hreader : reader.Incremental) (count : Nat) (state : σ) :
    Read.Incremental (reader.read count state) := by
  induction count generalizing state with
  | zero => exact .pure state
  | succ count ih =>
      rw [read_succ]
      exact incremental_fieldName.andThen fun name => (hreader name state).andThen ih

theorem record (hreader : reader.Incremental) (start : σ) :
    (Reader.record reader start).Incremental := by
  intro head bytes more
  unfold Reader.record
  split
  next length => exact hreader.read length start bytes more
  next => exact Reader.Incremental.refuse head bytes more

end FieldReader.Incremental

end Records

/-! What reads back everything that is written reads none of it in part, and nothing longer. -/

section Whole

variable {refused : Prop} {reader : Reader α} {written : Written} {value : α}
  {bytes part more : List UInt8}

theorem whole_of_read_error {fault : ReadFault} (hread : reader.read bytes = .error fault) :
    reader.whole bytes = .error fault := by
  rw [Reader.whole, hread]
  rfl

theorem whole_of_rest (hread : reader.read bytes = .ok (value, more)) (hmore : more ≠ []) :
    reader.whole bytes = .error .malformed := by
  rw [Reader.whole, hread]
  exact if_neg fun hempty => hmore (List.isEmpty_iff.mp hempty)

theorem Undoes.whole_prefix (hundoes : Undoes refused reader.read written value)
    (hreader : reader.Incremental) (hwritten : written = .ok (part ++ more)) (hmore : more ≠ []) :
    reader.whole part = .error .malformed ∨ refused ∧ reader.whole part = .error .invalid := by
  have hwhole := hundoes (part ++ more) hwritten []
  rw [List.append_nil] at hwhole
  rcases hreader.read part more with hmalformed | hpart
  · exact .inl (whole_of_read_error hmalformed)
  rw [hpart] at hwhole
  cases hread : reader.read part with
  | error fault =>
      rw [hread] at hwhole
      rcases hwhole with hok | ⟨hrefused, herror⟩
      · contradiction
      · cases herror
        exact .inr ⟨hrefused, whole_of_read_error hread⟩
  | ok found =>
      rw [hread] at hwhole
      rcases hwhole with hok | ⟨-, herror⟩
      -- then the bytes after this part would be what is left of it
      · have hrest : found.2 ++ more = [] := congrArg Prod.snd (Except.ok.inj hok)
        exact absurd (List.append_eq_nil_iff.mp hrest).2 hmore
      · contradiction

theorem Undoes.whole_append (hundoes : Undoes refused reader.read written value)
    (hwritten : written = .ok bytes) (hmore : more ≠ []) :
    reader.whole (bytes ++ more) = .error .malformed ∨
      refused ∧ reader.whole (bytes ++ more) = .error .invalid := by
  rcases hundoes bytes hwritten more with hread | ⟨hrefused, hread⟩
  · exact .inl (whole_of_rest hread hmore)
  · exact .inr ⟨hrefused, whole_of_read_error hread⟩

theorem Undoes.eq_of_append {other : Written} {own : α}
    (hundoes : Undoes False reader.read written value) (hwritten : written = .ok bytes)
    (hother : Undoes False reader.read other own) (hbytes : other = .ok (bytes ++ more)) :
    more = [] ∧ own = value := by
  have hread := hundoes.read_eq hwritten more
  have hown := hother.read_eq hbytes []
  rw [List.append_nil, hread] at hown
  cases hown
  exact ⟨rfl, rfl⟩

end Whole

end KeyLayout.MessagePack
