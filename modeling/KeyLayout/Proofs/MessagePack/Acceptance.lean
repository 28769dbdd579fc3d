import KeyLayout.Proofs.MessagePack.Recovery

namespace KeyLayout.MessagePack

/-! What is read is never too large to be written: no form has room for a longer number, and
every text is made of characters. -/

variable {α β : Type}

/-- Everything that is read satisfies the condition. -/
def Read.Yields (read : Read α) (holds : α → Prop) : Prop :=
  ∀ bytes value rest, read bytes = .ok (value, rest) → holds value

namespace Read.Yields

variable {read : Read α} {next : α → Read β} {holds : α → Prop} {holdsNext : β → Prop}

theorem andThen (hread : read.Yields holds)
    (hnext : ∀ value, holds value → (next value).Yields holdsNext) :
    (read.andThen next).Yields holdsNext := by
  intro bytes value rest hvalue
  obtain ⟨⟨first, held⟩, hfirst, hsecond⟩ := bind_eq_ok_iff.mp hvalue
  exact hnext first (hread bytes first held hfirst) held value rest hsecond

theorem pure {value : α} (hvalue : holds value) :
    Yields (fun bytes => .ok (value, bytes)) holds := by
  rintro bytes _ _ heq
  cases heq
  exact hvalue

theorem any : read.Yields fun _ => True :=
  fun _ _ _ _ => True.intro

theorem mono {weaker : α → Prop} (hread : read.Yields holds)
    (hweaker : ∀ value, holds value → weaker value) : read.Yields weaker :=
  fun bytes value rest hvalue => hweaker value (hread bytes value rest hvalue)

end Read.Yields

section Heads

variable {width : Nat}

theorem yields_takeBytes (count : Nat) :
    Read.Yields (takeBytes count) fun taken => taken.length = count := by
  induction count with
  | zero => exact .pure rfl
  | succ count ih =>
      intro bytes taken rest htake
      cases bytes with
      | nil => contradiction
      | cons byte bytes =>
          obtain ⟨⟨others, left⟩, hothers, heq⟩ := bind_eq_ok_iff.mp htake
          cases heq
          exact congrArg (· + 1) (ih bytes others _ hothers)

theorem foldl_lt (bytes : List UInt8) (total : Nat) :
    bytes.foldl (fun total byte => total * 256 + byte.toNat) total <
      (total + 1) * 256 ^ bytes.length := by
  induction bytes generalizing total with
  | nil => simp
  | cons byte rest ih =>
      have hbyte := byte.toNat_lt
      calc (byte :: rest).foldl (fun total byte => total * 256 + byte.toNat) total
          < (total * 256 + byte.toNat + 1) * 256 ^ rest.length := ih _
        _ ≤ ((total + 1) * 256) * 256 ^ rest.length := Nat.mul_le_mul_right _ (by omega)
        _ = (total + 1) * 256 ^ (byte :: rest).length := by
            rw [List.length_cons, Nat.pow_succ, Nat.mul_assoc, Nat.mul_comm 256]

theorem ofBigEndian_lt (bytes : List UInt8) : ofBigEndian bytes < 256 ^ bytes.length := by
  have hlt := foldl_lt bytes 0
  rwa [Nat.zero_add, Nat.one_mul] at hlt

/-- Numbers and lengths are in the range of their widest form. -/
def Head.Bounded : Head → Prop
  | .int value => value < 2 ^ 64
  | .text length => length < 2 ^ 32
  | .array length => length < 2 ^ 32
  | .map length => length < 2 ^ 32
  | _ => True

theorem yields_headNumber {make : Nat → Head}
    (hmake : ∀ number < 256 ^ width, (make number).Bounded) :
    Read.Yields (headNumber width make) Head.Bounded := by
  change Read.Yields (Read.andThen (takeBytes width) fun taken rest =>
    .ok (make (ofBigEndian taken), rest)) _
  refine (yields_takeBytes width).andThen fun taken htaken => .pure (hmake _ ?_)
  rw [← htaken]
  exact ofBigEndian_lt taken

theorem bounded_signed {number : Nat} (hnumber : number < 2 ^ 64) :
    (signed width number).Bounded := by
  have hhalf : (if number < Nat.pow 2 (8 * width - 1) then (number : Int)
      else number - (Nat.pow 2 (8 * width) : Nat)) ≤ number := by
    split <;> omega
  exact Int.lt_of_le_of_lt hhalf (Int.ofNat_lt.mpr hnumber)

theorem yields_readHead : Read.Yields readHead Head.Bounded := by
  intro bytes head rest hread
  cases bytes with
  | nil => contradiction
  | cons byte tail =>
      have hbyte := byte.toNat_lt
      rw [readHead] at hread
      repeat' split at hread
      -- a head is bounded by its own byte, or by the bytes of its number, or it has no number
      all_goals first
        | contradiction
        | (cases hread; first | exact True.intro | (simp only [Head.Bounded]; omega))
        | (refine yields_headNumber (fun number hnumber => ?_) _ _ _ hread
           first
             | exact True.intro
             | (simp only [Head.Bounded]; omega)
             | exact bounded_signed (by omega))

end Heads

/-- Everything that is read after a head satisfies the condition. -/
def Reader.Yields (reader : Reader α) (holds : α → Prop) : Prop :=
  ∀ head : Head, head.Bounded → Read.Yields (reader head) holds

theorem Reader.Yields.any {reader : Reader α} : reader.Yields fun _ => True :=
  fun _ _ => .any

theorem Reader.refuse_ne_ok {head : Head} {bytes : List UInt8} {result : α × List UInt8} :
    Reader.refuse head bytes ≠ .ok result := by
  intro hrefuse
  rw [Reader.refuse] at hrefuse
  split at hrefuse <;> contradiction

namespace Reader.Yields

variable {reader : Reader α} {other : Reader β} {holds : α → Prop} {holdsOther : β → Prop}

theorem read (hreader : reader.Yields holds) : Read.Yields reader.read holds :=
  yields_readHead.andThen hreader

theorem int (accept : Int → Bool) :
    (Reader.int accept).Yields fun value => accept value = true ∧ value < 2 ^ 64 := by
  intro head hbounded bytes value rest hread
  unfold Reader.int at hread
  split at hread
  next own =>
    split at hread
    next haccept =>
      cases hread
      exact ⟨haccept, hbounded⟩
    next => contradiction
  next => exact absurd hread refuse_ne_ok

/-- The bytes that a text is read from are those that it is encoded in. -/
theorem text :
    Reader.text.Yields fun text =>
      ∃ encoded, Utf8.encode text = .ok encoded ∧ encoded.length < 2 ^ 32 := by
  intro head hbounded bytes text rest hread
  unfold Reader.text at hread
  split at hread
  next length =>
    obtain ⟨⟨taken, left⟩, htake, hdecoded⟩ := bind_eq_ok_iff.mp hread
    have hlength := yields_takeBytes length _ taken left htake
    dsimp only at hdecoded
    split at hdecoded
    next own hdecode =>
      cases hdecoded
      exact ⟨taken, Utf8.encode_of_decode hdecode, hlength ▸ hbounded⟩
    next => contradiction
  next => exact absurd hread refuse_ne_ok

theorem character : Reader.character.Yields fun point => point.isSurrogate = false := by
  intro head hbounded bytes point rest hread
  obtain ⟨⟨text, left⟩, htext, hpoint⟩ := bind_eq_ok_iff.mp hread
  obtain ⟨encoded, hencode, -⟩ := Yields.text head hbounded bytes text left htext
  dsimp only at hpoint
  split at hpoint
  next own =>
    cases hpoint
    exact Utf8.isSurrogate_of_encode hencode point (List.mem_singleton_self point)
  next => contradiction

theorem option (hreader : reader.Yields holds) :
    (Reader.option reader).Yields fun value => ∀ own ∈ value, holds own := by
  intro head hbounded
  have hsome : Read.Yields (Read.andThen (reader head) fun own bytes => .ok (some own, bytes))
      fun value => ∀ own ∈ value, holds own :=
    (hreader head hbounded).andThen fun own hown =>
      .pure fun _ hmem => Option.mem_some.mp hmem ▸ hown
  cases head with
  | nil => exact .pure fun _ hmem => nomatch hmem
  | _ => exact hsome

theorem items (hreader : reader.Yields holds) (count : Nat) :
    Read.Yields (Reader.items reader count) fun values =>
      values.length = count ∧ ∀ value ∈ values, holds value := by
  induction count with
  | zero => exact .pure ⟨rfl, fun _ hmem => nomatch hmem⟩
  | succ count ih =>
      rw [items_succ]
      refine hreader.read.andThen fun item hitem => ih.andThen fun others hothers => .pure ?_
      exact ⟨congrArg (· + 1) hothers.1, List.forall_mem_cons.mpr ⟨hitem, hothers.2⟩⟩

theorem array (hreader : reader.Yields holds) :
    (Reader.array reader).Yields fun values =>
      values.length < 2 ^ 32 ∧ ∀ value ∈ values, holds value := by
  intro head hbounded bytes values rest hread
  unfold Reader.array at hread
  split at hread
  next length =>
    obtain ⟨hlength, hvalues⟩ := hreader.items length _ _ _ hread
    exact ⟨hlength ▸ hbounded, hvalues⟩
  next => exact absurd hread refuse_ne_ok

theorem entries (hreader : reader.Yields holds) (hother : other.Yields holdsOther) (count : Nat) :
    Read.Yields (Reader.entries reader other count) fun entries =>
      entries.length = count ∧ ∀ entry ∈ entries, holds entry.1 ∧ holdsOther entry.2 := by
  induction count with
  | zero => exact .pure ⟨rfl, fun _ hmem => nomatch hmem⟩
  | succ count ih =>
      rw [entries_succ]
      refine hreader.read.andThen fun key hkey => hother.read.andThen fun value hvalue =>
        ih.andThen fun others hothers => .pure ?_
      exact ⟨congrArg (· + 1) hothers.1, List.forall_mem_cons.mpr ⟨⟨hkey, hvalue⟩, hothers.2⟩⟩

theorem map (hreader : reader.Yields holds) (hother : other.Yields holdsOther) :
    (Reader.map reader other).Yields fun entries =>
      entries.length < 2 ^ 32 ∧ ∀ entry ∈ entries, holds entry.1 ∧ holdsOther entry.2 := by
  intro head hbounded bytes entries rest hread
  unfold Reader.map at hread
  split at hread
  next length =>
    obtain ⟨hlength, hentries⟩ := hreader.entries hother length _ _ _ hread
    exact ⟨hlength ▸ hbounded, hentries⟩
  next => exact absurd hread refuse_ne_ok

end Reader.Yields

section Records

variable {σ : Type} {reader : FieldReader σ} {holds : σ → Prop} {state : σ}

theorem Read.Yields.field {own : Reader α} {set : α → σ} {holdsOwn : α → Prop}
    (hown : own.Yields holdsOwn) (hset : ∀ value, holdsOwn value → holds (set value)) :
    Read.Yields (FieldReader.field own set) holds := by
  change Read.Yields (Read.andThen own.read fun value bytes => .ok (set value, bytes)) holds
  exact hown.read.andThen fun value hvalue => .pure (hset value hvalue)

theorem Read.Yields.skip (hstate : holds state) : Read.Yields (FieldReader.skip state) holds := by
  intro bytes own rest hskip
  obtain ⟨left, -, heq⟩ := bind_eq_ok_iff.mp hskip
  cases heq
  exact hstate

/-- No field takes the condition from a record. -/
def FieldReader.Keeps (reader : FieldReader σ) (holds : σ → Prop) : Prop :=
  ∀ name state, holds state → Read.Yields (reader name state) holds

namespace FieldReader.Keeps

theorem read (hreader : reader.Keeps holds) (hstate : holds state) (count : Nat) :
    Read.Yields (reader.read count state) holds := by
  induction count generalizing state with
  | zero => exact .pure hstate
  | succ count ih =>
      rw [read_succ]
      exact Read.Yields.any.andThen fun name _ =>
        (hreader name state hstate).andThen fun next hnext => ih hnext

theorem record (hreader : reader.Keeps holds) (hstate : holds state) :
    (Reader.record reader state).Yields holds := by
  intro head hbounded bytes last rest hread
  unfold Reader.record at hread
  split at hread
  next length => exact hreader.read hstate length _ _ _ hread
  next => exact absurd hread Reader.refuse_ne_ok

end FieldReader.Keeps

end Records

end KeyLayout.MessagePack
