namespace KeyLayout

/-! A meta state is an integer read as an endless row of bits; a negative one has
only finitely many bits clear.  Everything else looks at it through `testBit`. -/

abbrev MetaState := Int

namespace MetaState

def testBit : MetaState → Nat → Bool
  | .ofNat value, position => value.testBit position
  | .negSucc value, position => !value.testBit position

def flipBit : MetaState → Nat → MetaState
  | .ofNat value, position => .ofNat (value ^^^ Nat.pow 2 position)
  | .negSucc value, position => .negSucc (value ^^^ Nat.pow 2 position)

def setBit (state : MetaState) (position : Nat) : MetaState :=
  if state.testBit position then state else state.flipBit position

def clearBit (state : MetaState) (position : Nat) : MetaState :=
  if state.testBit position then state.flipBit position else state

def setBits (state : MetaState) (positions : List Nat) : MetaState :=
  positions.foldl setBit state

def clearBits (state : MetaState) (positions : List Nat) : MetaState :=
  positions.foldl clearBit state

/-- The number of bits set in the absolute value. -/
def bitCount (state : MetaState) : Nat :=
  (List.range (state.natAbs.log2 + 1)).countP state.natAbs.testBit

@[simp] theorem testBit_flipBit (state : MetaState) (position other : Nat) :
    (state.flipBit position).testBit other =
      (state.testBit other ^^ decide (position = other)) := by
  cases state with
  | ofNat value =>
      change (value ^^^ 2 ^ position).testBit other = _
      simp [testBit, Nat.testBit_two_pow]
  | negSucc value =>
      change (!(value ^^^ 2 ^ position).testBit other) = _
      simp [testBit, Nat.testBit_two_pow]

@[simp] theorem testBit_setBit (state : MetaState) (position other : Nat) :
    (state.setBit position).testBit other =
      (decide (position = other) || state.testBit other) := by
  unfold setBit
  split <;> by_cases heq : position = other <;> simp_all

@[simp] theorem testBit_clearBit (state : MetaState) (position other : Nat) :
    (state.clearBit position).testBit other =
      (!decide (position = other) && state.testBit other) := by
  unfold clearBit
  split <;> by_cases heq : position = other <;> simp_all

@[simp] theorem testBit_setBits (state : MetaState) (positions : List Nat) (other : Nat) :
    (state.setBits positions).testBit other =
      (positions.contains other || state.testBit other) := by
  induction positions generalizing state with
  | nil => simp [setBits]
  | cons position positions ih =>
      have hstep : state.setBits (position :: positions) =
          (state.setBit position).setBits positions := rfl
      rw [hstep, ih, testBit_setBit]
      by_cases heq : position = other
      · simp [heq]
      · simp [heq, Ne.symm heq]

@[simp] theorem testBit_clearBits (state : MetaState) (positions : List Nat) (other : Nat) :
    (state.clearBits positions).testBit other =
      (!positions.contains other && state.testBit other) := by
  induction positions generalizing state with
  | nil => simp [clearBits]
  | cons position positions ih =>
      have hstep : state.clearBits (position :: positions) =
          (state.clearBit position).clearBits positions := rfl
      rw [hstep, ih, testBit_clearBit]
      by_cases heq : position = other
      · simp [heq]
      · simp [heq, Ne.symm heq]

end MetaState

end KeyLayout
