import Sentential.Misuse

/-!
# Faults

A step of a computation can be impossible: a number would fall below zero, a shift would lose
digits, a condition on arguments is broken, a budget of calls is used up. None of this is an answer
about the input, so it is kept apart from the refusal of the input.
-/

namespace Sentential

/-- Why a step is impossible. -/
inductive Fault
  | misuse (m : Misuse)
  /-- Something is subtracted from a smaller number. -/
  | belowZero
  /-- A shift is as wide as a word, or moves a digit out of it. -/
  | shiftedOut
  /-- No more calls, or no more turns of a loop, are allowed. -/
  | exhausted
deriving DecidableEq

/-- Why a computation has no result: it refuses its input, or one of its steps is impossible. -/
inductive Halt (ε : Type)
  | refused (e : ε)
  | fault (x : Fault)
deriving DecidableEq

/-- Says the same of the input in other words. -/
def Halt.map {ε δ : Type} (g : ε → δ) : Halt ε → Halt δ
  | refused e => refused (g e)
  | fault x => fault x

end Sentential
