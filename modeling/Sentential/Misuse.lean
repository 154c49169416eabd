import Sentential.Limits
import Sentential.Variable
import Sentential.Text.Quoted

/-!
# Misuse

What a caller can do that no text and no formula does: name a variable by something other than an
uppercase letter, ask for an alphabet without letters or for a limit out of bounds, ask for a row
that a table has not, or evaluate a formula where one of its variables has no value. The functions
that can be misused answer with an `Except Misuse`.
-/

namespace Sentential

/-- A broken condition on the arguments of a function. -/
inductive Misuse
  /-- Not the name of a variable. -/
  | badName (name : Char)
  /-- One of the bounds of an alphabet is not an uppercase letter. -/
  | badBounds
  /-- The last letter of an alphabet comes before its first one. -/
  | emptyAlphabet (first last : Variable)
  /-- Options that allow no variable at all. -/
  | zeroLimit
  /-- Options that allow more variables than a table can have. -/
  | largeLimit (limit : Nat)
  /-- More variables than a table can have. -/
  | wideRow (count : Nat)
  /-- A row beyond the last one. -/
  | noSuchRow (index count : Nat)
  /-- A variable without a value. -/
  | unbound (v : Variable)
deriving DecidableEq

/-- The condition in words. -/
def Misuse.message : Misuse → String
  | .badName c => s!"Variable names must be uppercase letters, got {Text.quoteChar c}"
  | .badBounds => "Alphabet bounds must be uppercase letters"
  | .emptyAlphabet v w => s!"Alphabet range is empty: {v}..={w}"
  | .zeroLimit => "At least one variable must be allowed"
  | .largeLimit n => s!"max_vars must be at most {maxVariables}, got {n}"
  | .wideRow n => s!"Too many variables: {n}"
  | .noSuchRow i n => s!"Row index {i} out of range for {n} variables"
  | .unbound v => s!"Variable {v} is not bound"

/-- The variable of that name. -/
def Variable.ofChar (c : Char) : Except Misuse Variable :=
  match ofChar? c with
  | some v => .ok v
  | none => .error (.badName c)

end Sentential
