/-!
# Binary connectives

The five connectives between two formulas, how tightly each of them binds, its sign and its truth
function.
-/

namespace Sentential

/-- A binary connective. -/
inductive Connective
  | iff
  | implies
  | or
  | xor
  | and
deriving DecidableEq, Repr

namespace Connective

/-- The connectives from the one that binds most loosely to the one that binds most tightly. -/
def ladder : List Connective := [iff, implies, or, xor, and]

/-- The sign of the connective. -/
def glyph : Connective → Char
  | iff => '↔'
  | implies => '→'
  | or => '∨'
  | xor => '⊻'
  | and => '∧'

/-- The truth function of the connective. -/
def apply : Connective → Bool → Bool → Bool
  | iff, a, b => a == b
  | implies, a, b => !a || b
  | or, a, b => a || b
  | xor, a, b => a != b
  | and, a, b => a && b

theorem glyph_injective {c d : Connective} (h : c.glyph = d.glyph) : c = d := by
  revert h; cases c <;> cases d <;> decide

theorem mem_ladder (c : Connective) : c ∈ ladder := by cases c <;> decide

end Connective

end Sentential
