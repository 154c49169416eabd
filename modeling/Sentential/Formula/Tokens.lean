import Sentential.Formula.Basic
import Sentential.Token.Basic

/-!
# The signs of a formula in order

The order in which the signs of a formula stand in a text, parentheses left out: a negation before
what it negates, a connective between its operands.
-/

namespace Sentential

/-- The token is a parenthesis. -/
def Token.isParen : Token → Bool
  | .lparen => true
  | .rparen => true
  | _ => false

namespace Formula

/-- The signs of the formula from left to right, without parentheses. -/
def signs : Formula → List Token
  | var v => [.var v]
  | not f => .not :: f.signs
  | binary c l r => l.signs ++ .op c :: r.signs

theorem length_signs (f : Formula) : f.signs.length = f.size := by
  induction f with
  | var _ => rfl
  | not f ih => rw [signs, size, List.length_cons, ih]
  | binary c l r ihl ihr =>
    rw [signs, size, List.length_append, List.length_cons, ihl, ihr]
    omega

theorem filterMap_signs (f : Formula) : f.signs.filterMap Token.letter? = f.leaves := by
  induction f with
  | var v => rfl
  | not f ih => rw [signs, leaves, ← ih]; rfl
  | binary c l r ihl ihr => rw [signs, leaves, ← ihl, ← ihr, List.filterMap_append]; rfl

end Formula

end Sentential
