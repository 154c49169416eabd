import Sentential.Rejection

/-!
# A walk over the tokens

Whether tokens can be those of a formula, limits apart, is seen by a walk from left to right that
remembers two things only: whether an operand or an operator is due, and how many parentheses are
open. `walk` says where the walk ends, and what is wrong there.
-/

namespace Sentential

/-- What is due next. -/
inductive Due
  | operand
  | operator
deriving DecidableEq

/-- What is wrong with the token `t` at `position`, where an operator is due and `opened`
parentheses are open. -/
def leftOver (opened position : Nat) (t : Token) : ParseError :=
  if 0 < opened then .expected .rparen t else .trailing t position

/-- Walks over the tokens from `position` on and ends with the place and, if there is one, the
error. -/
def walkFrom (due : Due) (opened position : Nat) (ts : List Token) : Nat × Option ParseError :=
  match due, ts with
  | .operand, [] => (position, some (if position = 0 then .noTokens else .incomplete))
  | .operand, .var _ :: ts => walkFrom .operator opened (position + 1) ts
  | .operand, .not :: ts => walkFrom .operand opened (position + 1) ts
  | .operand, .lparen :: ts => walkFrom .operand (opened + 1) (position + 1) ts
  | .operand, t :: _ => (position, some (.unexpected t))
  | .operator, [] => (position, if 0 < opened then some .unclosed else none)
  | .operator, .op _ :: ts => walkFrom .operand opened (position + 1) ts
  | .operator, t :: ts =>
    if t = .rparen ∧ 0 < opened then walkFrom .operator (opened - 1) (position + 1) ts
    else (position, some (leftOver opened position t))

/-- Walks over all tokens. -/
def walk (ts : List Token) : Nat × Option ParseError := walkFrom .operand 0 0 ts

end Sentential
