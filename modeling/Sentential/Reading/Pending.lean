import Sentential.Token.Basic

/-!
# Pending signs

A `∼` is pending until its operand is complete, a `(` until its `)` is read. After a list of tokens
the pending signs form a stack, the last one opened on top. A variable or a `)` completes an
operand, and with it all negations that wait for just this operand.
-/

namespace Sentential

/-- A sign that has to be completed. -/
inductive Pending
  | negation
  | paren
deriving DecidableEq

namespace Pending

/-- What is pending after an operand is complete. -/
def settle : List Pending → List Pending
  | negation :: stack => settle stack
  | stack => stack

/-- What is pending after one more token. -/
def step (stack : List Pending) : Token → List Pending
  | .var _ => settle stack
  | .not => negation :: stack
  | .op _ => stack
  | .lparen => paren :: stack
  | .rparen =>
    match settle stack with
    | paren :: stack => settle stack
    | stack => stack

/-- What is pending after the tokens. -/
def after (ts : List Token) : List Pending := ts.foldl step []

end Pending

/-- No more than `n` signs are pending at any place in the list. -/
def NestsWithin (n : Nat) (ts : List Token) : Prop :=
  ∀ us, us <+: ts → (Pending.after us).length ≤ n

end Sentential
