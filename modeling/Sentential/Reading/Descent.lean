import Sentential.Fault
import Sentential.Reading.Reader

/-!
# Descending through the rungs

The reading of a formula, step by step: a cursor moves over the tokens, a counter is raised for each
sign that is opened and lowered when it is finished, and a chain is read in a loop whose operands
are read by calls for the next rung. `formula` is the whole of it. Here the steps that could be
impossible can be seen: the counter is lowered only if it is not zero, calls nest only as deep as a
budget allows, and a loop has only so many turns.
-/

namespace Sentential

/-- A computation that moves a reader. -/
abbrev Descent : Type → Type := EStateM (Halt ParseError) Reader

namespace Descent

/-- The computation cannot go on, and it is the tokens that are to blame. -/
def refuse {α : Type} (e : ParseError) : Descent α := throw (.refused e)

/-- The next token, if there is one. -/
def peek : Descent (Option Token) := do
  let r ← get
  return r.tokens[r.position]?

/-- Consumes a token. -/
def skip : Descent Unit := modify fun r => { r with position := r.position + 1 }

/-- Consumes the next token if it is this one. -/
def eat (t : Token) : Descent Bool := do
  if (← peek) = some t then
    skip
    return true
  else return false

/-- Opens a sign. It is counted before the limit is looked at. -/
def enter : Descent Unit := do
  modify fun r => { r with nesting := r.nesting + 1 }
  let r ← get
  if r.limit < r.nesting then refuse (.tooDeep maxDepth)

/-- Finishes a sign, of which there has to be one. -/
def leave : Descent Unit := do
  let r ← get
  match r.nesting with
  | 0 => throw (.fault .belowZero)
  | n + 1 => set { r with nesting := n }

/-- The depth, if it is not too large. -/
def bound (d : Nat) : Descent Nat :=
  if maxDepth < d then refuse (.tooDeep maxDepth) else return d

/-- Consumes the `)` that has to come next. -/
def close : Descent Unit := do
  match ← peek with
  | some .rparen => skip
  | some t => refuse (.expected .rparen t)
  | none => refuse .unclosed

/-- Goes on with a chain that so far is `f`, of depth `d`, as long as its connective follows. -/
def links (operand : Descent (Formula × Nat)) (c : Connective) :
    (turns : Nat) → Formula → Nat → Descent (Formula × Nat)
  | 0, _, _ => throw (.fault .exhausted)
  | turns + 1, f, d => do
    if ← eat (.op c) then
      let (g, e) ← operand
      let d ← bound (1 + max d e)
      links operand c turns (.binary c f g) d
    else return (f, d)

mutual

/-- Reads a formula of rung `l`, with its depth. -/
def level : (calls : Nat) → (l : Nat) → Descent (Formula × Nat)
  | 0, _ => throw (.fault .exhausted)
  | calls + 1, l =>
    match Connective.ladder[l]? with
    | none => unary calls
    | some c => do
      let (f, d) ← level calls (l + 1)
      let r ← get
      links (level calls (l + 1)) c (r.tokens.length + 1) f d

/-- Reads an operand, with its depth. -/
def unary : (calls : Nat) → Descent (Formula × Nat)
  | 0 => throw (.fault .exhausted)
  | calls + 1 => do
    if ← eat .not then
      enter
      let (f, d) ← unary calls
      leave
      let d ← bound (d + 1)
      return (.not f, d)
    else primary calls

/-- Reads an operand that is no negation, with its depth. -/
def primary : (calls : Nat) → Descent (Formula × Nat)
  | 0 => throw (.fault .exhausted)
  | calls + 1 => do
    match ← peek with
    | none =>
      let r ← get
      refuse (if r.tokens = [] then .noTokens else .incomplete)
    | some (.var v) =>
      skip
      return (.var v, 0)
    | some .lparen =>
      skip
      enter
      let x ← level calls 0
      close
      leave
      return x
    | some t => refuse (.unexpected t)

end

/-- How deep calls nest where `(` and `∼` nest as deep as the limit: six rungs, an operand with its
negation sign and one without, for each sign that is open and once more. -/
def callDepth (limit : Nat) : Nat := 8 * (limit + 1)

/-- Reads the next formula. -/
def formula : Descent Formula := do
  let r ← get
  let (f, _) ← level (callDepth r.limit) 0
  return f

/-- Reads one formula and insists that it be all there is. -/
def parse (ts : List Token) : Except (Halt ParseError) Formula :=
  match formula { tokens := ts } with
  | .ok f r => (r.finish.map fun _ => f).mapError .refused
  | .error x _ => .error x

end Descent

end Sentential
