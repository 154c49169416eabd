import Sentential.Reading.Rule

/-!
# Readers

A reader stands at a place in a list of tokens and reads one formula after the other. It goes on
after a failure from where it got stuck, and the signs `(` and `∼` that were left open there count
against the nesting of all that it reads afterwards. `parse` reads one formula and insists that it
be all there is.
-/

namespace Sentential

/-- A place in a list of tokens. -/
structure Reader where
  tokens : List Token
  /-- The number of tokens that have been consumed. -/
  position : Nat := 0
  /-- The number of `(` and `∼` that were opened and never finished. -/
  nesting : Nat := 0
  /-- How deep `(` and `∼` may nest. -/
  limit : Nat := maxDepth
deriving DecidableEq

namespace Reader

/-- The tokens that are left. -/
def rest (r : Reader) : List Token := r.tokens.drop r.position

/-- Moves on to where `rest` is what is left. -/
def advance (r : Reader) (rest : List Token) : Reader :=
  { r with position := r.position + (r.rest.length - rest.length) }

/-- Reads the next formula. Where there are no tokens at all, that is what is reported. -/
def next (r : Reader) : Except ParseError Formula × Reader :=
  if r.tokens = [] then (.error .noTokens, r)
  else
    match (Rule.formula (r.limit - r.nesting)).run r.rest with
    | .read f _ rest => (.ok f, r.advance rest)
    | .stuck cause opened rest =>
      (.error cause, { r.advance rest with nesting := r.nesting + opened })

/-- Checks that no tokens are left. -/
def finish (r : Reader) : Except ParseError Unit :=
  match r.rest with
  | [] => .ok ()
  | t :: _ => .error (.trailing t r.position)

end Reader

/-- The formula whose tokens these are. -/
def parse (ts : List Token) : Except ParseError Formula :=
  match ({ tokens := ts } : Reader).next with
  | (.ok f, r) => r.finish.map fun _ => f
  | (.error e, _) => .error e

end Sentential
