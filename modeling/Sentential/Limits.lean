/-!
# Limits

The two bounds that keep every formula and every table small.
-/

namespace Sentential

/-- A table has at most this many variables, hence at most 64 rows. -/
def maxVariables : Nat := 6

/-- The number of rows of a table over `n` variables: one for each way to give them values. -/
def rowCount (n : Nat) : Nat := Nat.pow 2 n

/-- A text nests `(` and `∼` at most this deep, and the formula it denotes is at most this deep. -/
def maxDepth : Nat := 256

end Sentential
