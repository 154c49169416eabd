import Sentential.Assignment

/-!
# Tables

The table of a formula has one row for each assignment to the variables, in ascending order of
their indices, with the value of the formula under it. The column of the values can be packed into
one word, the first row in the highest bit.
-/

namespace Sentential

/-- An assignment and the value under it. -/
structure Row where
  assignment : Assignment
  result : Bool
deriving DecidableEq

/-- The rows of a formula over a list of variables. -/
structure Table where
  vars : List Variable
  rows : List Row
deriving DecidableEq

/-- The row of that index. -/
def Row.ofIndex (vs : List Variable) (f : Formula) (index : Nat) : Except Misuse Row := do
  let a ← Assignment.ofIndex vs index
  let b ← f.evalIn a
  return ⟨a, b⟩

namespace Table

/-- The number of rows. -/
def size (t : Table) : Nat := t.rows.length

/-- There are no rows. -/
def isEmpty (t : Table) : Bool := t.rows.isEmpty

/-- The values, one for each row. -/
def results (t : Table) : List Bool := t.rows.map (·.result)

/-- A list of bits as a word, the last bit in the lowest place. -/
def packed (bits : List Bool) : UInt64 :=
  bits.foldl (fun word b => (word <<< 1) ||| b.toUInt64) 0

/-- The values as a word, the last row in the lowest bit. -/
def bits (t : Table) : UInt64 := packed t.results

/-- The number of rows with the value true. -/
def countTrue (t : Table) : Nat := t.results.count true

/-- The assignments under which the value is true. -/
def models (t : Table) : List Assignment := (t.rows.filter (·.result)).map (·.assignment)

/-- Every row has the value true. -/
def isTautology (t : Table) : Bool := t.results.all (·)

/-- Some row has the value true. -/
def isSatisfiable (t : Table) : Bool := t.results.any (·)

/-- No row has the value true. -/
def isContradiction (t : Table) : Bool := !t.isSatisfiable

end Table

end Sentential
