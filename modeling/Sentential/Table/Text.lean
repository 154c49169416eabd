import Sentential.Table.Basic

/-!
# The text of a table

A heading with the variables, then a line for each row with the values of the variables and, after
a bar, the value of the formula. Values are written as T and F.
-/

namespace Sentential

/-- The letter of a truth value. -/
def cell (b : Bool) : Char := if b then 'T' else 'F'

/-- The values of an assignment, each followed by a space. -/
def Assignment.cells (a : Assignment) : List Char := a.toList.flatMap fun (_, b) => [cell b, ' ']

namespace Table

/-- The heading: the variables, each followed by a space, a bar and the name of the last column. -/
def heading (t : Table) : List Char :=
  t.vars.flatMap (fun v => [v.name, ' ']) ++ "| result".toList

/-- The line of a row. -/
def line (r : Row) : List Char := r.assignment.cells ++ ['|', ' ', cell r.result]

/-- The characters of the text; every line is ended. -/
def render (t : Table) : List Char :=
  (t.heading :: t.rows.map line).flatMap fun l => l ++ ['\n']

instance : ToString Table := ⟨fun t => .ofList t.render⟩

theorem toList_toString (t : Table) : (toString t).toList = t.render := String.toList_ofList

end Table

end Sentential
