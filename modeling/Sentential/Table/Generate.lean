import Sentential.Journal
import Sentential.Options
import Sentential.Reading.Reader
import Sentential.Token.Scan

/-!
# From a text to its table

A text has a table if it is not blank, every character is read, it has variables and not too many of
them, and its tokens are those of a formula; this is the order in which these conditions are
checked. Variables are counted among the tokens, before it is known whether these make a formula.
A formula has a table if it has not too many variables.
-/

namespace Sentential.Table

/-- Fills the rows for the variables. -/
def tabulate (vs : List Variable) (f : Formula) : Journaled Table := do
  let rows ← (List.range (rowCount vs.length)).mapM fun index => do
    let row ← Journaled.ofExcept .misuse (Row.ofIndex vs f index)
    Journaled.note (.row index row)
    return row
  Journaled.note (.generated rows.length vs.length)
  return ⟨vs, rows⟩

/-- The table of a formula, with its journal. -/
def journalOfFormula (f : Formula) : Journaled Table :=
  let vs := f.vars
  if maxVariables < vs.length then
    Journaled.reject (.tooManyVariables vs.length maxVariables)
  else tabulate vs f

/-- The table of the formula that a text denotes, with its journal. -/
def journalOfText (o : Options) (text : String) : Journaled Table := do
  if (Text.trim text.toList).isEmpty then Journaled.reject .blank
  let tokens ← Journaled.ofExcept (.rejected <| .unreadable ·) (Token.scan o.alphabet text)
  Journaled.note (.tokenized text tokens.length)
  let vs := Token.vars tokens
  if vs.isEmpty then Journaled.reject .noVariables
  if o.maxVariables < vs.length then
    Journaled.reject (.tooManyVariables vs.length o.maxVariables)
  Journaled.note (.vars vs)
  let f ← Journaled.ofExcept (.rejected <| .unparsable ·) (parse tokens)
  Journaled.note (.parsed f)
  tabulate vs f

/-- The table of a formula. -/
def ofFormula (f : Formula) : Except Failure Table := (journalOfFormula f).outcome

/-- The table of the formula that a text denotes. -/
def ofText (o : Options) (text : String) : Except Failure Table := (journalOfText o text).outcome

end Sentential.Table
