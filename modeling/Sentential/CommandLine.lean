import Sentential.Table.Generate
import Sentential.Table.Text

/-!
# The command line

The program prints the table of one formula and a verdict on it. Its arguments are the text of the
formula and up to three flags, each of them once and in any order: `--classic` for the letters from
A to D, `-m` or `--max-vars` with the number of variables that the text may have, and `-v` or
`--verbose` for an account of how the table comes about. Letters may share a hyphen, and after `--`
there is only text. There is no help here: `-h` and `--help` are refused, as all flags that are not
known.

`Request.ofArguments?` reads the arguments, `Request.run` finds what is to be said, and a `Report`
says it. The account is made of the events of the journal. It precedes what is printed, on the same
channel; its form, in which the time of day has a place, is left open (`Run.output`).
-/

namespace Sentential.CommandLine

/-! ### Arguments -/

/-- What an argument, or a letter in it, means where flags may stand. -/
inductive Argument
  | text (s : String)
  | classic
  | verbose
  /-- The limit, given in the argument itself. -/
  | limit (value : List Char)
  /-- The limit is the next argument. -/
  | limitNext
  /-- All that follows is text. -/
  | endOfFlags
  | unknown
deriving DecidableEq

/-- The flags that share a hyphen. What follows the letter of the limit belongs to the limit. -/
def Argument.ofLetters : List Char → List Argument
  | [] => []
  | ['m'] => [limitNext]
  | 'm' :: '=' :: value => [limit value]
  | 'm' :: value => [limit value]
  | 'v' :: letters => verbose :: ofLetters letters
  | _ => [unknown]

/-- An argument that begins with a hyphen is made of flags, unless it is nothing else. -/
def Argument.ofString (s : String) : List Argument :=
  let long := "--max-vars="
  if s = "--" then [endOfFlags]
  else if s = "--classic" then [classic]
  else if s = "--verbose" then [verbose]
  else if s = "--max-vars" then [limitNext]
  else if long.toList.isPrefixOf s.toList then [limit (s.toList.drop long.length)]
  else
    match s.toList with
    | ['-'] => [text s]
    | '-' :: '-' :: _ => [unknown]
    | '-' :: letters => ofLetters letters
    | _ => [text s]

/-- What the next argument is taken for. -/
inductive Mode
  | any
  | limit
  | text
deriving DecidableEq

/-- What has been found among the arguments; each of these may be given once. -/
structure Found where
  text : Option String := none
  classic : Bool := false
  verbose : Bool := false
  limit : Option Nat := none
  mode : Mode := .any

namespace Found

def withText (found : Found) (s : String) : Option Found :=
  if found.text.isSome then none else some { found with text := some s }

def withClassic (found : Found) : Option Found :=
  if found.classic then none else some { found with classic := true }

def withVerbose (found : Found) : Option Found :=
  if found.verbose then none else some { found with verbose := true }

/-- A limit is written in decimal digits, perhaps after a plus sign, and fits into 64 bits. -/
def withLimit (found : Found) (value : List Char) : Option Found :=
  let digits := if value.head? = some '+' then value.tail else value
  let n := Nat.ofDigitChars 10 digits 0
  if found.limit.isSome || digits.isEmpty || !digits.all Char.isDigit || UInt64.size ≤ n then none
  else some { found with limit := some n }

/-- Takes note of what an argument means. -/
def withArgument (found : Found) : Argument → Option Found
  | .text s => found.withText s
  | .classic => found.withClassic
  | .verbose => found.withVerbose
  | .limit value => found.withLimit value
  | .limitNext => some { found with mode := .limit }
  | .endOfFlags => some { found with mode := .text }
  | .unknown => none

/-- Reads an argument. -/
def read (found : Found) (arg : String) : Option Found :=
  match found.mode with
  | .any => (Argument.ofString arg).foldlM withArgument found
  | .limit => { found with mode := .any }.withLimit arg.toList
  | .text => found.withText arg

end Found

/-- What the arguments ask for. -/
structure Request where
  text : String
  classic : Bool
  limit : Nat
  verbose : Bool
deriving DecidableEq

namespace Request

/-- Reads the arguments. The text has to be there, and so has a limit that was announced; without
one the limit is the largest there is. -/
def ofArguments? (args : List String) : Option Request := do
  let found ← args.foldlM Found.read {}
  if found.mode = .limit then none
  let text ← found.text
  return ⟨text, found.classic, found.limit.getD maxVariables, found.verbose⟩

end Request

/-! ### Reports -/

/-- How the program ends. -/
inductive Report
  /-- The arguments are not understood. -/
  | usage
  /-- The limit is not one that a table can use. -/
  | badLimit
  /-- The text has no table. -/
  | rejected (r : Rejection)
  /-- This is the table. -/
  | printed (t : Table)
  /-- The library was misused. -/
  | broken (m : Misuse)
deriving DecidableEq

/-- One line on the formula: it is always true, never, or in so many of its rows. -/
def verdict (t : Table) : String :=
  if t.isTautology then "tautology"
  else if t.isContradiction then "contradiction"
  else s!"satisfiable: {t.countTrue} of {t.size} rows"

namespace Report

def ofOutcome : Except Failure Table → Report
  | .ok t => .printed t
  | .error (.rejected e) => .rejected e
  | .error (.misuse m) => .broken m

/-- The exit code. -/
def code : Report → UInt32
  | usage => 2
  | badLimit => 1
  | rejected _ => 1
  | printed _ => 0
  | broken _ => 101

/-- What is printed: the table, an empty line and the verdict, or nothing. -/
def output : Report → String
  | printed t => s!"{t}\n{verdict t}\n"
  | _ => ""

/-- What is said about a failure. -/
def complaint? : Report → Option String
  | usage => some "usage: [--classic] [--max-vars LIMIT] [--verbose] EXPRESSION\n"
  | badLimit => some s!"--max-vars must be between 1 and {maxVariables}\n"
  | rejected r => some s!"{r.message}\n"
  | printed _ => none
  | broken m => some s!"{m.message}\n"

end Report

/-! ### Runs -/

/-- The account that is given of a run, and how it ends. -/
structure Run where
  account : List Event
  report : Report
deriving DecidableEq

/-- All that is written on the standard output, where `write i e` is the entry for the event `e` if
it is the `i`-th of the account. -/
def Run.output (write : Nat → Event → String) (run : Run) : String :=
  String.join (run.account.mapIdx write) ++ run.report.output

/-- Finds the table. The limit is looked at before the text is. No event matters enough to be told
of unless this is asked for. -/
def Request.run (r : Request) : Run :=
  if r.limit = 0 || maxVariables < r.limit then ⟨[], .badLimit⟩
  else
    let alphabet := if r.classic then Alphabet.classic else .full
    let journal := do
      let o ← Journaled.ofExcept .misuse (Options.ofLimit alphabet r.limit)
      Table.journalOfText o r.text
    ⟨if r.verbose then journal.events else [], .ofOutcome journal.outcome⟩

/-- What the program does with its arguments. -/
def run (args : List String) : Run :=
  match Request.ofArguments? args with
  | some r => r.run
  | none => ⟨[], .usage⟩

/-- How the program ends with these arguments. -/
def report (args : List String) : Report := (run args).report

end Sentential.CommandLine
