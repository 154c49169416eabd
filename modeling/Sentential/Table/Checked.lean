import Sentential.Options
import Sentential.Reading.Descent
import Sentential.Table.Basic
import Sentential.Token.Scan

/-!
# From a text to its table, with every step checked

The way from a text to its table once more, and here each step looks first whether it is possible.
A difference must not be negative, a shift has to be narrower than a word and must not push digits
out of it, a letter of an alphabet has to be the name of a variable, a row has to exist, a variable
has to have its value. What is not possible is a `Fault`, and the ways to refuse the input stay what
they are.
-/

namespace Sentential

/-- What a call reports, where misuse is one fault among others. -/
def Failure.halt : Failure → Halt Rejection
  | rejected r => .refused r
  | misuse m => .fault (.misuse m)

namespace Checked

/-! ### Numbers -/

/-- The number of bits of a word. -/
def wordSize : Nat := 64

/-- What is left of `n` when `k` is taken away. -/
def sub (n k : Nat) : Except Fault Nat :=
  if n < k then .error .belowZero else .ok (n - k)

/-- The digits of `n`, moved up by `k` places. -/
def shiftLeft (n k : Nat) : Except Fault Nat :=
  if k < wordSize ∧ n <<< k < UInt64.size then .ok (n <<< k) else .error .shiftedOut

/-- The digits of `n`, moved down by `k` places. -/
def shiftRight (n k : Nat) : Except Fault Nat :=
  if k < wordSize then .ok (n >>> k) else .error .shiftedOut

/-! ### Tokens -/

/-- The variable named by the character, when it is a letter of the alphabet. That it can name one
is checked on the character alone. -/
def letter? (a : Alphabet) (c : Char) : Except Fault (Option Variable) :=
  if a.contains c then ((Variable.ofChar c).mapError .misuse).map some else .ok none

/-- The token that a character other than a blank is read as. -/
def ofChar? (a : Alphabet) (c : Char) : Except Fault (Option Token) := do
  match ← letter? a c with
  | some v => return some (.var v)
  | none => return Token.ofSymbol? c

/-- The tokens of the characters that stand from `position` on. -/
def scanFrom (a : Alphabet) (position : Nat) :
    List Char → Except (Halt UnknownSymbol) (List Token)
  | [] => .ok []
  | c :: cs =>
    if Text.isBlank c then scanFrom a (position + 1) cs
    else
      match ofChar? a c with
      | .error x => .error (.fault x)
      | .ok none => .error (.refused ⟨c, position⟩)
      | .ok (some t) => (scanFrom a (position + 1) cs).map (t :: ·)

/-- The tokens of a text. -/
def scan (a : Alphabet) (text : String) : Except (Halt UnknownSymbol) (List Token) :=
  scanFrom a 0 text.toList

/-! ### Rows -/

/-- The digit of the index for the `k`-th of `n` variables. -/
def digit (n index k : Nat) : Except Fault Bool := do
  let last ← sub n 1
  let place ← sub last k
  let digits ← shiftRight index place
  return digits &&& 1 == 1

/-- The assignment of that index to the variables. -/
def assignment (vs : List Variable) (index : Nat) : Except Fault Assignment := do
  let n := vs.length
  if maxVariables < n then throw (.misuse (.wideRow n))
  let total ← shiftLeft 1 n
  if total ≤ index then throw (.misuse (.noSuchRow index n))
  let bindings ← vs.zipIdx.mapM fun (v, k) => do
    let b ← digit n index k
    return (v, b)
  return .ofList bindings

/-- The row of that index. -/
def row (vs : List Variable) (f : Formula) (index : Nat) : Except Fault Row := do
  let a ← assignment vs index
  let b ← (f.evalIn a).mapError .misuse
  return ⟨a, b⟩

/-- The table with a row for each index. -/
def tabulate (vs : List Variable) (f : Formula) : Except Fault Table := do
  let total ← shiftLeft 1 vs.length
  let rows ← (List.range total).mapM (row vs f)
  return ⟨vs, rows⟩

/-- The word with one more bit, in the lowest place. -/
def push (word : Nat) (b : Bool) : Except Fault Nat := do
  let word ← shiftLeft word 1
  return word ||| b.toNat

/-- The values of a table as a word, the last row in the lowest bit. -/
def bits (t : Table) : Except Fault Nat := t.results.foldlM push 0

/-! ### Tables -/

/-- The table of a formula. -/
def ofFormula (f : Formula) : Except (Halt Rejection) Table :=
  let vs := f.vars
  if maxVariables < vs.length then
    .error (.refused (.tooManyVariables vs.length maxVariables))
  else (tabulate vs f).mapError .fault

/-- The table of the formula that a text denotes. -/
def ofText (o : Options) (text : String) : Except (Halt Rejection) Table := do
  if (Text.trim text.toList).isEmpty then throw (.refused .blank)
  let tokens ← (scan o.alphabet text).mapError (.map .unreadable)
  let vs := Token.vars tokens
  if vs.isEmpty then throw (.refused .noVariables)
  if o.maxVariables < vs.length then
    throw (.refused (.tooManyVariables vs.length o.maxVariables))
  let f ← (Descent.parse tokens).mapError (.map .unparsable)
  (tabulate vs f).mapError .fault

end Checked

end Sentential
