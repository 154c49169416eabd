import Sentential.Misuse
import Sentential.Token.Basic

/-!
# Rejections

Why a text denotes no formula, or a formula has no table, with the wording of each cause. A cause
is found while the characters are read (`UnknownSymbol`), while the tokens are put together
(`ParseError`) or when the variables are counted (`Rejection`).
-/

namespace Sentential

/-- A character that belongs to no token, and its place among the characters of the text. -/
structure UnknownSymbol where
  symbol : Char
  position : Nat
deriving DecidableEq

/-- Why a list of tokens is not the list of a formula. -/
inductive ParseError
  /-- Another token stands where one of this kind has to be. -/
  | expected (wanted : Token.Kind) (found : Token)
  /-- There are no tokens. -/
  | noTokens
  /-- A formula cannot begin with this token. -/
  | unexpected (t : Token)
  /-- The tokens end where a formula has to begin. -/
  | incomplete
  /-- The tokens end before a parenthesis is closed. -/
  | unclosed
  /-- Signs nest, or the formula is, deeper than allowed. -/
  | tooDeep (max : Nat)
  /-- More tokens follow a complete formula; this is the first of them. -/
  | trailing (t : Token) (position : Nat)
deriving DecidableEq

/-- Why there is no table. -/
inductive Rejection
  | unreadable (e : UnknownSymbol)
  | unparsable (e : ParseError)
  /-- The text is blank. -/
  | blank
  /-- The text has no variable. -/
  | noVariables
  /-- The text or the formula has more variables than allowed. -/
  | tooManyVariables (found max : Nat)
deriving DecidableEq

/-- Why a call has no result: its input is rejected, or it was a misuse. -/
inductive Failure
  | rejected (r : Rejection)
  | misuse (m : Misuse)
deriving DecidableEq

/-- The cause in words. -/
def UnknownSymbol.message (e : UnknownSymbol) : String :=
  s!"unknown symbol '{e.symbol}' at position {e.position}"

namespace ParseError

/-- The cause in words. -/
def message : ParseError → String
  | expected k t => s!"expected {k}, found {t}"
  | noTokens => "unexpected end of input"
  | unexpected t => s!"unexpected token {t}"
  | incomplete => "expression incomplete"
  | unclosed => "unclosed parenthesis"
  | tooDeep n => s!"expression nested too deeply (more than {n} levels)"
  | trailing t n =>
    s!"trailing tokens after a complete expression, starting with {t} at token {n}"

/-- Reading stopped at a token, or at the end, that could not follow; the other causes are a bound
that was passed and tokens left over. -/
def isUnexpectedToken : ParseError → Bool
  | tooDeep _ => false
  | trailing _ _ => false
  | _ => true

end ParseError

namespace Rejection

/-- The cause in words. -/
def message : Rejection → String
  | unreadable e => e.message
  | unparsable e => e.message
  | blank => "empty expression"
  | noVariables => "expression must reference at least one variable"
  | tooManyVariables n m => s!"too many variables: found {n}, at most {m} allowed"

/-- The cause is in the characters or in the order of the tokens. -/
def isSyntaxError : Rejection → Bool
  | unreadable _ => true
  | unparsable _ => true
  | _ => false

/-- The cause in the order of the tokens, if it lies there. -/
def parseError? : Rejection → Option ParseError
  | unparsable e => some e
  | _ => none

end Rejection

instance : ToString Rejection := ⟨Rejection.message⟩

end Sentential
