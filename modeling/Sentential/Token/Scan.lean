import Sentential.Alphabet
import Sentential.Rejection
import Sentential.Text.Blank

/-!
# The tokens of a text

A text is read character by character: a blank is skipped, a letter of the alphabet is a variable,
any other character has to spell a token. The first character that is none of these is reported
with its place, which counts characters from zero.
-/

namespace Sentential.Token

/-- The token that a character other than a blank is read as. -/
def ofChar? (a : Alphabet) (c : Char) : Option Token :=
  match a.letter? c with
  | some v => some (.var v)
  | none => ofSymbol? c

/-- The tokens of the characters that stand from `position` on. -/
def scanFrom (a : Alphabet) (position : Nat) : List Char → Except UnknownSymbol (List Token)
  | [] => .ok []
  | c :: cs =>
    if Text.isBlank c then scanFrom a (position + 1) cs
    else
      match ofChar? a c with
      | none => .error ⟨c, position⟩
      | some t => (scanFrom a (position + 1) cs).map (t :: ·)

/-- The tokens of a text. -/
def scan (a : Alphabet) (text : String) : Except UnknownSymbol (List Token) :=
  scanFrom a 0 text.toList

end Sentential.Token
