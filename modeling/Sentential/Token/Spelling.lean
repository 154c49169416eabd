import Sentential.Token.Scan

/-!
# Spellings

A token can be spelled by more than one character, and blanks can stand anywhere. `Token.Spells`
says which texts spell a list of tokens, without reading them; `canonical` brings a text into the
form that has no blanks and in which each connective has the character it is printed with.
-/

namespace Sentential.Token

/-- The character is one that the token is written with. -/
inductive SpelledBy (a : Alphabet) : Token → Char → Prop
  | letter {v : Variable} : a.contains v.name = true → SpelledBy a (.var v) v.name
  | symbol {t : Token} {c : Char} : (c, t) ∈ spellings → SpelledBy a t c

/-- The text consists of characters that spell these tokens, in their order, and of blanks. -/
inductive Spells (a : Alphabet) : List Token → List Char → Prop
  | nil : Spells a [] []
  | blank {ts : List Token} {c : Char} {cs : List Char} :
      Text.isBlank c = true → Spells a ts cs → Spells a ts (c :: cs)
  | cons {t : Token} {ts : List Token} {c : Char} {cs : List Char} :
      SpelledBy a t c → Spells a ts cs → Spells a (t :: ts) (c :: cs)

/-- The character that is printed for what this one is read as. -/
def canonicalChar (c : Char) : Char :=
  match ofSymbol? c with
  | some t => t.kind.glyph?.getD c
  | none => c

/-- The text without blanks and with the printed character for each connective. -/
def canonical (cs : List Char) : List Char := (cs.filter (!Text.isBlank ·)).map canonicalChar

end Sentential.Token
