import Sentential.Connective
import Sentential.Variable

/-!
# Tokens

A token is one sign of a text: a variable, the negation sign, a binary connective or a parenthesis.
Each is written with one character; some connectives have a second spelling on plain keyboards.
-/

namespace Sentential

/-- A sign of a text. -/
inductive Token
  | var (v : Variable)
  | not
  | op (c : Connective)
  | lparen
  | rparen
deriving DecidableEq

namespace Token

/-- A token without the letter of a variable. -/
inductive Kind
  | var
  | not
  | op (c : Connective)
  | lparen
  | rparen
deriving DecidableEq

/-- The kind of a token. -/
def kind : Token → Kind
  | var _ => .var
  | not => .not
  | op c => .op c
  | lparen => .lparen
  | rparen => .rparen

/-- The variable that a token is, if it is one. -/
def letter? : Token → Option Variable
  | var v => some v
  | _ => none

/-- The character that signs of this kind are printed with; variables have their own. -/
def Kind.glyph? : Kind → Option Char
  | .var => none
  | .not => some '∼'
  | .op c => some c.glyph
  | .lparen => some '('
  | .rparen => some ')'

/-- The kind as messages name it: its character between single marks. -/
def Kind.label (k : Kind) : String :=
  match k.glyph? with
  | some g => .ofList ['\x27', g, '\x27']
  | none => "variable"

/-- The token as messages name it: a variable by its letter, any other by its kind. -/
def label : Token → String
  | var v => v.name.toString
  | t => t.kind.label

instance : ToString Kind := ⟨Kind.label⟩

instance : ToString Token := ⟨label⟩

/-- The characters that are read as a token other than a variable; of two spellings of one token
the first is the one that is printed. -/
def spellings : List (Char × Token) :=
  [('∼', not), ('~', not), ('∧', op .and), ('^', op .and), ('∨', op .or), ('v', op .or),
    ('⊻', op .xor), ('→', op .implies), ('↔', op .iff), ('(', lparen), (')', rparen)]

/-- The token that the character spells, if it spells one other than a variable. -/
def ofSymbol? (c : Char) : Option Token := spellings.lookup c

/-- The variables of a list of tokens in ascending order, each of them once. -/
def vars (ts : List Token) : List Variable := Variable.ascending (ts.filterMap letter?)

theorem mem_vars {ts : List Token} {v : Variable} : v ∈ vars ts ↔ .var v ∈ ts := by
  simp only [vars, Variable.mem_ascending, List.mem_filterMap]
  constructor
  · rintro ⟨t, ht, h⟩; cases t <;> simp_all [letter?]
  · exact fun h => ⟨_, h, rfl⟩

theorem ofSymbol?_ne_var {c : Char} {v : Variable} : ofSymbol? c ≠ some (.var v) := by
  intro h
  obtain ⟨l₁, l₂, h, -⟩ := List.lookup_eq_some_iff.mp h
  have hm : (c, var v) ∈ spellings := by rw [h]; simp
  simp [spellings] at hm

end Token

end Sentential
