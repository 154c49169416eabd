import Sentential.Formula.Basic

/-!
# The written form of a formula

A variable is written as its letter, a negation with the sign in front, and a connective between
its operands, with a space on either side and a pair of parentheses around the whole. Every
connective has its own parentheses, so the written form does not hang on how tightly connectives
bind.
-/

namespace Sentential.Formula

/-- The characters of the written form. -/
def render : Formula → List Char
  | var v => [v.name]
  | not f => '∼' :: f.render
  | binary c l r => '(' :: (l.render ++ [' ', c.glyph, ' '] ++ r.render ++ [')'])

instance : ToString Formula := ⟨fun f => .ofList f.render⟩

theorem toList_toString (f : Formula) : (toString f).toList = f.render := String.toList_ofList

end Sentential.Formula
