import Sentential.Limits
import Sentential.Proofs.Reading.Nesting

/-!
# Derivations within the limits

A derivation fits a budget if its signs nest within the budget and its formula is not too deep. Each
rule of the grammar keeps to this if its parts do: a negation and parentheses take one off the
budget, a negation and a link add one to the depth, and parentheses add nothing to it.
-/

namespace Sentential

/-- The tokens make the formula of the rung with the connectives `cs`, they nest within the budget,
and the formula is not too deep. -/
structure Fits (budget : Nat) (cs : List Connective) (ts : List Token) (f : Formula) : Prop where
  derives : Derives cs ts f
  nesting_le : nesting ts ≤ budget
  depth_le : f.depth ≤ maxDepth

namespace Fits

variable {budget : Nat} {c : Connective} {cs : List Connective} {ts us : List Token}
  {f g : Formula}

theorem var (v : Variable) : Fits budget [] [.var v] (.var v) :=
  ⟨.var v, Nat.zero_le _, Nat.zero_le _⟩

theorem operand_iff (h : Derives cs ts f) : Fits budget (c :: cs) ts f ↔ Fits budget cs ts f :=
  ⟨fun ⟨_, hn, hd⟩ => ⟨h, hn, hd⟩, fun ⟨_, hn, hd⟩ => ⟨.operand h, hn, hd⟩⟩

theorem not_iff (h : Derives [] ts f) :
    Fits (budget + 1) [] (.not :: ts) (.not f) ↔ Fits budget [] ts f ∧ f.depth + 1 ≤ maxDepth := by
  have hn := h.nesting_not
  constructor
  · rintro ⟨-, hn', hd⟩
    exact ⟨⟨h, by omega, Nat.le_of_succ_le hd⟩, hd⟩
  · rintro ⟨⟨-, hn', -⟩, hd⟩
    exact ⟨.not h, by omega, hd⟩

theorem parens_iff (h : Derives Connective.ladder ts f) :
    Fits (budget + 1) [] (.lparen :: (ts ++ [.rparen])) f ↔ Fits budget Connective.ladder ts f := by
  have hn := h.nesting_parens
  constructor
  · rintro ⟨-, hn', hd⟩
    exact ⟨h, by omega, hd⟩
  · rintro ⟨-, hn', hd⟩
    exact ⟨.parens h, by omega, hd⟩

theorem link_iff (h₁ : Derives (c :: cs) ts f) (h₂ : Derives cs us g) :
    Fits budget (c :: cs) (ts ++ .op c :: us) (.binary c f g) ↔
      Fits budget (c :: cs) ts f ∧ Fits budget cs us g ∧ max f.depth g.depth + 1 ≤ maxDepth := by
  have hn : nesting (ts ++ .op c :: us) = max (nesting ts) (nesting us) := h₁.nesting_link
  have hdepth := Formula.depth_binary c f g
  constructor
  · rintro ⟨-, hn', hd⟩
    exact ⟨⟨h₁, by omega, by omega⟩, ⟨h₂, by omega, by omega⟩, by omega⟩
  · rintro ⟨⟨-, hn₁, -⟩, ⟨-, hn₂, -⟩, hd⟩
    exact ⟨.link h₁ h₂, by omega, hd⟩

theorem not_fits_not (h : Derives [] ts f) : ¬ Fits 0 [] (.not :: ts) (.not f) := fun hf => by
  have := hf.nesting_le
  rw [h.nesting_not] at this
  omega

theorem not_fits_parens (h : Derives Connective.ladder ts f) :
    ¬ Fits 0 [] (.lparen :: (ts ++ [.rparen])) f := fun hf => by
  have := hf.nesting_le
  rw [h.nesting_parens] at this
  omega

end Fits

end Sentential
