import Sentential.Formula.Tokens

/-!
# The grammar

Which lists of tokens are those of a formula, and of which one, without limits and without a way to
read them. `Derives cs ts f` speaks of the formulas that are chains over the connectives `cs`, the
loosest one first: an operand of such a chain is a chain over the remaining connectives, and a chain
grows at its right end. With no connectives left there are the variables, the negations and the
formulas in parentheses.
-/

namespace Sentential

/-- The tokens `ts` make the formula `f` of the rung with the connectives `cs`. -/
inductive Derives : List Connective → List Token → Formula → Prop
  | var (v : Variable) : Derives [] [.var v] (.var v)
  | not {ts : List Token} {f : Formula} : Derives [] ts f → Derives [] (.not :: ts) (.not f)
  | parens {ts : List Token} {f : Formula} :
      Derives Connective.ladder ts f → Derives [] (.lparen :: (ts ++ [.rparen])) f
  | operand {c : Connective} {cs : List Connective} {ts : List Token} {f : Formula} :
      Derives cs ts f → Derives (c :: cs) ts f
  | link {c : Connective} {cs : List Connective} {ts us : List Token} {f g : Formula} :
      Derives (c :: cs) ts f → Derives cs us g →
        Derives (c :: cs) (ts ++ .op c :: us) (.binary c f g)

/-- The tokens make the formula. -/
def Denotes (ts : List Token) (f : Formula) : Prop := Derives Connective.ladder ts f

theorem Derives.of_suffix {cs ds : List Connective} {ts : List Token} {f : Formula}
    (h : Derives cs ts f) (hcs : cs <:+ ds) : Derives ds ts f := by
  obtain ⟨bs, rfl⟩ := hcs
  induction bs with
  | nil => exact h
  | cons b bs ih => exact .operand ih

theorem Derives.of_operand {ts : List Token} {f : Formula} (h : Derives [] ts f)
    (cs : List Connective) : Derives cs ts f := h.of_suffix cs.nil_suffix

/-- A derivation loses no sign, adds none and keeps their order. -/
theorem Derives.filter_eq_signs {cs : List Connective} {ts : List Token} {f : Formula}
    (h : Derives cs ts f) : ts.filter (!·.isParen) = f.signs := by
  induction h with
  | var v => rfl
  | not _ ih => rw [Formula.signs, ← ih]; rfl
  | parens _ ih =>
    rw [List.filter_cons_of_neg (by decide), List.filter_append, ih,
      List.filter_cons_of_neg (by decide), List.filter_nil, List.append_nil]
  | operand _ ih => exact ih
  | link _ _ ih₁ ih₂ => rw [Formula.signs, List.filter_append, ih₁, ← ih₂]; rfl

end Sentential
