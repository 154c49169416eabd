import Sentential.Proofs.Reading.Session
import Sentential.Proofs.Reading.Splitting

/-!
# The tokens that a formula takes

A reader that reads a formula takes the tokens of the formula: without their parentheses they are
its signs in order, so none is lost, doubled or moved, and the parentheses among them are balanced
(`Balanced`). This holds wherever the reader stands and whatever it has left open before, since what
it takes is derived by the grammar (`Reader.derives_consumed`), and a derivation keeps the signs and
closes what it opens (`Derives.filter_eq_signs`, `Derives.balanced`).
-/

namespace Sentential

/-- As many parentheses are closed as are opened, and up to no place more than were opened so far.
-/
structure Balanced (ts : List Token) : Prop where
  closed : ts.count .rparen = ts.count .lparen
  opened_before : ∀ us, us <+: ts → us.count .rparen ≤ us.count .lparen

theorem Derives.balanced {cs : List Connective} {ts : List Token} {f : Formula}
    (h : Derives cs ts f) : Balanced ts where
  closed := h.count_parens.symm
  opened_before us hus := by
    have hle := h.count_take_le us.length
    rwa [← List.prefix_iff_eq_take.mp hus] at hle

namespace Reader

variable {r r' : Reader} {f : Formula}

theorem derives_consumed (h : r.next = (.ok f, r')) : Denotes (r.consumed r') f := by
  obtain ⟨us, rest, hrest, hfits, -, rfl⟩ := next_ok h
  rw [consumed_advance hrest]
  exact hfits.derives

theorem position_le_of_ok (h : r.next = (.ok f, r')) : r'.position ≤ r.tokens.length := by
  obtain ⟨-, hlt, hle, -⟩ := moves_of_ok h
  omega

theorem length_consumed (h : r.next = (.ok f, r')) :
    (r.consumed r').length = r'.position - r.position := by
  have hle := position_le_of_ok h
  unfold consumed
  rw [List.length_take, r.length_rest]
  omega

/-- **A formula is read without loss.** Wherever a reader stands, and whatever it has left open
before, if it reads a formula, then the tokens that it moves over are, without their parentheses,
the signs of the formula in their order: a negation before its operand, a connective between its
operands. So they are as many as the formula has nodes, the variables among them are its leaves, and
the parentheses are balanced. -/
theorem next_keeps_signs (r r' : Reader) (f : Formula) (h : r.next = (.ok f, r')) :
    r'.tokens = r.tokens ∧ r.position < r'.position ∧ r'.position ≤ r.tokens.length ∧
    (r.consumed r').length = r'.position - r.position ∧
    (r.consumed r').filter (!·.isParen) = f.signs ∧
    (r.consumed r').countP (!·.isParen) = f.size ∧
    (r.consumed r').filterMap Token.letter? = f.leaves ∧
    Balanced (r.consumed r') := by
  obtain ⟨htokens, hlt, -, -⟩ := moves_of_ok h
  have hderives := derives_consumed h
  have hsigns := hderives.filter_eq_signs
  refine ⟨htokens, hlt, position_le_of_ok h, length_consumed h, hsigns, ?_,
    hderives.filterMap_letter?, hderives.balanced⟩
  rw [List.countP_eq_length_filter, hsigns, f.length_signs]

/-- Behind a `)` that was refused, and with three signs left open, the reader takes `(A ∨ ∼B) ∧ C`
and leaves the parenthesis that follows. -/
theorem next_keeps_signs_conjunction :
    let f : Formula := .binary .and (.binary .or (.var ⟨'A', rfl⟩) (.not (.var ⟨'B', rfl⟩)))
      (.var ⟨'C', rfl⟩)
    let group : List Token := [.lparen, .var ⟨'A', rfl⟩, .op .or, .not, .var ⟨'B', rfl⟩, .rparen]
    let r : Reader :=
      { tokens := .rparen :: (group ++ [.op .and, .var ⟨'C', rfl⟩, .rparen]), position := 1,
        nesting := 3 }
    let r' : Reader := { r with position := 9 }
    r.next = (.ok f, r') ∧ r.consumed r' = group ++ [.op .and, .var ⟨'C', rfl⟩] ∧
      (r.consumed r').filter (!·.isParen) =
        [.var ⟨'A', rfl⟩, .op .or, .not, .var ⟨'B', rfl⟩, .op .and, .var ⟨'C', rfl⟩] ∧
      (r.consumed r').countP (!·.isParen) = 6 ∧ Balanced (r.consumed r') := by
  intro f group r r'
  have hrun : (Rule.formula 253).run r.rest = .read f 3 [.rparen] := by decide +kernel
  have h : r.next = (.ok f, r') := next_of_read r (List.cons_ne_nil _ _) hrun
  obtain ⟨-, -, -, -, hsigns, hsize, -, hbalanced⟩ := next_keeps_signs r r' f h
  exact ⟨h, by decide, hsigns, hsize, hbalanced⟩

end Reader

end Sentential
