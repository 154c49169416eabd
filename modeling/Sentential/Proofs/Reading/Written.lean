import Sentential.Formula.Render
import Sentential.Proofs.Reading.Parse
import Sentential.Proofs.Token.Scan

/-!
# Reading the written form back

The written form of a formula spells the tokens `Formula.written`, one for each character that is
not a space. They denote the formula whatever connectives it has, since each connective stands in
parentheses of its own, and `(` and `∼` nest in them just as deep as the formula is. So a limit on
the nesting that equals the limit on the depth refuses nothing more, and the written form is read
back exactly where the formula is not too deep.
-/

namespace Sentential

theorem Derives.link_operands {c : Connective} {ts us : List Token} {f g : Formula}
    (h₁ : Derives [] ts f) (h₂ : Derives [] us g) :
    ∀ {cs : List Connective}, c ∈ cs → Derives cs (ts ++ .op c :: us) (.binary c f g)
  | d :: cs, hc => by
    rcases List.mem_cons.mp hc with rfl | hc
    · exact .link (h₁.of_operand _) (h₂.of_operand _)
    · exact .operand (h₁.link_operands h₂ hc)

namespace Formula

/-- The tokens of the written form. -/
def written : Formula → List Token
  | var v => [.var v]
  | not f => .not :: f.written
  | binary c l r => .lparen :: ((l.written ++ .op c :: r.written) ++ [.rparen])

theorem spells_render {a : Alphabet} : ∀ f : Formula, (∀ v ∈ f.leaves, a.contains v.name = true) →
    Token.Spells a f.written f.render
  | var v, h => .cons (.letter (h v (List.mem_singleton_self v))) .nil
  | not f, h => .cons (.symbol (by decide)) (f.spells_render h)
  | binary c l r, h => by
    have hl := l.spells_render fun v hv => h v (List.mem_append_left _ hv)
    have hr := r.spells_render fun v hv => h v (List.mem_append_right _ hv)
    have hc : Token.SpelledBy a (.op c) c.glyph := .symbol (by cases c <;> decide)
    have hend : Token.Spells a [.rparen] [')'] := .cons (.symbol (by decide)) .nil
    have hop : Token.Spells a [.op c] [' ', c.glyph, ' '] :=
      .blank (by decide) (.cons hc (.blank (by decide) .nil))
    have h := ((hl.append hop).append hr).append hend
    rw [List.append_assoc l.written, List.singleton_append] at h
    exact .cons (.symbol (by decide)) h

theorem scan_toString {a : Alphabet} (f : Formula) (h : ∀ v ∈ f.leaves, a.contains v.name = true) :
    Token.scan a (toString f) = .ok f.written := by
  rw [Token.scan_eq_ok_iff, f.toList_toString]
  exact f.spells_render h

theorem derives_written : ∀ f : Formula, Derives [] f.written f
  | var v => .var v
  | not f => .not f.derives_written
  | binary c l r => .parens (l.derives_written.link_operands r.derives_written c.mem_ladder)

theorem nesting_written : ∀ f : Formula, nesting f.written = f.depth
  | var v => Derives.nesting_var v
  | not f => by
    unfold written depth
    rw [f.derives_written.nesting_not, f.nesting_written]
  | binary c l r => by
    have hlink := l.derives_written.link_operands r.derives_written c.mem_ladder
    have hl := l.derives_written.of_operand [c]
    unfold written depth
    rw [hlink.nesting_parens, hl.nesting_link, l.nesting_written, r.nesting_written]

theorem fits_written_iff {f : Formula} :
    Fits maxDepth Connective.ladder f.written f ↔ f.depth ≤ maxDepth := by
  constructor
  · exact fun h => h.depth_le
  · intro h
    exact ⟨f.derives_written.of_operand _, by rwa [f.nesting_written], h⟩

theorem parse_written (f : Formula) :
    parse f.written = if f.depth ≤ maxDepth then .ok f else .error (.tooDeep maxDepth) := by
  split
  · next h => exact parse_eq_ok_iff_fits.mpr (fits_written_iff.mpr h)
  · next h =>
    exact parse_eq_tooDeep (f.derives_written.of_operand _) fun hf => h (fits_written_iff.mp hf)

/-- **The written form is read back**, with each alphabet that has the variables: as the same
formula if this is not too deep, and refused as too deep otherwise. So each formula that was parsed
from whatever tokens is read back from its written form. -/
theorem scan_parse_toString (f : Formula) (a : Alphabet)
    (h : ∀ v ∈ f.leaves, a.contains v.name = true) :
    ∃ ts, Token.scan a (toString f) = .ok ts ∧
      parse ts = (if f.depth ≤ maxDepth then .ok f else .error (.tooDeep maxDepth)) ∧
      ∀ us, parse us = .ok f → parse ts = .ok f := by
  refine ⟨f.written, f.scan_toString h, f.parse_written, fun us hus => ?_⟩
  have hdepth := (parse_eq_ok_iff_fits.mp hus).depth_le
  rw [f.parse_written, if_pos hdepth]

theorem scan_parse_negated_implication :
    (∀ v ∈ (not (binary .implies (var ⟨'A', rfl⟩) (var ⟨'D', rfl⟩))).leaves,
        Alphabet.classic.contains v.name = true) ∧
      ∃ ts, Token.scan .classic
          (toString (not (binary .implies (var ⟨'A', rfl⟩) (var ⟨'D', rfl⟩)))) = .ok ts ∧
        parse ts = .ok (not (binary .implies (var ⟨'A', rfl⟩) (var ⟨'D', rfl⟩))) := by
  have h : ∀ v ∈ (not (binary .implies (var ⟨'A', rfl⟩) (var ⟨'D', rfl⟩))).leaves,
      Alphabet.classic.contains v.name = true := by decide
  obtain ⟨ts, hscan, hparse, -⟩ := scan_parse_toString _ _ h
  exact ⟨h, ts, hscan, by rw [hparse, if_pos (by decide)]⟩

end Formula

end Sentential
