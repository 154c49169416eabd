import Sentential.Proofs.Reading.Splitting
import Sentential.Proofs.Reading.Written

/-!
# Written forms are uniquely readable

A text that begins with the written form of a formula determines the formula and the rest of the
text (`Formula.render_append_inj`), however deep the formula is. The first character tells a
variable, a negation and a connective apart; a connective is known from the sign behind its left
operand, since by induction this operand is known, and where it ends. So no written form begins
another one, and no two formulas have the same. The tokens of the written form (`Formula.written`)
are the signs of the formula and a pair of parentheses for each connective.
-/

namespace Sentential.Formula

/-- The number of connectives. -/
def connectives : Formula → Nat
  | var _ => 0
  | not f => f.connectives
  | binary _ l r => l.connectives + r.connectives + 1

/-! ### The text -/

/-- **The written form is prefix-free.** -/
theorem render_append_inj : ∀ (f g : Formula) (cs ds : List Char),
    f.render ++ cs = g.render ++ ds → f = g ∧ cs = ds
  | var v, g, cs, ds, h => by
    cases g with
    | var w =>
      simp only [render, List.cons_append, List.nil_append, List.cons.injEq] at h
      obtain ⟨hname, hrest⟩ := h
      exact ⟨congrArg var (Variable.ext_name hname), hrest⟩
    | not g => exact absurd (List.head_eq_of_cons_eq h) (v.name_ne (by decide))
    | binary c l r => exact absurd (List.head_eq_of_cons_eq h) (v.name_ne (by decide))
  | not f, g, cs, ds, h => by
    cases g with
    | var w => exact absurd (List.head_eq_of_cons_eq h).symm (w.name_ne (by decide))
    | not g =>
      obtain ⟨rfl, hrest⟩ := render_append_inj f g cs ds (List.tail_eq_of_cons_eq h)
      exact ⟨rfl, hrest⟩
    | binary c l r => exact absurd (List.head_eq_of_cons_eq h) (by decide)
  | binary c l r, g, cs, ds, h => by
    cases g with
    | var w => exact absurd (List.head_eq_of_cons_eq h).symm (w.name_ne (by decide))
    | not g => exact absurd (List.head_eq_of_cons_eq h) (by decide)
    | binary d l' r' =>
      simp only [render, List.cons_append, List.append_assoc, List.nil_append, List.cons.injEq,
        true_and] at h
      -- where the left operand ends, the signs follow, and behind these the right operands
      obtain ⟨rfl, hright⟩ := render_append_inj l l' _ _ h
      simp only [List.cons.injEq, true_and] at hright
      obtain ⟨hglyph, hright⟩ := hright
      obtain ⟨rfl, hrest⟩ := render_append_inj r r' _ _ hright
      obtain rfl := Connective.glyph_injective hglyph
      exact ⟨rfl, List.tail_eq_of_cons_eq hrest⟩

theorem eq_of_prefix_render {f g : Formula} (h : f.render <+: g.render) : f = g := by
  obtain ⟨cs, hcs⟩ := h
  exact (render_append_inj f g cs [] (hcs.trans (List.append_nil _).symm)).1

theorem render_injective {f g : Formula} (h : f.render = g.render) : f = g :=
  eq_of_prefix_render (h ▸ List.prefix_refl _)

/-! ### Its tokens -/

theorem count_lparen_written (f : Formula) : f.written.count .lparen = f.connectives := by
  induction f with
  | var v => rfl
  | not f ih => simpa [written, connectives] using ih
  | binary c l r ihl ihr => simp [written, connectives, ihl, ihr]

theorem count_rparen_written (f : Formula) : f.written.count .rparen = f.connectives := by
  rw [← f.derives_written.count_parens, f.count_lparen_written]

theorem countP_written (f : Formula) : f.written.countP (!·.isParen) = f.size := by
  rw [List.countP_eq_length_filter, f.derives_written.filter_eq_signs, f.length_signs]

/-- **Written forms are uniquely readable**, without any limit on the depth. Formulas with the same
written form are equal, and one that begins another one is the whole of it. The scan of a written
form succeeds, with each alphabet that has the variables, and it gives one token for each node of
the formula and a pair of parentheses for each connective; the variables among the tokens are the
leaves. -/
theorem uniquely_readable :
    (∀ f g : Formula, toString f = toString g → f = g) ∧
    (∀ f g : Formula, (toString f).toList <+: (toString g).toList → toString f = toString g) ∧
    ∀ f : Formula, ∃ ts, Token.scan .full (toString f) = .ok ts ∧
      (∀ a : Alphabet, (∀ v ∈ f.leaves, a.contains v.name = true) →
        Token.scan a (toString f) = .ok ts) ∧
      ts.countP (!·.isParen) = f.size ∧ ts.count .lparen = f.connectives ∧
      ts.count .rparen = f.connectives ∧ ts.filterMap Token.letter? = f.leaves := by
  refine ⟨fun f g h => ?_, fun f g h => ?_, fun f => ?_⟩
  · have htext := congrArg String.toList h
    rw [toList_toString, toList_toString] at htext
    exact render_injective htext
  · rw [toList_toString, toList_toString] at h
    exact congrArg toString (eq_of_prefix_render h)
  · have hfull : ∀ v ∈ f.leaves, Alphabet.full.contains v.name = true := fun v _ =>
      Alphabet.contains_full.trans v.isUpper
    exact ⟨f.written, f.scan_toString hfull, fun a ha => f.scan_toString ha, f.countP_written,
      f.count_lparen_written, f.count_rparen_written, f.derives_written.filterMap_letter?⟩

/-- An implication under 300 negations is far too deep to be parsed. Yet it is known from its
written form, which has 303 signs and one pair of parentheses. -/
theorem uniquely_readable_negations :
    let f : Formula := Nat.repeat not 300 (binary .implies (var ⟨'A', rfl⟩) (var ⟨'B', rfl⟩))
    let g : Formula := (List.replicate 300 ()).foldl (fun g _ => not g)
      (binary .implies (var ⟨'A', rfl⟩) (var ⟨'B', rfl⟩))
    maxDepth < f.depth ∧ toString f = toString g ∧ f = g ∧
      (toString f).toList <+: (toString g).toList ∧ toString f = toString g ∧
      (∀ v ∈ f.leaves, Alphabet.classic.contains v.name = true) ∧
      ∃ ts, Token.scan .classic (toString f) = .ok ts ∧ ts.countP (!·.isParen) = 303 ∧
        ts.count .lparen = 1 ∧ ts.filterMap Token.letter? = [⟨'A', rfl⟩, ⟨'B', rfl⟩] := by
  intro f g
  have hrender : f.render = g.render := by decide +kernel
  have htext : toString f = toString g := congrArg String.ofList hrender
  have hbegins : (toString f).toList <+: (toString g).toList := by rw [htext]
  have hleaves : f.leaves = [⟨'A', rfl⟩, ⟨'B', rfl⟩] := by decide +kernel
  have hclassic : ∀ v ∈ f.leaves, Alphabet.classic.contains v.name = true := by
    rw [hleaves]
    decide
  obtain ⟨hinjective, hprefix, hscan⟩ := uniquely_readable
  obtain ⟨ts, -, halphabet, hsigns, hopened, -, hletters⟩ := hscan f
  exact ⟨by decide +kernel, htext, hinjective f g htext, hbegins, hprefix f g hbegins, hclassic, ts,
    halphabet _ hclassic, hsigns.trans (by decide +kernel), hopened.trans (by decide +kernel),
    hletters.trans hleaves⟩

end Sentential.Formula
