import Sentential.Proofs.Reading.Exact
import Sentential.Proofs.Reading.Stuck
import Sentential.Reading.Reader

/-!
# Parsing accepts the grammar, up to the limits

`parse` is the rule for formulas with the full budget, followed by the check that no tokens are
left. As the rule is exact, a list of tokens parses to a formula just if it denotes the formula,
nests within the limit and the formula is not too deep; and a list that denotes a formula outside of
the limits is refused as too deep.
-/

namespace Sentential

namespace Reader

theorem length_rest (r : Reader) : r.rest.length = r.tokens.length - r.position :=
  List.length_drop ..

theorem rest_advance (r : Reader) {rest : List Token} (h : rest <:+ r.rest) :
    (r.advance rest).rest = rest := by
  have hdrop := List.suffix_iff_eq_drop.mp h
  unfold advance Reader.rest
  rw [← List.drop_drop]
  exact hdrop.symm

theorem advance_advance {r : Reader} {ts us : List Token} (hts : ts <:+ r.rest) (hus : us <:+ ts) :
    (r.advance ts).advance us = r.advance us := by
  have h₁ := hts.length_le
  have h₂ := hus.length_le
  have hpos : r.position + (r.rest.length - ts.length) + (ts.length - us.length) =
      r.position + (r.rest.length - us.length) := by omega
  change ({ r with position := _ + ((r.advance ts).rest.length - us.length) } : Reader) = _
  rw [rest_advance r hts]
  exact congrArg (fun p => { r with position := p }) hpos

theorem advance_rest (r : Reader) : r.advance r.rest = r := by
  unfold advance
  rw [Nat.sub_self]
  rfl

theorem position_advance {r : Reader} {us rest : List Token} (h : r.rest = us ++ rest) :
    (r.advance rest).position = r.position + us.length := by
  unfold advance
  rw [h, List.length_append, Nat.add_sub_cancel]

theorem next_of_read (r : Reader) {f : Formula} {d : Nat} {rest : List Token} (hr : r.tokens ≠ [])
    (h : (Rule.formula (r.limit - r.nesting)).run r.rest = .read f d rest) :
    r.next = (.ok f, r.advance rest) := by
  rw [next, if_neg hr, h]

theorem next_of_stuck (r : Reader) {cause : ParseError} {opened : Nat} {rest : List Token}
    (hr : r.tokens ≠ [])
    (h : (Rule.formula (r.limit - r.nesting)).run r.rest = .stuck cause opened rest) :
    r.next = (.error cause, { r.advance rest with nesting := r.nesting + opened }) := by
  rw [next, if_neg hr, h]

/-- **What a reader does that reads a formula.** It takes the tokens of a formula that fits what is
left of its budget, and no connective follows these. -/
theorem next_ok {r r' : Reader} {f : Formula} (h : r.next = (.ok f, r')) :
    ∃ us rest, r.rest = us ++ rest ∧ Fits (r.limit - r.nesting) Connective.ladder us f ∧
      Stops Connective.ladder rest ∧ r' = r.advance rest := by
  rw [next] at h
  split at h
  · cases h
  · split at h
    · next f d rest hrun =>
      cases h
      obtain ⟨us, hrest, hf, -⟩ := (Rule.exact_formula _).sound hrun
      exact ⟨us, rest, hrest, hf, (Rule.greedy_formula _).stops hrun, rfl⟩
    · cases h

/-- **What a reader does that fails.** It has no tokens at all, or it gets stuck and remembers how
many signs it has opened. -/
theorem next_error {r r' : Reader} {cause : ParseError} (h : r.next = (.error cause, r')) :
    r.tokens = [] ∧ cause = .noTokens ∧ r' = r ∨
    r.tokens ≠ [] ∧ ∃ us opened rest, r.rest = us ++ rest ∧
      Stalls (r.limit - r.nesting) Connective.ladder us rest cause opened ∧
      r' = { r.advance rest with nesting := r.nesting + opened } := by
  rw [next] at h
  split at h
  · next hr =>
    cases h
    exact .inl ⟨hr, rfl, rfl⟩
  · next hr =>
    split at h
    · cases h
    · next cause opened rest hrun =>
      cases h
      obtain ⟨us, hrest, hstalls⟩ := (Rule.greedy_formula _).stalls hrun
      exact .inr ⟨hr, us, opened, rest, hrest, hstalls, rfl⟩

end Reader

theorem Rule.run_nil_ne_read {rule : Rule} {f : Formula} {d : Nat} {rest : List Token} :
    rule.run [] ≠ .read f d rest := fun h => Nat.not_lt_zero _ (rule.consumes h)

theorem parse_nil : parse [] = .error .noTokens := rfl

section parse

variable {ts rest us : List Token} {t : Token} {f : Formula} {d : Nat}

theorem parse_of_stuck {cause : ParseError} {opened : Nat} (hne : ts ≠ [])
    (h : (Rule.formula maxDepth).run ts = .stuck cause opened rest) : parse ts = .error cause := by
  unfold parse
  rw [Reader.next_of_stuck { tokens := ts } hne h]

theorem parse_eq_finish (h : (Rule.formula maxDepth).run ts = .read f d rest) :
    parse ts = (({ tokens := ts } : Reader).advance rest).finish.map fun _ => f := by
  have hne : ts ≠ [] := fun h' => Rule.run_nil_ne_read (h' ▸ h)
  unfold parse
  rw [Reader.next_of_read { tokens := ts } hne h]

theorem parse_of_read (h : (Rule.formula maxDepth).run ts = .read f d []) : parse ts = .ok f := by
  rw [parse_eq_finish h, Reader.finish, Reader.rest_advance _ (List.nil_suffix)]
  rfl

theorem parse_of_left (h : (Rule.formula maxDepth).run ts = .read f d (t :: us)) :
    parse ts = .error (.trailing t (ts.length - (us.length + 1))) := by
  obtain ⟨vs, hts, -⟩ := (Rule.exact_formula maxDepth).sound h
  rw [parse_eq_finish h, Reader.finish, Reader.rest_advance { tokens := ts } ⟨vs, hts.symm⟩]
  simp [Reader.advance, Reader.rest, Except.map]

theorem parse_eq_error {e : ParseError} (h : parse ts = .error e) :
    (∃ r, ({ tokens := ts } : Reader).next = (.error e, r)) ∨
      ∃ g r t us, ({ tokens := ts } : Reader).next = (.ok g, r) ∧ r.rest = t :: us ∧
        e = .trailing t r.position := by
  rw [parse] at h
  split at h
  · next g r hnext =>
    cases hrest : r.rest with
    | nil =>
      rw [Reader.finish, hrest] at h
      cases h
    | cons t us =>
      rw [Reader.finish, hrest] at h
      cases h
      exact .inr ⟨g, r, t, us, hnext, hrest, rfl⟩
  · next e' r hnext =>
    cases h
    exact .inl ⟨r, hnext⟩

theorem parse_eq_ok_iff_run :
    parse ts = .ok f ↔ ∃ d, (Rule.formula maxDepth).run ts = .read f d [] := by
  constructor
  · intro h
    by_cases hne : ts = []
    · subst hne
      cases h
    · cases hr : (Rule.formula maxDepth).run ts with
      | stuck cause opened rest =>
        rw [parse_of_stuck hne hr] at h
        cases h
      | read g d rest =>
        cases rest with
        | nil =>
          rw [parse_of_read hr] at h
          cases h
          exact ⟨d, rfl⟩
        | cons t us =>
          rw [parse_of_left hr] at h
          cases h
  · rintro ⟨d, h⟩
    exact parse_of_read h

theorem parse_error_cases {e : ParseError} (h : parse ts = .error e) :
    ts = [] ∧ e = .noTokens ∨
      (∃ opened rest, ts ≠ [] ∧ (Rule.formula maxDepth).run ts = .stuck e opened rest) ∨
      ∃ f d t us, (Rule.formula maxDepth).run ts = .read f d (t :: us) ∧
        e = .trailing t (ts.length - (us.length + 1)) := by
  by_cases hne : ts = []
  · subst hne
    cases h
    exact .inl ⟨rfl, rfl⟩
  cases hr : (Rule.formula maxDepth).run ts with
  | stuck cause opened rest =>
    rw [parse_of_stuck hne hr] at h
    cases h
    exact .inr (.inl ⟨opened, rest, hne, rfl⟩)
  | read f d rest =>
    cases rest with
    | nil =>
      rw [parse_of_read hr] at h
      cases h
    | cons t us =>
      rw [parse_of_left hr] at h
      cases h
      exact .inr (.inr ⟨f, d, t, us, rfl, rfl⟩)

theorem parse_eq_noTokens_iff : parse ts = .error .noTokens ↔ ts = [] := by
  constructor
  · intro h
    rcases parse_error_cases h with ⟨hts, -⟩ | ⟨opened, rest, -, hr⟩ | ⟨_, _, _, _, -, hcause⟩
    · exact hts
    · obtain ⟨us, -, hstalls⟩ := (Rule.greedy_formula maxDepth).stalls hr
      exact absurd rfl hstalls.cause_ne_noTokens
    · cases hcause
  · rintro rfl
    exact parse_nil

/-- **Parsing accepts exactly what fits the grammar and the limits.** -/
theorem parse_eq_ok_iff_fits : parse ts = .ok f ↔ Fits maxDepth Connective.ladder ts f := by
  have hexact := Rule.exact_formula maxDepth
  rw [parse_eq_ok_iff_run]
  constructor
  · rintro ⟨d, h⟩
    obtain ⟨us, hts, hf, -⟩ := hexact.sound h
    rw [List.append_nil] at hts
    rwa [hts]
  · intro hf
    have h := hexact.complete hf (Stops.nil_right _)
    rw [List.append_nil] at h
    exact ⟨f.depth, h⟩

theorem parse_eq_tooDeep (h : Denotes ts f) (hf : ¬ Fits maxDepth Connective.ladder ts f) :
    parse ts = .error (.tooDeep maxDepth) := by
  obtain ⟨opened, rest, hr⟩ := (Rule.exact_formula maxDepth).refuses h hf (Stops.nil_right _)
  rw [List.append_nil] at hr
  exact parse_of_stuck h.ne_nil hr

theorem fits_ladder_iff {budget : Nat} :
    Fits budget Connective.ladder ts f ↔
      Denotes ts f ∧ NestsWithin budget ts ∧ f.depth ≤ maxDepth := by
  rw [nestsWithin_iff]
  exact ⟨fun ⟨h, hn, hd⟩ => ⟨h, hn, hd⟩, fun ⟨h, hn, hd⟩ => ⟨h, hn, hd⟩⟩

theorem parse_of_denotes (h : Denotes ts f) :
    (NestsWithin maxDepth ts ∧ f.depth ≤ maxDepth) ∧ parse ts = .ok f ∨
      (¬ NestsWithin maxDepth ts ∨ maxDepth < f.depth) ∧ parse ts = .error (.tooDeep maxDepth) := by
  by_cases hfits : Fits maxDepth Connective.ladder ts f
  · exact .inl ⟨(fits_ladder_iff.mp hfits).2, parse_eq_ok_iff_fits.mpr hfits⟩
  · refine .inr ⟨?_, parse_eq_tooDeep h hfits⟩
    rw [fits_ladder_iff] at hfits
    by_cases hnests : NestsWithin maxDepth ts
    · exact .inr (Nat.not_le.mp fun hdepth => hfits ⟨h, hnests, hdepth⟩)
    · exact .inl hnests

end parse

/-! ### The variables of what was parsed -/

theorem Derives.filterMap_letter? {cs : List Connective} {ts : List Token} {f : Formula}
    (h : Derives cs ts f) : ts.filterMap Token.letter? = f.leaves := by
  have hparen : ∀ t : Token, (if !t.isParen then t.letter? else none) = t.letter? := by
    rintro (_ | _ | _ | _ | _) <;> rfl
  rw [← f.filterMap_signs, ← h.filter_eq_signs, List.filterMap_filter]
  simp only [hparen]

theorem vars_eq_of_parse {ts : List Token} {f : Formula} (h : parse ts = .ok f) :
    Token.vars ts = f.vars := by
  unfold Token.vars Formula.vars
  rw [(parse_eq_ok_iff_fits.mp h).derives.filterMap_letter?]

/-! ### Negations in a row -/

theorem denotes_negations (v : Variable) (n : Nat) :
    Denotes (List.replicate n .not ++ [.var v]) (Nat.repeat .not n (.var v)) := by
  have h : Derives [] (List.replicate n .not ++ [.var v]) (Nat.repeat .not n (.var v)) := by
    induction n with
    | zero => exact .var v
    | succ n ih => exact .not ih
  exact h.of_operand _

theorem depth_negations (f : Formula) (n : Nat) :
    (Nat.repeat .not n f).depth = f.depth + n := by
  induction n with
  | zero => rfl
  | succ n ih => rw [Nat.repeat, Formula.depth, ih]; rfl

/-! ### The parser and the grammar -/

/-- **The parser is the grammar, up to the limits.** A list of tokens parses to a formula just if it
denotes it, no more than `maxDepth` of `(` and `∼` are open at any place in it, and the formula is
not deeper than that. A list that denotes a formula but breaks a limit is too deep. -/
theorem parse_eq_ok_iff_denotes (ts : List Token) (f : Formula) :
    (parse ts = .ok f ↔ Denotes ts f ∧ NestsWithin maxDepth ts ∧ f.depth ≤ maxDepth) ∧
      (Denotes ts f → ¬ (NestsWithin maxDepth ts ∧ f.depth ≤ maxDepth) →
        parse ts = .error (.tooDeep maxDepth)) := by
  refine ⟨parse_eq_ok_iff_fits.trans fits_ladder_iff, fun h hlimits => ?_⟩
  exact parse_eq_tooDeep h fun hf => hlimits (fits_ladder_iff.mp hf).2

theorem parse_negations_too_deep :
    Denotes (List.replicate 257 .not ++ [.var ⟨'A', rfl⟩]) (Nat.repeat .not 257 (.var ⟨'A', rfl⟩)) ∧
      parse (List.replicate 257 .not ++ [.var ⟨'A', rfl⟩]) = .error (.tooDeep maxDepth) := by
  have h := denotes_negations ⟨'A', rfl⟩ 257
  refine ⟨h, (parse_eq_ok_iff_denotes _ _).2 h fun hlimits => ?_⟩
  have hdepth := hlimits.2
  rw [depth_negations] at hdepth
  exact absurd hdepth (by decide)

end Sentential
