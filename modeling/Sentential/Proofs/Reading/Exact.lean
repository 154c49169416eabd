import Sentential.Proofs.Reading.Fits
import Sentential.Reading.Rule

/-!
# A rule reads exactly what is derived within the limits

`Rule.Exact rule budget cs` says three things of a rule for the rung with the connectives `cs`. What
it reads is derived within the limits, and the depth it reports is that of the formula. What is
derived within the limits it reads, up to a token that cannot extend it. What is derived outside of
the limits it refuses as too deep, for no other reason.

The rules are built up as the grammar is, and each step keeps them exact: a chain of exact operands
(`Exact.chain`), the rungs one above the other (`Exact.joined`), the operands under one more sign
(`exact_operand`). So the rule for the whole grammar is exact (`exact_formula`).
-/

namespace Sentential

/-- The reading is a refusal of what is too deep. -/
def Reading.IsTooDeep (r : Reading) : Prop := ∃ opened rest, r = tooDeep opened rest

theorem Reading.IsTooDeep.negated {r : Reading} (h : r.IsTooDeep) : r.negated.IsTooDeep := by
  obtain ⟨opened, rest, rfl⟩ := h
  exact ⟨opened + 1, rest, rfl⟩

theorem Reading.IsTooDeep.closed {r : Reading} (h : r.IsTooDeep) : r.closed.IsTooDeep := by
  obtain ⟨opened, rest, rfl⟩ := h
  exact ⟨opened + 1, rest, rfl⟩

/-- The tokens do not begin with one of the connectives. -/
def Stops (cs : List Connective) (ts : List Token) : Prop := ∀ c ∈ cs, ts.head? ≠ some (.op c)

theorem Stops.nil_right (cs : List Connective) : Stops cs [] := fun _ _ h => nomatch h

theorem Stops.rparen (cs : List Connective) (ts : List Token) : Stops cs (.rparen :: ts) :=
  fun _ _ h => nomatch h

theorem Stops.of_cons {c : Connective} {cs : List Connective} {ts : List Token}
    (h : Stops (c :: cs) ts) : Stops cs ts := fun d hd => h d (List.mem_cons_of_mem _ hd)

namespace Rule

/-- The rule reads exactly the lists of the rung with the connectives `cs` that fit the budget. -/
structure Exact (rule : Rule) (budget : Nat) (cs : List Connective) : Prop where
  sound : ∀ {ts f d rest}, rule.run ts = .read f d rest →
    ∃ us, ts = us ++ rest ∧ Fits budget cs us f ∧ d = f.depth
  complete : ∀ {ts f rest}, Fits budget cs ts f → Stops cs rest →
    rule.run (ts ++ rest) = .read f f.depth rest
  refuses : ∀ {ts f rest}, Derives cs ts f → ¬ Fits budget cs ts f → Stops cs rest →
    (rule.run (ts ++ rest)).IsTooDeep

/-! ### Chains -/

section links

variable {operand : Rule} {c : Connective} {f g : Formula} {d e : Nat} {ts rest : List Token}

theorem links_stop (h : ts.head? ≠ some (.op c)) : links operand c f d ts = .read f d ts := by
  fun_cases links operand c f d ts with
  | case1 => simp at h
  | case2 => simp at h
  | case3 => simp at h
  | case4 => rfl
  | case5 => rfl

theorem links_read (h : operand.run ts = .read g e rest) :
    links operand c f d (.op c :: ts) =
      if max d e + 1 ≤ maxDepth then links operand c (.binary c f g) (max d e + 1) rest
      else .tooDeep 0 rest := by
  rw [links, if_pos rfl]
  split
  · next h' =>
    rw [h] at h'
    cases h'
    rfl
  · next h' =>
    rw [h] at h'
    cases h'

theorem links_stuck {cause : ParseError} {opened : Nat}
    (h : operand.run ts = .stuck cause opened rest) :
    links operand c f d (.op c :: ts) = .stuck cause opened rest := by
  rw [links, if_pos rfl]
  split
  · next h' =>
    rw [h] at h'
    cases h'
  · next h' =>
    rw [h] at h'
    cases h'
    rfl

end links

namespace Exact

variable {operand : Rule} {budget : Nat} {cs : List Connective}

theorem links_sound (ho : operand.Exact budget cs) {c : Connective} {f g : Formula} {d e : Nat}
    {ts rest : List Token} (h : links operand c f d ts = .read g e rest) {vs : List Token}
    (hf : Fits budget (c :: cs) vs f) (hd : d = f.depth) :
    ∃ us, ts = us ++ rest ∧ Fits budget (c :: cs) (vs ++ us) g ∧ e = g.depth := by
  fun_induction links operand c f d ts generalizing vs with
  | case1 f d ts g' e' ts' hr hm ih =>
    obtain ⟨us, rfl, hg, rfl⟩ := ho.sound hr
    subst hd
    have hfg := (Fits.link_iff hf.derives hg.derives).mpr ⟨hf, hg, hm⟩
    obtain ⟨ws, rfl, hfit, he⟩ := ih h hfg rfl
    refine ⟨.op c :: us ++ ws, by simp, ?_, he⟩
    rw [List.append_assoc, List.cons_append] at hfit
    exact hfit
  | case2 => simp [Reading.tooDeep] at h
  | case3 => simp at h
  | case4 => cases h; exact ⟨[], rfl, by rwa [List.append_nil], hd⟩
  | case5 => cases h; exact ⟨[], rfl, by rwa [List.append_nil], hd⟩

/-- **A derived chain is read link by link.** The induction is on the left end of the chain, so what
follows a part of it may begin with the connective of the chain, but with none that binds tighter.
-/
theorem run_chain (ho : operand.Exact budget cs) {c : Connective} (hc : c ∉ cs) {ts : List Token}
    {f : Formula} (h : Derives (c :: cs) ts f) : ∀ rest, Stops cs rest →
      (Fits budget (c :: cs) ts f →
        (operand.chain c).run (ts ++ rest) = links operand c f f.depth rest) ∧
      (¬ Fits budget (c :: cs) ts f → ((operand.chain c).run (ts ++ rest)).IsTooDeep) := by
  generalize hcs : c :: cs = ds at h
  induction h with
  | var | not | parens => cases hcs
  | operand h _ =>
    cases hcs
    intro rest hrest
    rw [Fits.operand_iff h]
    constructor
    · intro hf
      simp only [chain, ho.complete hf hrest]
    · intro hf
      obtain ⟨opened, rest', hr⟩ := ho.refuses h hf hrest
      exact ⟨opened, rest', by simp only [chain, hr, Reading.tooDeep]⟩
  | @link _ _ ts us f g h₁ h₂ ih₁ _ =>
    cases hcs
    intro rest hrest
    have hop : Stops cs (.op c :: (us ++ rest)) := by
      intro c' hc' he
      cases he
      exact hc hc'
    obtain ⟨hread, hdeep⟩ := ih₁ rfl _ hop
    rw [Fits.link_iff h₁ h₂, List.append_assoc, List.cons_append]
    constructor
    · rintro ⟨hf, hg, hm⟩
      rw [hread hf, links_read (ho.complete hg hrest), if_pos hm]
      rfl
    · intro hfit
      -- what is refused is the first of the left end, the operand and the link that breaks a limit
      by_cases hf : Fits budget (c :: cs) ts f
      · rw [hread hf]
        by_cases hg : Fits budget cs us g
        · have hm : ¬ max f.depth g.depth + 1 ≤ maxDepth := fun hm => hfit ⟨hf, hg, hm⟩
          rw [links_read (ho.complete hg hrest), if_neg hm]
          exact ⟨0, rest, rfl⟩
        · obtain ⟨opened, rest', hr⟩ := ho.refuses h₂ hg hrest
          rw [links_stuck hr]
          exact ⟨opened, rest', rfl⟩
      · exact hdeep hf

theorem chain (ho : operand.Exact budget cs) {c : Connective} (hc : c ∉ cs) :
    (operand.chain c).Exact budget (c :: cs) where
  sound {ts g e rest} h := by
    simp only [Rule.chain] at h
    split at h
    · next f d ts' hr =>
      obtain ⟨vs, rfl, hf, hd⟩ := ho.sound hr
      obtain ⟨us, rfl, hg, he⟩ := ho.links_sound h ((Fits.operand_iff hf.derives).mpr hf) hd
      exact ⟨vs ++ us, by rw [List.append_assoc], hg, he⟩
    · cases h
  complete {ts f rest} hf hrest := by
    rw [(ho.run_chain hc hf.derives rest hrest.of_cons).1 hf]
    exact links_stop (hrest c (List.mem_cons_self ..))
  refuses h hf hrest := (ho.run_chain hc h _ hrest.of_cons).2 hf

theorem joined (ho : operand.Exact budget []) :
    ∀ {cs : List Connective}, cs.Nodup → (operand.joined cs).Exact budget cs
  | [], _ => ho
  | _ :: _, h =>
    have ⟨hc, hcs⟩ := List.nodup_cons.mp h
    (ho.joined hcs).chain hc

theorem formula (ho : operand.Exact budget []) :
    (operand.joined Connective.ladder).Exact budget Connective.ladder := ho.joined (by decide)

end Exact

/-! ### Operands -/

theorem operandWith_none_exact : Exact ⟨operandWith none, length_lt_of_operandWith⟩ 0 [] where
  sound {ts f d rest} h := by
    cases ts with
    | nil => cases h
    | cons t ts =>
      cases t with
      | var v => cases h; exact ⟨[.var v], rfl, .var v, rfl⟩
      | not | op | lparen | rparen => cases h
  complete {ts f rest} hf _ := by
    cases hf.derives with
    | var v => rfl
    | not h => exact absurd hf (Fits.not_fits_not h)
    | parens h => exact absurd hf (Fits.not_fits_parens h)
  refuses {ts f rest} h hf _ := by
    cases h with
    | var v => exact absurd (Fits.var v) hf
    | not h => exact ⟨1, _, rfl⟩
    | parens h => exact ⟨1, _, rfl⟩

theorem Exact.operandWith_some {inner : Rule} {budget : Nat} (hi : inner.Exact budget []) :
    Exact ⟨operandWith (some inner), length_lt_of_operandWith⟩ (budget + 1) [] where
  sound {ts f d rest} h := by
    cases ts with
    | nil => cases h
    | cons t ts =>
      cases t with
      | var v => cases h; exact ⟨[.var v], rfl, .var v, rfl⟩
      | not =>
        obtain ⟨g, e, hr, hd, rfl, rfl⟩ := Reading.negated_eq_read_iff.mp h
        obtain ⟨us, rfl, hg, rfl⟩ := hi.sound hr
        exact ⟨.not :: us, rfl, (Fits.not_iff hg.derives).mpr ⟨hg, hd⟩, rfl⟩
      | lparen =>
        obtain ⟨us, rfl, hf, hd⟩ := hi.formula.sound (Reading.closed_eq_read_iff.mp h)
        exact ⟨.lparen :: (us ++ [.rparen]), by simp, (Fits.parens_iff hf.derives).mpr hf, hd⟩
      | op | rparen => cases h
  complete {ts f rest} hf hrest := by
    cases hf.derives with
    | var v => rfl
    | @not ts f h =>
      obtain ⟨hg, hd⟩ := (Fits.not_iff h).mp hf
      change (inner.run (ts ++ rest)).negated = _
      rw [hi.complete hg hrest]
      exact Reading.bounded_eq_read_iff.mpr ⟨hd, rfl, rfl, rfl⟩
    | @parens ts f h =>
      change ((inner.joined Connective.ladder).run ((ts ++ [.rparen]) ++ rest)).closed = _
      rw [List.append_assoc, List.singleton_append,
        hi.formula.complete ((Fits.parens_iff h).mp hf) (.rparen _ rest)]
      rfl
  refuses {ts f rest} h hf hrest := by
    cases h with
    | var v => exact absurd (Fits.var v) hf
    | @not ts f h =>
      change ((inner.run (ts ++ rest)).negated).IsTooDeep
      by_cases hg : Fits budget [] ts f
      · -- the operand itself is read, so it can only be the `∼` that is one too many
        have hd : ¬ f.depth + 1 ≤ maxDepth := fun hd => hf ((Fits.not_iff h).mpr ⟨hg, hd⟩)
        rw [hi.complete hg hrest]
        exact ⟨0, rest, if_neg hd⟩
      · exact (hi.refuses h hg hrest).negated
    | @parens ts f h =>
      change (((inner.joined Connective.ladder).run ((ts ++ [.rparen]) ++ rest)).closed).IsTooDeep
      have hg : ¬ Fits budget Connective.ladder ts f := fun hg => hf ((Fits.parens_iff h).mpr hg)
      rw [List.append_assoc]
      exact (hi.formula.refuses h hg (.rparen _ rest)).closed

theorem exact_operand : ∀ budget, (operand budget).Exact budget []
  | 0 => operandWith_none_exact
  | budget + 1 => (exact_operand budget).operandWith_some

theorem exact_rung (budget level : Nat) :
    (rung budget level).Exact budget (Connective.ladder.drop level) := by
  have hladder : Connective.ladder.Nodup := by decide
  exact (exact_operand budget).joined (hladder.sublist (List.drop_sublist ..))

/-- **The rule for formulas reads exactly the lists that fit its budget.** -/
theorem exact_formula (budget : Nat) : (formula budget).Exact budget Connective.ladder :=
  exact_rung budget 0

end Rule

end Sentential
