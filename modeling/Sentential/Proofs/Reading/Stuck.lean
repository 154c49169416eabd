import Sentential.Proofs.Reading.Exact

/-!
# Where a rule gets stuck

`Stalls budget cs us rest cause opened` lists the ways in which the reading of a formula of the rung
with the connectives `cs` comes to a halt: it has consumed `us` and stands in front of `rest`, it
reports `cause`, and `opened` of the signs `(` and `∼` were opened and not finished. What was read
before the halt is derived within the limits, so the relation speaks of the grammar and not of
rules.

A rule is greedy (`Rule.Greedy`) if it gets stuck in these ways only, and if what it reads is not
followed by a connective that it could have used. As in the proof that rules are exact, each step by
which rules are built keeps them greedy (`Rule.greedy_rung`).
-/

namespace Sentential

/-- The ways to get stuck after `us`, in front of `rest`. -/
inductive Stalls : (budget : Nat) → (cs : List Connective) → (us rest : List Token) →
    (cause : ParseError) → (opened : Nat) → Prop
  /-- The tokens end where an operand is due. -/
  | atEnd {b : Nat} : Stalls b [] [] [] .incomplete 0
  | atConnective {b : Nat} {c : Connective} {ts : List Token} :
      Stalls b [] [] (.op c :: ts) (.unexpected (.op c)) 0
  | atParen {b : Nat} {ts : List Token} : Stalls b [] [] (.rparen :: ts) (.unexpected .rparen) 0
  /-- The budget is used up. The sign that exceeds it has been consumed, and counts as opened. -/
  | enterNot {ts : List Token} : Stalls 0 [] [.not] ts (.tooDeep maxDepth) 1
  | enterParen {ts : List Token} : Stalls 0 [] [.lparen] ts (.tooDeep maxDepth) 1
  | underNot {b n : Nat} {us ts : List Token} {e : ParseError} :
      Stalls b [] us ts e n → Stalls (b + 1) [] (.not :: us) ts e (n + 1)
  | underParen {b n : Nat} {us ts : List Token} {e : ParseError} :
      Stalls b Connective.ladder us ts e n → Stalls (b + 1) [] (.lparen :: us) ts e (n + 1)
  /-- The operand of a negation is complete, and the negation is too deep. -/
  | deepNot {b : Nat} {us ts : List Token} {f : Formula} :
      Fits b [] us f → ¬ f.depth + 1 ≤ maxDepth →
        Stalls (b + 1) [] (.not :: us) ts (.tooDeep maxDepth) 0
  /-- A formula in parentheses is complete, and something else than its `)` follows. -/
  | unlike {b : Nat} {us ts : List Token} {f : Formula} {t : Token} :
      Fits b Connective.ladder us f → Stops Connective.ladder (t :: ts) → t ≠ .rparen →
        Stalls (b + 1) [] (.lparen :: us) (t :: ts) (.expected .rparen t) 1
  | unclosed {b : Nat} {us : List Token} {f : Formula} :
      Fits b Connective.ladder us f → Stalls (b + 1) [] (.lparen :: us) [] .unclosed 1
  | first {b n : Nat} {c : Connective} {cs : List Connective} {us ts : List Token}
      {e : ParseError} : Stalls b cs us ts e n → Stalls b (c :: cs) us ts e n
  | later {b n : Nat} {c : Connective} {cs : List Connective} {vs us ts : List Token} {f : Formula}
      {e : ParseError} : Fits b (c :: cs) vs f → Stalls b cs us ts e n →
        Stalls b (c :: cs) (vs ++ .op c :: us) ts e n
  /-- Both sides of a link are complete, and what they make is too deep. -/
  | deepLink {b : Nat} {c : Connective} {cs : List Connective} {vs us ts : List Token}
      {f g : Formula} : Fits b (c :: cs) vs f → Fits b cs us g →
        ¬ max f.depth g.depth + 1 ≤ maxDepth →
          Stalls b (c :: cs) (vs ++ .op c :: us) ts (.tooDeep maxDepth) 0

/-- Being stuck is never put down to an empty list, which only a reader knows of. -/
theorem Stalls.cause_ne_noTokens {b n : Nat} {cs : List Connective} {us ts : List Token}
    {e : ParseError} (h : Stalls b cs us ts e n) : e ≠ .noTokens := by
  induction h with
  | underNot _ ih | underParen _ ih | first _ ih | later _ _ ih => exact ih
  | _ => exact ParseError.noConfusion

theorem Reading.closed_of_ne {f : Formula} {d : Nat} {t : Token} {rest : List Token}
    (h : t ≠ .rparen) :
    (Reading.read f d (t :: rest)).closed = .stuck (.expected .rparen t) 1 (t :: rest) := by
  rw [closed]
  exact h

theorem Stops.cons_iff {c : Connective} {cs : List Connective} {ts : List Token} :
    Stops (c :: cs) ts ↔ ts.head? ≠ some (.op c) ∧ Stops cs ts := List.forall_mem_cons

namespace Rule

/-- The rule reads on as long as it can, and it gets stuck in the ways that `Stalls` lists. -/
structure Greedy (rule : Rule) (budget : Nat) (cs : List Connective) : Prop where
  stops : ∀ {ts f d rest}, rule.run ts = .read f d rest → Stops cs rest
  stalls : ∀ {ts cause opened rest}, rule.run ts = .stuck cause opened rest →
    ∃ us, ts = us ++ rest ∧ Stalls budget cs us rest cause opened

namespace Greedy

/-! ### Chains -/

section links

variable {operand : Rule} {budget : Nat} {cs : List Connective} {c : Connective}

theorem links_stops (ho : operand.Greedy budget cs) {f g : Formula} {d e : Nat}
    {ts rest : List Token} (h : links operand c f d ts = .read g e rest) (hts : Stops cs ts) :
    Stops (c :: cs) rest := by
  fun_induction links operand c f d ts with
  | case1 f d ts g' e' ts' hr hd ih => exact ih h (ho.stops hr)
  | case2 => simp [Reading.tooDeep] at h
  | case3 => simp at h
  | case4 f d ts c' hc =>
    cases h
    refine Stops.cons_iff.mpr ⟨fun he => hc ?_, hts⟩
    cases he
    rfl
  | case5 f d ts hts' =>
    cases h
    refine Stops.cons_iff.mpr ⟨fun he => ?_, hts⟩
    obtain ⟨ts', rfl⟩ := List.head?_eq_some_iff.mp he
    exact hts' c ts' rfl

/-- A chain of which `vs` has been read gets stuck after a part of what follows. -/
theorem links_stalls (he : operand.Exact budget cs) (ho : operand.Greedy budget cs) {f : Formula}
    {d opened : Nat} {cause : ParseError} {ts rest : List Token}
    (h : links operand c f d ts = .stuck cause opened rest) {vs : List Token}
    (hf : Fits budget (c :: cs) vs f) (hd : d = f.depth) :
    ∃ us, ts = us ++ rest ∧ Stalls budget (c :: cs) (vs ++ us) rest cause opened := by
  fun_induction links operand c f d ts generalizing vs with
  | case1 f d ts g e ts' hr hm ih =>
    obtain ⟨us, rfl, hg, rfl⟩ := he.sound hr
    subst hd
    have hfg := (Fits.link_iff hf.derives hg.derives).mpr ⟨hf, hg, hm⟩
    obtain ⟨ws, rfl, hstalls⟩ := ih h hfg rfl
    refine ⟨.op c :: us ++ ws, by simp, ?_⟩
    rw [List.append_assoc, List.cons_append] at hstalls
    exact hstalls
  | case2 f d ts g e ts' hr hm =>
    obtain ⟨us, rfl, hg, rfl⟩ := he.sound hr
    subst hd
    cases h
    exact ⟨.op c :: us, rfl, .deepLink hf hg hm⟩
  | case3 f d ts cause' opened' ts' hr =>
    cases h
    obtain ⟨us, rfl, hstalls⟩ := ho.stalls hr
    exact ⟨.op c :: us, rfl, .later hf hstalls⟩
  | case4 => cases h
  | case5 => cases h

theorem chain (he : operand.Exact budget cs) (ho : operand.Greedy budget cs) (c : Connective) :
    (operand.chain c).Greedy budget (c :: cs) where
  stops {ts g e rest} h := by
    simp only [Rule.chain] at h
    split at h
    · next f d ts' hr => exact ho.links_stops h (ho.stops hr)
    · cases h
  stalls {ts cause opened rest} h := by
    simp only [Rule.chain] at h
    split at h
    · next f d ts' hr =>
      obtain ⟨vs, rfl, hf, hd⟩ := he.sound hr
      obtain ⟨us, rfl, hstalls⟩ := links_stalls he ho h ((Fits.operand_iff hf.derives).mpr hf) hd
      exact ⟨vs ++ us, by rw [List.append_assoc], hstalls⟩
    · next hr =>
      cases h
      obtain ⟨us, rfl, hstalls⟩ := ho.stalls hr
      exact ⟨us, rfl, .first hstalls⟩

theorem joined (he : operand.Exact budget []) (ho : operand.Greedy budget []) :
    ∀ {cs : List Connective}, cs.Nodup → (operand.joined cs).Greedy budget cs
  | [], _ => ho
  | c :: _, h =>
    have ⟨_, hcs⟩ := List.nodup_cons.mp h
    chain (he.joined hcs) (joined he ho hcs) c

theorem formula (he : operand.Exact budget []) (ho : operand.Greedy budget []) :
    (operand.joined Connective.ladder).Greedy budget Connective.ladder := joined he ho (by decide)

end links

end Greedy

/-! ### Operands -/

theorem operandWith_none_greedy : Greedy ⟨operandWith none, length_lt_of_operandWith⟩ 0 [] where
  stops _ := fun _ h => nomatch h
  stalls {ts cause opened rest} h := by
    cases ts with
    | nil => cases h; exact ⟨[], rfl, .atEnd⟩
    | cons t ts =>
      cases t with
      | var => cases h
      | not => cases h; exact ⟨[.not], rfl, .enterNot⟩
      | op c => cases h; exact ⟨[], rfl, .atConnective⟩
      | lparen => cases h; exact ⟨[.lparen], rfl, .enterParen⟩
      | rparen => cases h; exact ⟨[], rfl, .atParen⟩

/-- A negation gets stuck in its operand, or when the operand is complete. -/
theorem stalls_negated {inner : Rule} {budget : Nat} (he : inner.Exact budget [])
    (hi : inner.Greedy budget []) {ts rest : List Token} {cause : ParseError} {opened : Nat}
    (h : (inner.run ts).negated = .stuck cause opened rest) :
    ∃ us, .not :: ts = us ++ rest ∧ Stalls (budget + 1) [] us rest cause opened := by
  cases hr : inner.run ts with
  | read f d ts' =>
    obtain ⟨us, rfl, hf, rfl⟩ := he.sound hr
    rw [hr, Reading.negated, Reading.bounded] at h
    split at h
    · cases h
    · next hd =>
      cases h
      exact ⟨.not :: us, rfl, .deepNot hf hd⟩
  | stuck cause' opened' ts' =>
    obtain ⟨us, rfl, hstalls⟩ := hi.stalls hr
    rw [hr] at h
    cases h
    exact ⟨.not :: us, rfl, .underNot hstalls⟩

/-- A formula in parentheses gets stuck before it is complete, or for want of its `)`. -/
theorem stalls_closed {inner : Rule} {budget : Nat} (he : inner.Exact budget Connective.ladder)
    (hi : inner.Greedy budget Connective.ladder) {ts rest : List Token} {cause : ParseError}
    {opened : Nat} (h : (inner.run ts).closed = .stuck cause opened rest) :
    ∃ us, .lparen :: ts = us ++ rest ∧ Stalls (budget + 1) [] us rest cause opened := by
  cases hr : inner.run ts with
  | read f d ts' =>
    obtain ⟨us, rfl, hf, -⟩ := he.sound hr
    have hstops := hi.stops hr
    rw [hr] at h
    cases ts' with
    | nil =>
      cases h
      exact ⟨.lparen :: us, rfl, .unclosed hf⟩
    | cons t ts' =>
      by_cases ht : t = .rparen
      · subst ht
        cases h
      · rw [Reading.closed_of_ne ht] at h
        cases h
        exact ⟨.lparen :: us, rfl, .unlike hf hstops ht⟩
  | stuck cause' opened' ts' =>
    obtain ⟨us, rfl, hstalls⟩ := hi.stalls hr
    rw [hr] at h
    cases h
    exact ⟨.lparen :: us, rfl, .underParen hstalls⟩

theorem Greedy.operandWith_some {inner : Rule} {budget : Nat} (he : inner.Exact budget [])
    (hi : inner.Greedy budget []) :
    Greedy ⟨operandWith (some inner), length_lt_of_operandWith⟩ (budget + 1) [] where
  stops _ := fun _ h => nomatch h
  stalls {ts cause opened rest} h := by
    cases ts with
    | nil => cases h; exact ⟨[], rfl, .atEnd⟩
    | cons t ts =>
      cases t with
      | var => cases h
      | not => exact stalls_negated he hi h
      | op c => cases h; exact ⟨[], rfl, .atConnective⟩
      | lparen => exact stalls_closed he.formula (formula he hi) h
      | rparen => cases h; exact ⟨[], rfl, .atParen⟩

theorem greedy_operand : ∀ budget, (operand budget).Greedy budget []
  | 0 => operandWith_none_greedy
  | budget + 1 => .operandWith_some (exact_operand budget) (greedy_operand budget)

theorem greedy_rung (budget level : Nat) :
    (rung budget level).Greedy budget (Connective.ladder.drop level) := by
  have hladder : Connective.ladder.Nodup := by decide
  exact .joined (exact_operand budget) (greedy_operand budget)
    (hladder.sublist (List.drop_sublist ..))

theorem greedy_formula (budget : Nat) : (formula budget).Greedy budget Connective.ladder :=
  greedy_rung budget 0

end Rule

/-! ### What is left -/

/-- The tokens that are left. -/
def Reading.rest : Reading → List Token
  | read _ _ rest => rest
  | stuck _ _ rest => rest

namespace Rule

/-- What the rule leaves is the end of what it was given. -/
def Forward (rule : Rule) : Prop := ∀ ts, (rule.run ts).rest <:+ ts

variable {rule : Rule} {ts rest : List Token} {f : Formula} {d : Nat}

theorem Forward.of_read (h : rule.Forward) (hrun : rule.run ts = .read f d rest) : rest <:+ ts := by
  have := h ts
  rwa [hrun] at this

theorem run_nil (budget : Nat) : ∀ cs : List Connective,
    ((operand budget).joined cs).run [] = .stuck .incomplete 0 []
  | [] => by cases budget <;> rfl
  | c :: cs => by
    change (((operand budget).joined cs).chain c).run [] = _
    simp only [chain, run_nil budget cs]

theorem forward_rung (budget level : Nat) : (rung budget level).Forward := by
  intro ts
  cases h : (rung budget level).run ts with
  | read f d rest =>
    obtain ⟨us, hts, -⟩ := (exact_rung budget level).sound h
    exact ⟨us, hts.symm⟩
  | stuck cause opened rest =>
    obtain ⟨us, hts, -⟩ := (greedy_rung budget level).stalls h
    exact ⟨us, hts.symm⟩

end Rule

end Sentential
