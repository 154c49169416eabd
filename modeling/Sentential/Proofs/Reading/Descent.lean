import Sentential.Proofs.Reading.Parse
import Sentential.Reading.Descent

/-!
# The descent reads what the rules read

`Descent.formula` moves a reader step by step, with a budget of calls, and does what `Reader.next`
does in one go (`Descent.formula_eq`). Each step has its equation. A computation performs a rule
(`Descent.Performs`) if it does what the rule says to every reader whose limit leaves the budget of
the rule, and the rungs and operands of the descent perform those of the rules: a chain by induction
on its links, the rungs from the last one up, the operands by induction on the budget. An operand
goes eight calls deeper only after it has opened a sign, and `callDepth` has eight calls for each
sign that can be open and eight more, so the budget of calls is never used up.
-/

namespace Sentential

namespace Reader

/-- One more sign is open. -/
def opened (r : Reader) : Reader := { r with nesting := r.nesting + 1 }

/-- The cause as a reader reports it, which knows whether there are tokens at all. -/
def report (r : Reader) (cause : ParseError) : ParseError :=
  if cause = .incomplete ∧ r.tokens = [] then .noTokens else cause

theorem report_incomplete (r : Reader) :
    r.report .incomplete = if r.tokens = [] then .noTokens else .incomplete := by
  simp only [report, true_and]

theorem report_of_ne {r : Reader} {cause : ParseError} (h : cause ≠ .incomplete) :
    r.report cause = cause := if_neg fun h' => h h'.1

end Reader

/-- What becomes of a reader where the rule reads this. -/
def Reading.outcome (r : Reader) : Reading → EStateM.Result (Halt ParseError) Reader (Formula × Nat)
  | read f d rest => .ok (f, d) (r.advance rest)
  | stuck cause opened rest =>
    .error (.refused (r.report cause)) { r.advance rest with nesting := r.nesting + opened }

theorem Reading.outcome_stuck_here (r : Reader) (cause : ParseError) :
    (stuck cause 0 r.rest).outcome r = .error (.refused (r.report cause)) r := by
  rw [outcome, r.advance_rest]
  rfl

theorem Reading.outcome_advance {r : Reader} {ts : List Token} {x : Reading} (hts : ts <:+ r.rest)
    (hx : x.rest <:+ ts) : x.outcome (r.advance ts) = x.outcome r := by
  cases x with
  | read f d rest => exact congrArg (EStateM.Result.ok (f, d)) (Reader.advance_advance hts hx)
  | stuck cause opened rest =>
    have h : (r.advance ts).advance rest = r.advance rest := Reader.advance_advance hts hx
    exact congrArg (fun q : Reader => EStateM.Result.error (Halt.refused (r.report cause))
      { q with nesting := r.nesting + opened }) h

namespace Descent

/-! ### Single steps -/

section steps

variable {α β : Type} {r r' : Reader} {t : Token} {ts : List Token}

theorem bind_of_ok {m : Descent α} {k : α → Descent β} {a : α} (h : m r = .ok a r') :
    (m >>= k) r = k a r' := by
  simp only [bind, EStateM.bind, h]

theorem bind_of_error {m : Descent α} {k : α → Descent β} {x : Halt ParseError}
    (h : m r = .error x r') : (m >>= k) r = .error x r' := by
  simp only [bind, EStateM.bind, h]

theorem peek_eq (r : Reader) : peek r = .ok r.rest.head? r := by
  rw [Reader.rest, List.head?_drop]
  rfl

theorem skip_eq (h : r.rest = t :: ts) : skip r = .ok () (r.advance ts) := by
  have hlength : r.rest.length - ts.length = 1 := by
    rw [h, List.length_cons, Nat.add_sub_cancel_left]
  unfold Reader.advance
  rw [hlength]
  rfl

theorem eat_of_cons (h : r.rest = t :: ts) : eat t r = .ok true (r.advance ts) := by
  unfold eat
  rw [bind_of_ok (peek_eq r), h, List.head?_cons, if_pos rfl, bind_of_ok (skip_eq h)]
  rfl

theorem eat_of_ne (h : r.rest.head? ≠ some t) : eat t r = .ok false r := by
  unfold eat
  rw [bind_of_ok (peek_eq r), if_neg h]
  rfl

theorem enter_of_lt (h : r.nesting < r.limit) : enter r = .ok () r.opened := by
  have h' : ¬ r.limit < r.nesting + 1 := Nat.not_lt.mpr h
  change (if r.limit < r.nesting + 1 then refuse (.tooDeep maxDepth) else pure ())
    { r with nesting := r.nesting + 1 } = _
  rw [if_neg h']
  rfl

theorem enter_of_le (h : r.limit ≤ r.nesting) :
    enter r = .error (.refused (.tooDeep maxDepth)) r.opened := by
  have h' : r.limit < r.nesting + 1 := Nat.lt_succ_of_le h
  change (if r.limit < r.nesting + 1 then refuse (.tooDeep maxDepth) else pure ())
    { r with nesting := r.nesting + 1 } = _
  rw [if_pos h']
  rfl

theorem leave_eq (r : Reader) : leave r.opened = .ok () r := rfl

theorem bound_of_le {d : Nat} (h : d ≤ maxDepth) : bound d r = .ok d r := by
  unfold bound
  rw [if_neg (Nat.not_lt.mpr h)]
  rfl

theorem bound_of_lt {d : Nat} (h : ¬ d ≤ maxDepth) :
    bound d r = .error (.refused (.tooDeep maxDepth)) r := by
  unfold bound
  rw [if_pos (Nat.not_le.mp h)]
  rfl

theorem close_of_cons (h : r.rest = .rparen :: ts) : close r = .ok () (r.advance ts) := by
  unfold close
  rw [bind_of_ok (peek_eq r), h]
  exact skip_eq h

theorem close_of_ne (h : r.rest = t :: ts) (ht : t ≠ .rparen) :
    close r = .error (.refused (.expected .rparen t)) r := by
  unfold close
  rw [bind_of_ok (peek_eq r), h]
  cases t with
  | rparen => exact absurd rfl ht
  | var | not | op | lparen => rfl

theorem close_of_nil (h : r.rest = []) : close r = .error (.refused .unclosed) r := by
  unfold close
  rw [bind_of_ok (peek_eq r), h]
  rfl

end steps

/-! ### Chains -/

/-- Where the budget is what the limit still allows, the descent does what the rule says. -/
def Performs (m : Descent (Formula × Nat)) (budget : Nat) (rule : Rule) : Prop :=
  ∀ r : Reader, r.limit - r.nesting = budget → m r = (rule.run r.rest).outcome r

section chains

variable {operand : Descent (Formula × Nat)} {rule : Rule} {budget d turns : Nat} {c : Connective}
  {f : Formula} {r : Reader} {ts : List Token}

theorem links_of_op (h : r.rest = .op c :: ts) :
    links operand c (turns + 1) f d r =
      (operand >>= fun x => bound (1 + max d x.2) >>= fun d =>
        links operand c turns (.binary c f x.1) d) (r.advance ts) := by
  rw [links, bind_of_ok (eat_of_cons h), if_pos rfl]

theorem links_of_ne (h : r.rest.head? ≠ some (.op c)) :
    links operand c (turns + 1) f d r = .ok (f, d) r := by
  rw [links, bind_of_ok (eat_of_ne h), if_neg Bool.false_ne_true]
  rfl

theorem Performs.advance (hop : Performs operand budget rule) (hrule : rule.Forward)
    (hts : ts <:+ r.rest) (hbudget : r.limit - r.nesting = budget) :
    operand (r.advance ts) = (rule.run ts).outcome r := by
  have h := hop (r.advance ts) hbudget
  rw [r.rest_advance hts, Reading.outcome_advance hts (hrule ts)] at h
  exact h

/-- **The loop reads the links of a chain**, if it has a turn for each token and one more. -/
theorem links_eq (hop : Performs operand budget rule) (hrule : rule.Forward) (hts : ts <:+ r.rest)
    (hbudget : r.limit - r.nesting = budget) (hturns : ts.length ≤ turns) :
    links operand c (turns + 1) f d (r.advance ts) = (Rule.links rule c f d ts).outcome r := by
  have hrest := r.rest_advance hts
  fun_induction Rule.links rule c f d ts generalizing turns with
  | case1 f d ts g e rest hrun hd ih =>
    have hts' : ts <:+ r.rest := (List.suffix_cons _ ts).trans hts
    have hsuffix : rest <:+ ts := hrule.of_read hrun
    have hsuffix' : rest <:+ r.rest := hsuffix.trans hts'
    have hlength := hsuffix.length_le
    have hoperand := hop.advance hrule hts' hbudget
    rw [List.length_cons] at hturns
    obtain ⟨turns, rfl⟩ := Nat.exists_eq_add_of_le' (show 1 ≤ turns by omega)
    rw [hrun] at hoperand
    rw [Nat.add_comm] at hd
    rw [links_of_op hrest, Reader.advance_advance hts (List.suffix_cons ..), bind_of_ok hoperand,
      bind_of_ok (bound_of_le hd), Nat.add_comm 1 (max d e)]
    exact ih hsuffix' (by omega) (r.rest_advance hsuffix')
  | case2 f d ts g e rest hrun hd =>
    have hoperand := hop.advance hrule ((List.suffix_cons _ ts).trans hts) hbudget
    rw [hrun] at hoperand
    rw [Nat.add_comm] at hd
    rw [links_of_op hrest, Reader.advance_advance hts (List.suffix_cons ..), bind_of_ok hoperand,
      bind_of_error (bound_of_lt hd)]
    rfl
  | case3 f d ts cause opened rest hrun =>
    have hoperand := hop.advance hrule ((List.suffix_cons _ ts).trans hts) hbudget
    rw [hrun] at hoperand
    rw [links_of_op hrest, Reader.advance_advance hts (List.suffix_cons ..), bind_of_error hoperand]
    rfl
  | case4 f d c' ts hc =>
    refine links_of_ne ?_
    rw [hrest]
    exact fun h => hc (Token.op.inj (Option.some.inj h))
  | case5 f d ts hne =>
    refine links_of_ne ?_
    rw [hrest]
    intro h
    obtain ⟨us, rfl⟩ := List.head?_eq_some_iff.mp h
    exact hne c us rfl

end chains

/-! ### Rungs -/

section rungs

variable {budget calls l : Nat} {rule : Rule} {c : Connective}

theorem performs_chain (hc : Connective.ladder[l]? = some c)
    (hop : Performs (level calls (l + 1)) budget rule) (hrule : rule.Forward) :
    Performs (level (calls + 1) l) budget (rule.chain c) := by
  intro r hbudget
  have hfirst := hop r hbudget
  rw [level, hc]
  dsimp only
  cases hrun : rule.run r.rest with
  | read f d rest =>
    have hsuffix : rest <:+ r.rest := hrule.of_read hrun
    have hturns : rest.length ≤ r.tokens.length := by
      have h₁ := hsuffix.length_le
      have h₂ := r.length_rest
      omega
    rw [hrun] at hfirst
    rw [bind_of_ok hfirst]
    simp only [Rule.chain, hrun]
    exact links_eq hop hrule hsuffix hbudget hturns
  | stuck cause opened rest =>
    rw [hrun] at hfirst
    rw [bind_of_error hfirst]
    simp only [Rule.chain, hrun]
    rfl

/-- **Every rung is read as its rule says** where operands are, with a call for each rung that is
still to come. -/
theorem performs_level
    (hop : ∀ calls, 8 * budget + 2 ≤ calls → Performs (unary calls) budget (Rule.operand budget)) :
    ∀ {calls l : Nat}, l ≤ 5 → 8 * budget + 8 ≤ calls + l →
      Performs (level calls l) budget (Rule.rung budget l) := by
  intro calls
  induction calls with
  | zero =>
    intro l hl hcalls
    omega
  | succ calls ih =>
    intro l hl hcalls
    cases hc : Connective.ladder[l]? with
    | none =>
      have hl' : 5 ≤ l := List.getElem?_eq_none_iff.mp hc
      obtain rfl : l = 5 := Nat.le_antisymm hl hl'
      intro r hbudget
      rw [level, hc]
      exact hop calls (by omega) r hbudget
    | some c =>
      obtain ⟨hl', hget⟩ := List.getElem?_eq_some_iff.mp hc
      change l < 5 at hl'
      have hrung : Rule.rung budget l = (Rule.rung budget (l + 1)).chain c := by
        unfold Rule.rung
        rw [List.drop_eq_getElem_cons hl', hget]
        rfl
      rw [hrung]
      exact performs_chain hc (ih (by omega) (by omega)) (Rule.forward_rung _ _)

end rungs

/-! ### Operands -/

section operands

variable {r : Reader} {ts : List Token} {t : Token} {calls budget : Nat}

theorem unary_of_ne (h : r.rest.head? ≠ some .not) : unary (calls + 1) r = primary calls r := by
  rw [unary, bind_of_ok (eat_of_ne h)]
  rfl

theorem unary_of_plain (inner : Option Rule) (hnot : r.rest.head? ≠ some .not)
    (hparen : r.rest.head? ≠ some .lparen) :
    unary (calls + 2) r = (Rule.operandWith inner r.rest).outcome r := by
  rw [unary_of_ne hnot, primary, bind_of_ok (peek_eq r)]
  have hstuck := Reading.outcome_stuck_here r
  cases hrest : r.rest with
  | nil =>
    rw [hrest] at hstuck
    rw [Rule.operandWith, hstuck, Reader.report_incomplete]
    rfl
  | cons t ts =>
    rw [hrest] at hnot hparen hstuck
    cases t with
    | not => exact absurd rfl hnot
    | lparen => exact absurd rfl hparen
    | var v => exact bind_of_ok (skip_eq hrest)
    | op c =>
      refine Eq.trans ?_ (hstuck (.unexpected (.op c))).symm
      rw [Reader.report_of_ne ParseError.noConfusion]
      rfl
    | rparen =>
      refine Eq.trans ?_ (hstuck (.unexpected .rparen)).symm
      rw [Reader.report_of_ne ParseError.noConfusion]
      rfl

/-- A sign that is one too many stays counted. -/
theorem unary_of_not_deep (h : r.rest = .not :: ts) (hlimit : r.limit ≤ r.nesting) :
    unary (calls + 1) r = (Reading.tooDeep 1 ts).outcome r := by
  have henter := enter_of_le (r := r.advance ts) hlimit
  rw [unary, bind_of_ok (eat_of_cons h), if_pos rfl, bind_of_error henter]
  rfl

theorem primary_of_lparen_deep (h : r.rest = .lparen :: ts) (hlimit : r.limit ≤ r.nesting) :
    primary (calls + 1) r = (Reading.tooDeep 1 ts).outcome r := by
  have henter := enter_of_le (r := r.advance ts) hlimit
  rw [primary, bind_of_ok (peek_eq r), h]
  dsimp only [List.head?_cons]
  rw [bind_of_ok (skip_eq h), bind_of_error henter]
  rfl

/-- What is stuck under a sign that is open leaves this one open, too. -/
theorem outcome_stuck_opened (r : Reader) (cause : ParseError) (n : Nat) (rest : List Token) :
    (Reading.stuck cause n rest).outcome r.opened =
      (Reading.stuck cause (n + 1) rest).outcome r := by
  have h : r.nesting + 1 + n = r.nesting + (n + 1) := by omega
  exact congrArg (fun m => EStateM.Result.error (Halt.refused (r.report cause))
    { r.advance rest with nesting := m }) h

theorem unary_of_not {x : Reading} (h : r.rest = .not :: ts) (hlimit : r.nesting < r.limit)
    (hx : unary calls (r.opened.advance ts) = x.outcome r.opened) :
    unary (calls + 1) r = x.negated.outcome r := by
  have henter := enter_of_lt (r := r.advance ts) hlimit
  rw [unary, bind_of_ok (eat_of_cons h), if_pos rfl, bind_of_ok henter]
  cases x with
  | stuck cause n rest =>
    rw [outcome_stuck_opened] at hx
    exact bind_of_error hx
  | read f d rest =>
    refine (bind_of_ok hx).trans ?_
    refine (bind_of_ok (leave_eq (r.advance rest))).trans ?_
    rw [Reading.negated, Reading.bounded]
    split
    · next hd => exact bind_of_ok (bound_of_le hd)
    · next hd => exact bind_of_error (bound_of_lt hd)

theorem primary_of_lparen {x : Reading} (h : r.rest = .lparen :: ts) (hlimit : r.nesting < r.limit)
    (hx : level calls 0 (r.opened.advance ts) = x.outcome r.opened) (hrest : x.rest <:+ ts) :
    primary (calls + 1) r = x.closed.outcome r := by
  have henter := enter_of_lt (r := r.advance ts) hlimit
  rw [primary, bind_of_ok (peek_eq r), h]
  dsimp only [List.head?_cons]
  rw [bind_of_ok (skip_eq h), bind_of_ok henter]
  cases x with
  | stuck cause n rest =>
    rw [outcome_stuck_opened] at hx
    exact bind_of_error hx
  | read f d rest =>
    have hsuffix : rest <:+ r.rest := hrest.trans (h ▸ List.suffix_cons ..)
    have hleft : (r.advance rest).opened.rest = rest := r.rest_advance hsuffix
    refine (bind_of_ok hx).trans ?_
    cases rest with
    | nil => exact bind_of_error (close_of_nil hleft)
    | cons t rest =>
      by_cases ht : t = .rparen
      · subst ht
        have hover := Reader.advance_advance hsuffix (List.suffix_cons .rparen rest)
        refine (bind_of_ok (close_of_cons hleft)).trans ?_
        refine (bind_of_ok (leave_eq ((r.advance (.rparen :: rest)).advance rest))).trans ?_
        rw [hover]
        rfl
      · rw [Reading.closed_of_ne ht]
        exact bind_of_error (close_of_ne hleft ht)

/-- **An operand is read as its rule says**, with eight calls for each sign that may still be opened
and two more. The induction is on the signs that may be opened, and `performs_level` takes it from
operands to the formula in a pair of parentheses. -/
theorem performs_operand (budget : Nat) : ∀ calls, 8 * budget + 2 ≤ calls →
    Performs (unary calls) budget (Rule.operand budget) := by
  induction budget with
  | zero =>
    intro calls hcalls r hbudget
    obtain ⟨calls, rfl⟩ := Nat.exists_eq_add_of_le' hcalls
    have hlimit : r.limit ≤ r.nesting := Nat.le_of_sub_eq_zero hbudget
    by_cases hnot : r.rest.head? = some .not
    · obtain ⟨ts, hts⟩ := List.head?_eq_some_iff.mp hnot
      rw [hts]
      exact unary_of_not_deep hts hlimit
    by_cases hparen : r.rest.head? = some .lparen
    · obtain ⟨ts, hts⟩ := List.head?_eq_some_iff.mp hparen
      rw [unary_of_ne hnot, hts]
      exact primary_of_lparen_deep hts hlimit
    exact unary_of_plain none hnot hparen
  | succ budget ih =>
    intro calls hcalls r hbudget
    obtain ⟨calls, rfl⟩ := Nat.exists_eq_add_of_le' (show 2 ≤ calls by omega)
    have hlimit : r.nesting < r.limit := by omega
    have hinner : r.opened.limit - r.opened.nesting = budget := by
      change r.limit - (r.nesting + 1) = budget
      omega
    by_cases hnot : r.rest.head? = some .not
    · obtain ⟨ts, hts⟩ := List.head?_eq_some_iff.mp hnot
      have hsuffix : ts <:+ r.opened.rest := hts ▸ List.suffix_cons ..
      rw [hts]
      exact unary_of_not hts hlimit ((ih (calls + 1) (by omega)).advance (Rule.forward_rung budget 5)
        hsuffix hinner)
    by_cases hparen : r.rest.head? = some .lparen
    · obtain ⟨ts, hts⟩ := List.head?_eq_some_iff.mp hparen
      have hsuffix : ts <:+ r.opened.rest := hts ▸ List.suffix_cons ..
      have hforward := Rule.forward_rung budget 0
      have hlevel : Performs (level calls 0) budget (Rule.rung budget 0) :=
        performs_level ih (by omega) (by omega)
      rw [unary_of_ne hnot, hts]
      exact primary_of_lparen hts hlimit (hlevel.advance hforward hsuffix hinner) (hforward ts)
    exact unary_of_plain (some (Rule.operand budget)) hnot hparen

end operands

/-! ### The whole descent -/

theorem performs_formula {budget calls : Nat} (hcalls : 8 * (budget + 1) ≤ calls) :
    Performs (level calls 0) budget (Rule.formula budget) :=
  performs_level (performs_operand budget) (Nat.zero_le _) (by omega)

theorem level_callDepth_eq (r : Reader) :
    level (callDepth r.limit) 0 r =
      ((Rule.formula (r.limit - r.nesting)).run r.rest).outcome r := by
  refine performs_formula ?_ r rfl
  unfold callDepth
  omega

/-- The answer of a reader, as a computation ends with it. -/
def settled : Except ParseError Formula × Reader →
    EStateM.Result (Halt ParseError) Reader Formula
  | (.ok f, r) => .ok f r
  | (.error cause, r) => .error (.refused cause) r

/-- **The descent does what the reader does**, wherever it begins. -/
theorem formula_eq (r : Reader) : formula r = settled r.next := by
  have hlevel := level_callDepth_eq r
  have hget : formula r =
      (level (callDepth r.limit) 0 >>= fun x : Formula × Nat => pure x.1) r := rfl
  rw [hget]
  by_cases htokens : r.tokens = []
  · have hrest : r.rest = [] := by rw [Reader.rest, htokens, List.drop_nil]
    have hstuck := Reading.outcome_stuck_here r .incomplete
    rw [hrest, Reader.report_incomplete, if_pos htokens] at hstuck
    rw [hrest, Rule.formula, Rule.rung, Rule.run_nil, hstuck] at hlevel
    rw [bind_of_error hlevel, Reader.next, if_pos htokens]
    rfl
  · cases hrun : (Rule.formula (r.limit - r.nesting)).run r.rest with
    | read f d rest =>
      rw [hrun] at hlevel
      rw [bind_of_ok hlevel, Reader.next_of_read r htokens hrun]
      rfl
    | stuck cause opened rest =>
      have hreport : r.report cause = cause := if_neg fun h => htokens h.2
      rw [hrun, Reading.outcome, hreport] at hlevel
      rw [bind_of_error hlevel, Reader.next_of_stuck r htokens hrun]
      rfl

theorem parse_eq (ts : List Token) : parse ts = (Sentential.parse ts).mapError .refused := by
  unfold parse Sentential.parse
  rw [formula_eq]
  cases ({ tokens := ts } : Reader).next with
  | mk answer r => cases answer <;> rfl

end Descent

end Sentential
