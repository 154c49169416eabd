import Mathlib.Algebra.GroupWithZero.Nat
import Sentential.Proofs.Reading.Descent
import Sentential.Proofs.Reading.Session

/-!
# Reading on

A reader that has come to some place does there what a reader does that begins with the tokens that
are left (`Reader.fresh`). What the calls before have used up is the nesting only: as many signs as
are still open are missing from the limit of the fresh reader, while a formula may be as deep as
ever. `Reader.next_resume` says so of one call, `Reader.after_resume` of a session, and
`Descent.formula_resume` of the descent step by step.

Which formula comes next is said by the grammar (`Reader.next_eq_ok_iff`): the tokens of a formula
that fits what is left of the limit, up to a token that cannot continue it. One token is enough to
see that, and a formula that was read leaves no sign open, so formulas that stand one after the
other are read one by one, each with the whole limit (`Reader.after_reads`).
-/

namespace Sentential

namespace Reader

/-! ### The reader that begins with what is left -/

/-- The reader that begins with the tokens that are left. It may open as many signs as `r` still
may. -/
def fresh (r : Reader) : Reader := { tokens := r.rest, limit := r.limit - r.nesting }

/-- Where `r` has come, if the fresh reader has come to `q`. -/
def resumed (r q : Reader) : Reader :=
  { r with position := r.position + q.position, nesting := r.nesting + q.nesting }

/-- The cause in the words of `r`, which knows whether there were tokens before. -/
def reword (r : Reader) (cause : ParseError) : ParseError :=
  if cause = .noTokens ∧ r.tokens ≠ [] then .incomplete else cause

section fresh

variable {r : Reader}

theorem rest_eq_nil_of_tokens (h : r.tokens = []) : r.rest = [] := by
  unfold rest
  rw [h, List.drop_nil]

theorem reword_of_ne {cause : ParseError} (h : cause ≠ .noTokens) : r.reword cause = cause :=
  if_neg fun h' => h h'.1

theorem next_at_end (htokens : r.tokens ≠ []) (hrest : r.rest = []) :
    r.next = (.error .incomplete, r) := by
  have hrun : (Rule.formula (r.limit - r.nesting)).run r.rest = .stuck .incomplete 0 r.rest := by
    rw [hrest]
    exact Rule.run_nil _ _
  rw [next_of_stuck r htokens hrun, advance_rest]
  rfl

theorem next_of_no_tokens (htokens : r.tokens = []) : r.next = (.error .noTokens, r) :=
  if_pos htokens

theorem eq_nil_of_next_noTokens (h : r.next.1 = .error .noTokens) : r.tokens = [] := by
  have hnext : r.next = (.error .noTokens, r.next.2) := Prod.ext h rfl
  rcases next_error hnext with ⟨htokens, -, -⟩ | ⟨-, us, opened, rest, -, hstalls, -⟩
  · exact htokens
  · exact absurd rfl hstalls.cause_ne_noTokens

theorem fresh_next_at_end (hrest : r.rest = []) : r.fresh.next = (.error .noTokens, r.fresh) :=
  next_of_no_tokens hrest

theorem resumed_advance (r : Reader) (rest : List Token) (n : Nat) :
    r.resumed { r.fresh.advance rest with nesting := n } =
      { r.advance rest with nesting := r.nesting + n } := by
  have hpos : r.position + (0 + (r.rest.length - rest.length)) =
      r.position + (r.rest.length - rest.length) := by omega
  exact congrArg (fun p => { r with position := p, nesting := r.nesting + n }) hpos

/-- **A reader goes on as a fresh one begins.** It gives the same answer, but for the words where
nothing is left, and moves and opens as much. -/
theorem next_resume (r : Reader) :
    r.next = (r.fresh.next.1.mapError r.reword, r.resumed r.fresh.next.2) := by
  have hback : r.resumed r.fresh = r := rfl
  by_cases hrest : r.rest = []
  · rw [fresh_next_at_end hrest, hback]
    by_cases htokens : r.tokens = []
    · have hword : r.reword .noTokens = .noTokens := if_neg fun h => h.2 htokens
      rw [next_of_no_tokens htokens]
      exact congrArg (fun cause => (Except.error cause, r)) hword.symm
    · have hword : r.reword .noTokens = .incomplete := if_pos ⟨rfl, htokens⟩
      rw [next_at_end htokens hrest]
      exact congrArg (fun cause => (Except.error cause, r)) hword.symm
  · have htokens : r.tokens ≠ [] := fun h => hrest (rest_eq_nil_of_tokens h)
    have hfresh : r.fresh.tokens ≠ [] := hrest
    -- the rule of the fresh reader is that of `r`, and so are the tokens it is given
    cases hrun : (Rule.formula (r.limit - r.nesting)).run r.rest with
    | read f d rest =>
      have hmove := r.resumed_advance rest 0
      rw [next_of_read r htokens hrun, next_of_read r.fresh hfresh hrun]
      exact Prod.ext rfl hmove.symm
    | stuck cause opened rest =>
      obtain ⟨us, -, hstalls⟩ := (Rule.greedy_formula _).stalls hrun
      have hword : r.reword cause = cause := reword_of_ne hstalls.cause_ne_noTokens
      have hmove := r.resumed_advance rest (0 + opened)
      rw [Nat.zero_add] at hmove
      rw [next_of_stuck r htokens hrun, next_of_stuck r.fresh hfresh hrun]
      refine Prod.ext ?_ ?_
      · show Except.error cause = Except.error (r.reword cause)
        rw [hword]
      · show _ = r.resumed { r.fresh.advance rest with nesting := 0 + opened }
        rw [Nat.zero_add, hmove]

/-! ### A session that goes on -/

variable {q : Reader}

theorem fresh_resumed (htokens : q.tokens = r.rest) (hlimit : q.limit = r.limit - r.nesting) :
    (r.resumed q).fresh = q.fresh := by
  have hrest : (r.resumed q).rest = q.rest := by
    unfold rest at htokens ⊢
    rw [htokens, List.drop_drop]
    rfl
  have hleft : (r.resumed q).limit - (r.resumed q).nesting = q.limit - q.nesting := by
    show r.limit - (r.nesting + q.nesting) = _
    omega
  unfold fresh
  rw [hrest, hleft]

theorem call_resumed (htokens : q.tokens = r.rest) (hlimit : q.limit = r.limit - r.nesting)
    (c : Call) : ((r.resumed q).call c).2 = r.resumed (q.call c).2 := by
  cases c with
  | finish => rfl
  | next =>
    show (r.resumed q).next.2 = r.resumed q.next.2
    have hposition : ∀ n, r.position + q.position + n = r.position + (q.position + n) := by omega
    have hnesting : ∀ n, r.nesting + q.nesting + n = r.nesting + (q.nesting + n) := by omega
    rw [(r.resumed q).next_resume, q.next_resume, fresh_resumed htokens hlimit]
    unfold resumed
    dsimp only
    rw [hposition, hnesting]

theorem after_resume (r : Reader) (calls : List Call) :
    r.after calls = r.resumed (r.fresh.after calls) := by
  -- at each point of the session, the fresh reader has the tokens and the limit that it began with
  have hrun : ∀ q : Reader, q.tokens = r.rest → q.limit = r.limit - r.nesting →
      (r.resumed q).after calls = r.resumed (q.after calls) := by
    induction calls with
    | nil => exact fun _ _ _ => rfl
    | cons c calls ih =>
      intro q htokens hlimit
      have htokens' : (q.call c).2.tokens = r.rest := (q.moves_of_call c).1.trans htokens
      have hlimit' : (q.call c).2.limit = r.limit - r.nesting := by
        cases c with
        | finish => exact hlimit
        | next =>
          show q.next.2.limit = _
          rw [q.next_resume]
          exact hlimit
      have hlater := ih _ htokens' hlimit'
      rw [after, List.foldl_cons, call_resumed htokens hlimit c]
      exact hlater
  exact hrun r.fresh rfl rfl

end fresh

end Reader

/-- What becomes of `r` in the descent, if this becomes of the fresh reader. -/
def Descent.resumed (r : Reader) :
    EStateM.Result (Halt ParseError) Reader Formula →
      EStateM.Result (Halt ParseError) Reader Formula
  | .ok f q => .ok f (r.resumed q)
  | .error x q => .error (x.map r.reword) (r.resumed q)

/-- **The descent goes on as a fresh one begins.** Its counter of open signs is the only thing that
an earlier call can have changed for it. -/
theorem Descent.formula_resume (r : Reader) :
    Descent.formula r = Descent.resumed r (Descent.formula r.fresh) := by
  rw [formula_eq, formula_eq, r.next_resume]
  rcases r.fresh.next with ⟨answer, q⟩
  cases answer <;> rfl

namespace Reader

/-- Whatever its own limit is, a reader names the one that formulas have. -/
theorem max_of_next {r : Reader} {n : Nat} (h : r.next.1 = .error (.tooDeep n)) : n = maxDepth := by
  have hnext : r.next = (.error (.tooDeep n), r.next.2) := Prod.ext h rfl
  rcases next_error hnext with ⟨-, hcause, -⟩ | ⟨-, us, opened, rest, -, hstalls, -⟩
  · cases hcause
  · exact hstalls.max_eq rfl

/-- **What an earlier call can change** is how many signs may be opened. From whatever place, and
however many signs are still open, a reader answers, moves and opens signs as one that begins with
the tokens that are left and may open as many signs as are still allowed, if any. Formulas may be as
deep to it as ever. Only where nothing is left their words differ, and both name the same limit. The
same holds of the descent, step by step. -/
theorem next_eq_fresh (ts : List Token) (p k : Nat) :
    let r : Reader := { tokens := ts, position := p, nesting := k }
    let q : Reader := { tokens := ts.drop p, limit := maxDepth - k }
    r.next.1 = (if ts.drop p = [] ∧ ts ≠ [] then .error .incomplete else q.next.1) ∧
      (ts.drop p = [] → q.next.1 = .error .noTokens) ∧
      r.next.2 = { r with position := p + q.next.2.position, nesting := k + q.next.2.nesting } ∧
      (∀ n, r.next.1 = .error (.tooDeep n) ∨ q.next.1 = .error (.tooDeep n) → n = maxDepth) ∧
      Descent.formula r = Descent.resumed r (Descent.formula q) := by
  intro r q
  have hnext : r.next = (q.next.1.mapError r.reword, r.resumed q.next.2) := r.next_resume
  have hend : ts.drop p = [] → q.next.1 = .error .noTokens := fun hrest => by
    have hq : q.next = (.error .noTokens, q) := next_of_no_tokens hrest
    rw [hq]
  refine ⟨?_, hend, congrArg Prod.snd hnext, ?_, Descent.formula_resume r⟩
  · split
    · next h =>
      exact congrArg Prod.fst (next_at_end (r := r) h.2 h.1)
    · next h =>
      -- the fresh reader reports an empty list only if it is one, and then so is that of `r`
      rw [hnext]
      cases hanswer : q.next.1 with
      | ok f => rfl
      | error cause =>
        refine congrArg Except.error (if_neg fun hword => h ⟨?_, hword.2⟩)
        exact eq_nil_of_next_noTokens (hanswer.trans (congrArg Except.error hword.1))
  · rintro n (h | h)
    · exact max_of_next h
    · exact max_of_next h

/-- Where all signs are open that may be, one more is too many, and where `(A` ends, it is the first
reader that says that the formula is incomplete. -/
theorem next_eq_fresh_used_up :
    let ts : List Token := [.rparen, .not, .var ⟨'A', rfl⟩]
    let r : Reader := { tokens := ts, position := 1, nesting := 256 }
    let s : Reader := { tokens := [.lparen, .var ⟨'A', rfl⟩], position := 2, nesting := 1 }
    r.next = (.error (.tooDeep 256), { r with position := 2, nesting := 257 }) ∧
      (∀ n, r.next.1 = .error (.tooDeep n) → n = 256) ∧
      s.next = (.error .incomplete, s) ∧
      ({ tokens := [], limit := 255 } : Reader).next.1 = .error .noTokens := by
  intro ts r s
  let q : Reader := { tokens := [.not, .var ⟨'A', rfl⟩], limit := 0 }
  have hrun : (Rule.formula 0).run q.rest = .stuck (.tooDeep 256) 1 [.var ⟨'A', rfl⟩] := by
    decide +kernel
  have hq : q.next = (.error (.tooDeep 256), { q with position := 1, nesting := 1 }) :=
    next_of_stuck q (List.cons_ne_nil _ _) hrun
  obtain ⟨hanswer, -, hmove, hmax, -⟩ := next_eq_fresh ts 1 256
  obtain ⟨hanswer', hend, hmove', -, -⟩ := next_eq_fresh s.tokens 2 1
  have hr : r.next.2 =
      { r with position := 1 + q.next.2.position, nesting := 256 + q.next.2.nesting } := hmove
  rw [hq] at hr
  refine ⟨Prod.ext ?_ hr, fun n h => hmax n (.inl h), Prod.ext hanswer' hmove', hend rfl⟩
  have hr' : r.next.1 = q.next.1 := hanswer
  rw [hr', hq]

/-! ### Formulas one after the other -/

section reads

variable {r : Reader} {us rest : List Token} {f : Formula}

theorem next_of_fits (hrest : r.rest = us ++ rest)
    (hf : Fits (r.limit - r.nesting) Connective.ladder us f)
    (hstops : Stops Connective.ladder rest) : r.next = (.ok f, r.advance rest) := by
  have hrun := (Rule.exact_formula _).complete hf hstops
  have htokens : r.tokens ≠ [] := by
    intro h
    rw [rest_eq_nil_of_tokens h] at hrest
    exact hf.derives.ne_nil (List.append_eq_nil_iff.mp hrest.symm).1
  rw [← hrest] at hrun
  exact next_of_read r htokens hrun

theorem next_eq_ok_iff {r' : Reader} :
    r.next = (.ok f, r') ↔ ∃ us rest, r.rest = us ++ rest ∧
      Fits (r.limit - r.nesting) Connective.ladder us f ∧ Stops Connective.ladder rest ∧
        r' = r.advance rest := by
  constructor
  · exact next_ok
  · rintro ⟨us, rest, hrest, hf, hstops, rfl⟩
    exact next_of_fits hrest hf hstops

end reads

end Reader

theorem Derives.stops {cs : List Connective} {us : List Token} {f : Formula} (h : Derives cs us f)
    (ds : List Connective) : ∀ rest, Stops ds (us ++ rest) := by
  induction h with
  | var | not | parens => exact fun rest c hc h => nomatch h
  | operand _ ih => exact ih
  | @link c cs us vs _ _ _ _ ih _ =>
    intro rest
    rw [List.append_assoc]
    exact ih (.op c :: vs ++ rest)

namespace Reader

section pieces

variable {r : Reader} {rest : List Token} {pieces : List (List Token × Formula)}

theorem stops_pieces {budget : Nat} (hfits : ∀ x ∈ pieces, Fits budget Connective.ladder x.1 x.2)
    (hstops : Stops Connective.ladder rest) :
    Stops Connective.ladder (pieces.flatMap Prod.fst ++ rest) := by
  cases pieces with
  | nil => exact hstops
  | cons x pieces =>
    have hx := (hfits x (List.mem_cons_self ..)).derives
    rw [List.flatMap_cons, List.append_assoc]
    exact hx.stops _ _

/-- **As many calls as there are formulas** consume just these. Each call leaves the nesting as it
was, so that the next formula has to fit no less than the one before. -/
theorem after_reads (hrest : r.rest = pieces.flatMap Prod.fst ++ rest)
    (hfits : ∀ x ∈ pieces, Fits (r.limit - r.nesting) Connective.ladder x.1 x.2)
    (hstops : Stops Connective.ladder rest) :
    r.after (.replicate pieces.length .next) = r.advance rest := by
  induction pieces generalizing r with
  | nil =>
    have hrest : r.rest = rest := hrest
    rw [← hrest, advance_rest]
    rfl
  | cons x pieces ih =>
    obtain ⟨hx, hpieces⟩ := List.forall_mem_cons.mp hfits
    rw [List.flatMap_cons, List.append_assoc] at hrest
    have hfirst := next_of_fits hrest hx (stops_pieces hpieces hstops)
    have hsuffix : pieces.flatMap Prod.fst ++ rest <:+ r.rest := ⟨x.1, hrest.symm⟩
    have hlater := ih (r.rest_advance hsuffix) hpieces
    rw [advance_advance hsuffix (List.suffix_append ..)] at hlater
    have hcall : (r.call .next).2 = r.advance (pieces.flatMap Prod.fst ++ rest) :=
      congrArg Prod.snd hfirst
    rw [List.length_cons, List.replicate_succ, after, List.foldl_cons, hcall]
    exact hlater

section concatenated

variable (hfits : ∀ x ∈ pieces, Fits maxDepth Connective.ladder x.1 x.2)

include hfits

theorem stops_drop (j : Nat) : Stops Connective.ladder ((pieces.drop j).flatMap Prod.fst) := by
  have hothers : ∀ x ∈ pieces.drop j, Fits maxDepth Connective.ladder x.1 x.2 :=
    fun x hx => hfits x (List.mem_of_mem_drop hx)
  have hstops := stops_pieces hothers (Stops.nil_right _)
  rwa [List.append_nil] at hstops

theorem after_first {j : Nat} (hj : j ≤ pieces.length) :
    let r : Reader := { tokens := pieces.flatMap Prod.fst }
    r.after (.replicate j .next) =
        { r with position := ((pieces.take j).map (·.1.length)).sum } ∧
      (r.after (.replicate j .next)).rest = (pieces.drop j).flatMap Prod.fst := by
  intro r
  have hsplit : r.rest = (pieces.take j).flatMap Prod.fst ++ (pieces.drop j).flatMap Prod.fst := by
    rw [← List.flatMap_append, List.take_append_drop]
    rfl
  have hfirst : ∀ x ∈ pieces.take j, Fits (r.limit - r.nesting) Connective.ladder x.1 x.2 :=
    fun x hx => hfits x (List.mem_of_mem_take hx)
  have hafter := after_reads hsplit hfirst (stops_drop hfits j)
  rw [List.length_take_of_le hj] at hafter
  have hposition := position_advance hsplit
  rw [Nat.zero_add, List.length_flatMap] at hposition
  rw [hafter, r.rest_advance ⟨_, hsplit.symm⟩]
  exact ⟨congrArg (fun p => { r with position := p }) hposition, rfl⟩

theorem next_after_first {j : Nat} (hj : j < pieces.length) :
    let r : Reader := { tokens := pieces.flatMap Prod.fst }
    (r.after (.replicate j .next)).next.1 = .ok pieces[j].2 := by
  intro r
  obtain ⟨hafter, hrest⟩ := after_first hfits (Nat.le_of_lt hj)
  have hmem : pieces[j] ∈ pieces := List.getElem_mem hj
  rw [List.drop_eq_getElem_cons hj, List.flatMap_cons] at hrest
  rw [hafter] at hrest ⊢
  rw [next_of_fits hrest (hfits _ hmem) (stops_drop hfits (j + 1))]

end concatenated

/-- **Formulas that stand one after the other are read one by one.** Where each list of tokens
parses, one reader over all of them answers the calls with just these formulas and stands after each
call at the end of its list, with nothing open; after the last call it has finished, and another
call finds the formula incomplete. A single list is read to its end whatever follows it, as long as
that does not begin with a connective. -/
theorem reads_one_by_one :
    (∀ pieces : List (List Token × Formula), (∀ x ∈ pieces, parse x.1 = .ok x.2) →
      let r : Reader := { tokens := pieces.flatMap Prod.fst }
      (∀ j (hj : j < pieces.length),
        (r.after (.replicate j .next)).next.1 = .ok pieces[j].2) ∧
      (∀ j ≤ pieces.length, r.after (.replicate j .next) =
        { r with position := ((pieces.take j).map (·.1.length)).sum }) ∧
      (r.after (.replicate pieces.length .next)).finish = .ok () ∧
      (pieces ≠ [] →
        (r.after (.replicate pieces.length .next)).next.1 = .error .incomplete)) ∧
    ∀ ts f rest, parse ts = .ok f → (∀ c, rest.head? ≠ some (.op c)) →
      ({ tokens := ts ++ rest } : Reader).next =
        (.ok f, { tokens := ts ++ rest, position := ts.length }) := by
  constructor
  · intro pieces hparse r
    have hfits : ∀ x ∈ pieces, Fits maxDepth Connective.ladder x.1 x.2 :=
      fun x hx => parse_eq_ok_iff_fits.mp (hparse x hx)
    have hend : (r.after (.replicate pieces.length .next)).rest = [] := by
      have hrest := (after_first hfits (Nat.le_refl _)).2
      rwa [List.drop_length] at hrest
    refine ⟨fun j => next_after_first hfits, fun j hj => (after_first hfits hj).1, ?_, ?_⟩
    · rw [finish, hend]
    · intro hne
      obtain ⟨x, hx⟩ := List.exists_mem_of_ne_nil pieces hne
      have htokens : r.tokens ≠ [] := fun h =>
        (hfits x hx).derives.ne_nil (List.flatMap_eq_nil_iff.mp h x hx)
      rw [← r.tokens_after (.replicate pieces.length .next)] at htokens
      rw [next_at_end htokens hend]
  · intro ts f rest hparse hrest
    let r : Reader := { tokens := ts ++ rest }
    have hsplit : r.rest = ts ++ rest := rfl
    have hposition : (r.advance rest).position = ts.length := by
      rw [position_advance hsplit, Nat.zero_add]
    have hnext := next_of_fits hsplit (parse_eq_ok_iff_fits.mp hparse) fun c _ => hrest c
    exact hnext.trans (congrArg (fun p => (Except.ok f, { r with position := p })) hposition)

/-- `A ∧ B` and `∼C` without anything between them. -/
theorem reads_one_by_one_conjunction :
    let first : List Token := [.var ⟨'A', rfl⟩, .op .and, .var ⟨'B', rfl⟩]
    let second : List Token := [.not, .var ⟨'C', rfl⟩]
    let r : Reader := { tokens := first ++ second }
    parse first = .ok (.binary .and (.var ⟨'A', rfl⟩) (.var ⟨'B', rfl⟩)) ∧
      parse second = .ok (.not (.var ⟨'C', rfl⟩)) ∧ second.head? = some .not ∧
      r.next.2.position = 3 ∧
      (r.after [.next]).next.1 = .ok (.not (.var ⟨'C', rfl⟩)) ∧
      (r.after [.next, .next]).finish = .ok () ∧
      (r.after [.next, .next]).next.1 = .error .incomplete := by
  intro first second r
  have h₁ : parse first = .ok (.binary .and (.var ⟨'A', rfl⟩) (.var ⟨'B', rfl⟩)) :=
    parse_eq_ok_iff_run.mpr ⟨1, by decide +kernel⟩
  have h₂ : parse second = .ok (.not (.var ⟨'C', rfl⟩)) :=
    parse_eq_ok_iff_run.mpr ⟨1, by decide +kernel⟩
  have hparse : ∀ x ∈ [(first, Formula.binary .and (.var ⟨'A', rfl⟩) (.var ⟨'B', rfl⟩)),
      (second, .not (.var ⟨'C', rfl⟩))], parse x.1 = .ok x.2 := by
    simp only [List.forall_mem_cons, List.not_mem_nil, false_imp_iff, implies_true, and_true]
    exact ⟨h₁, h₂⟩
  obtain ⟨hanswers, -, hfinish, hmore⟩ := reads_one_by_one.1 _ hparse
  have hsingle := reads_one_by_one.2 first _ second h₁ fun c h => nomatch h
  refine ⟨h₁, h₂, rfl, ?_, hanswers 1 (by decide), hfinish, hmore (List.cons_ne_nil _ _)⟩
  rw [hsingle]
  rfl

end pieces

end Reader

end Sentential
