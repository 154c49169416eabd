import Sentential.Proofs.Reading.Course

/-!
# Reading ends, and its calls nest only so deep

A descent with budgets does what the course without them does until its budgets are used up
(`Course.Approximates`). This is kept by each way to put computations together, so it holds of the
loop by induction on its turns and of the calls by induction on their budget. From `performs_level`
and `performs_operand` it is known that `callDepth` is enough for any tokens, so the course ends,
with the same result (`Course.level_eq`, `Course.unary_eq`, `Course.primary_eq`). The budget is not
larger than it has to be: if one more `(` follows than can be opened, then the innermost call uses
up all of it (`Descent.runsOut_level`).
-/

namespace Sentential

namespace Descent

/-- The budget of calls or turns does not suffice. -/
def RunsOut {α : Type} (m : Descent α) (r : Reader) : Prop :=
  ∃ r', m r = .error (.fault .exhausted) r'

theorem RunsOut.bind {α β : Type} {m : Descent α} {r : Reader} (h : RunsOut m r)
    (k : α → Descent β) : RunsOut (m >>= k) r := by
  obtain ⟨r', h⟩ := h
  exact ⟨r', bind_of_error h⟩

theorem not_runsOut_of_outcome {m : Descent (Formula × Nat)} {r : Reader} {x : Reading}
    (h : m r = x.outcome r) : ¬ RunsOut m r := by
  rintro ⟨r', h'⟩
  rw [h'] at h
  cases x <;> cases h

end Descent

namespace Course

open Descent (RunsOut)

/-! ### Budgets -/

/-- Where its budgets suffice, the descent ends as the course does. -/
def Approximates {α : Type} (m : Descent α) (n : Course α) : Prop :=
  ∀ r, RunsOut m r ∨ n r = .some (result (m r))

section approximates

variable {α β : Type} {m m' : Descent α} {n n' : Course α}

theorem approximates_lift (m : Descent α) : Approximates m (liftM m : Course α) :=
  fun _ => .inr rfl

theorem approximates_pure (a : α) : Approximates (pure a) (pure a) := fun _ => .inr rfl

theorem Approximates.bind {k : α → Descent β} {k' : α → Course β} (hm : Approximates m n)
    (hk : ∀ a, Approximates (k a) (k' a)) : Approximates (m >>= k) (n >>= k') := by
  intro r
  rcases hm r with h | h
  · exact .inl (h.bind k)
  cases hr : m r with
  | ok a r' =>
    rw [hr] at h
    unfold RunsOut
    rw [Descent.bind_of_ok hr, bind_of_ok h]
    exact hk a r'
  | error x r' =>
    rw [hr] at h
    refine .inr ?_
    rw [Descent.bind_of_error hr, bind_of_error h]
    rfl

theorem approximates_get {k : Reader → Descent β} {n : Course β}
    (hk : ∀ r, Approximates (k r) n) : Approximates (get >>= k) n :=
  fun r => hk r r

theorem Approximates.ite {b : Bool} (h : Approximates m n) (h' : Approximates m' n') :
    Approximates (if b = true then m else m') (if b = true then n else n') := by
  cases b
  · exact h'
  · exact h

end approximates

section calls

variable {calls : Nat}

/-- **The loop**, by induction on the turns that are left. -/
theorem approximates_links {l : Nat} {operand : Descent (Formula × Nat)} (c : Connective)
    (h : Approximates operand (run (.level (l + 1)))) : ∀ (turns : Nat) (f : Formula) (d : Nat),
      Approximates (Descent.links operand c turns f d) (run (.links l c f d))
  | 0, _, _ => fun r => .inl ⟨r, rfl⟩
  | turns + 1, f, d => by
    rw [Descent.links, run_eq, steps]
    refine (approximates_lift _).bind fun b => .ite ?_ (approximates_pure _)
    refine h.bind ?_
    rintro ⟨g, e⟩
    refine (approximates_lift _).bind fun d => ?_
    exact approximates_links c h turns _ d

theorem approximates_level (hlevel : ∀ l, Approximates (Descent.level calls l) (run (.level l)))
    (hunary : Approximates (Descent.unary calls) (run .unary)) (l : Nat) :
    Approximates (Descent.level (calls + 1) l) (run (.level l)) := by
  rw [Descent.level, run_eq, steps]
  cases Connective.ladder[l]? with
  | none => exact hunary
  | some c =>
    refine (hlevel (l + 1)).bind ?_
    rintro ⟨f, d⟩
    refine approximates_get fun r => ?_
    exact approximates_links c (hlevel (l + 1)) _ f d

theorem approximates_unary (hunary : Approximates (Descent.unary calls) (run .unary))
    (hprimary : Approximates (Descent.primary calls) (run .primary)) :
    Approximates (Descent.unary (calls + 1)) (run .unary) := by
  rw [Descent.unary, run_eq, steps]
  refine (approximates_lift _).bind fun b => .ite ?_ hprimary
  refine (approximates_lift _).bind fun _ => hunary.bind ?_
  rintro ⟨f, d⟩
  exact (approximates_lift _).bind fun _ => (approximates_lift _).bind fun _ => approximates_pure _

theorem approximates_primary (hlevel : ∀ l, Approximates (Descent.level calls l) (run (.level l))) :
    Approximates (Descent.primary (calls + 1)) (run .primary) := by
  rw [Descent.primary, run_eq, steps]
  refine (approximates_lift _).bind ?_
  rintro (_ | (v | _ | c | _ | _))
  case none => exact (approximates_lift _).bind fun _ => approximates_lift _
  case some.var => exact (approximates_lift _).bind fun _ => approximates_pure _
  case some.lparen =>
    refine (approximates_lift _).bind fun _ => (approximates_lift _).bind fun _ => ?_
    refine (hlevel 0).bind fun x => (approximates_lift _).bind fun _ => ?_
    exact (approximates_lift _).bind fun _ => approximates_pure _
  all_goals exact approximates_lift _

/-- **All calls**, by induction on how deep they may still nest. -/
theorem approximates_calls (calls : Nat) :
    (∀ l, Approximates (Descent.level calls l) (run (.level l))) ∧
      Approximates (Descent.unary calls) (run .unary) ∧
      Approximates (Descent.primary calls) (run .primary) := by
  induction calls with
  | zero => exact ⟨fun l r => .inl ⟨r, rfl⟩, fun r => .inl ⟨r, rfl⟩, fun r => .inl ⟨r, rfl⟩⟩
  | succ calls ih =>
    obtain ⟨hlevel, hunary, hprimary⟩ := ih
    exact ⟨approximates_level hlevel hunary, approximates_unary hunary hprimary,
      approximates_primary hlevel⟩

theorem approximates_formula : Approximates Descent.formula formula := by
  unfold Descent.formula formula
  refine approximates_get fun r => ?_
  refine ((approximates_calls _).1 0).bind ?_
  rintro ⟨f, d⟩
  exact approximates_pure f

end calls

end Course

/-! ### Enough calls -/

/-- What is read where no negation may stand. -/
def Rule.unsigned (budget : Nat) (ts : List Token) : Reading :=
  if ts.head? = some .not then .stuck (.unexpected .not) 0 ts else (operand budget).run ts

namespace Descent

section enough

variable {budget calls : Nat} {r : Reader}

theorem performs_rung (hcalls : 8 * (budget + 1) ≤ calls) (l : Nat) :
    Performs (level calls l) budget (Rule.rung budget l) := by
  by_cases hl : l ≤ 5
  · exact performs_level (performs_operand budget) hl (by omega)
  have habove : Connective.ladder.length ≤ l := Nat.le_of_lt (Nat.not_le.mp hl)
  have hrung : Rule.rung budget l = Rule.operand budget := by
    unfold Rule.rung
    rw [List.drop_eq_nil_of_le habove]
    rfl
  obtain ⟨calls, rfl⟩ := Nat.exists_eq_add_of_le' (show 1 ≤ calls by omega)
  intro r hbudget
  rw [level, List.getElem?_eq_none habove, hrung]
  exact performs_operand budget calls (by omega) r hbudget

theorem primary_of_not (h : r.rest.head? = some .not) :
    primary (calls + 1) r = (Reading.stuck (.unexpected .not) 0 r.rest).outcome r := by
  rw [Reading.outcome_stuck_here, Reader.report_of_ne ParseError.noConfusion, primary,
    bind_of_ok (peek_eq r), h]
  rfl

theorem primary_eq (hcalls : 8 * (budget + 1) ≤ calls) (hbudget : r.limit - r.nesting = budget) :
    primary calls r = (Rule.unsigned budget r.rest).outcome r := by
  unfold Rule.unsigned
  split
  · next h =>
    obtain ⟨calls, rfl⟩ := Nat.exists_eq_add_of_le' (show 1 ≤ calls by omega)
    exact primary_of_not h
  · next h =>
    rw [← unary_of_ne h]
    exact performs_operand budget (calls + 1) (by omega) r hbudget

end enough

/-! ### One call less -/

section less

variable {calls l : Nat} {r : Reader} {ts : List Token}

theorem runsOut_level_succ (hl : l < 5) (h : RunsOut (level calls (l + 1)) r) :
    RunsOut (level (calls + 1) l) r := by
  rw [level, List.getElem?_eq_getElem (show l < Connective.ladder.length from hl)]
  exact h.bind _

/-- Six calls for the rungs and one for an operand come before a parenthesis is opened. -/
theorem runsOut_level_of_primary (hrest : r.rest = .lparen :: ts) (h : RunsOut (primary calls) r) :
    RunsOut (level (calls + 7) 0) r := by
  have hne : r.rest.head? ≠ some .not := by
    rw [hrest]
    exact fun h => nomatch h
  have hunary : RunsOut (unary (calls + 1)) r := by
    unfold RunsOut
    rw [unary_of_ne hne]
    exact h
  have hrungs : ∀ k ≤ 5, RunsOut (level (calls + 2 + k) (5 - k)) r := by
    intro k
    induction k with
    | zero => exact fun _ => hunary
    | succ k ih =>
      intro hk
      refine runsOut_level_succ (l := 5 - (k + 1)) (by omega) ?_
      rw [show 5 - (k + 1) + 1 = 5 - k by omega]
      exact ih (by omega)
  exact hrungs 5 (Nat.le_refl 5)

theorem runsOut_primary (hrest : r.rest = .lparen :: ts) (hlimit : r.nesting < r.limit)
    (h : RunsOut (level calls 0) (r.opened.advance ts)) : RunsOut (primary (calls + 1)) r := by
  have henter := enter_of_lt (r := r.advance ts) hlimit
  unfold RunsOut
  rw [primary, bind_of_ok (peek_eq r), hrest]
  dsimp only [List.head?_cons]
  rw [bind_of_ok (skip_eq hrest), bind_of_ok henter]
  exact h.bind _

/-- **One call less is not enough** for one `(` more than may be opened, by induction on how many
may be opened. -/
theorem runsOut_level (ts : List Token) {budget : Nat} {r : Reader}
    (hrest : r.rest = .replicate (budget + 1) .lparen ++ ts)
    (hbudget : r.nesting + budget = r.limit) : RunsOut (level (8 * budget + 7) 0) r := by
  induction budget generalizing r with
  | zero => exact runsOut_level_of_primary hrest ⟨r, rfl⟩
  | succ budget ih =>
    have hsuffix : .replicate (budget + 1) .lparen ++ ts <:+ r.opened.rest :=
      hrest ▸ List.suffix_cons ..
    have hinner : r.opened.nesting + budget = r.opened.limit := by
      change r.nesting + 1 + budget = r.limit
      omega
    have h := runsOut_primary hrest (by omega) (ih (r.opened.rest_advance hsuffix) hinner)
    exact runsOut_level_of_primary hrest h

end less

end Descent

/-! ### The end of a course -/

namespace Course

/-- From `r` on, the course ends with a value or with a refusal of the tokens, and the descent,
whose calls and turns are counted, ends in just this way and place. -/
def EndsLike {α : Type} (n : Course α) (m : Descent α) (r : Reader) : Prop :=
  ∃ (answer : Except ParseError α) (r' : Reader),
    n r = .some (answer.mapError .refused, r') ∧ result (m r) = (answer.mapError .refused, r')

section ends

variable {m : Descent (Formula × Nat)} {n : Course (Formula × Nat)} {r : Reader} {x : Reading}

theorem Approximates.eq_outcome (h : Approximates m n) (hm : m r = x.outcome r) :
    n r = .some (result (x.outcome r)) := by
  rw [← hm]
  exact (h r).resolve_left (Descent.not_runsOut_of_outcome hm)

theorem Approximates.endsLike (h : Approximates m n) (hm : m r = x.outcome r) :
    EndsLike n m r := by
  have hn := h.eq_outcome hm
  unfold EndsLike
  rw [hm]
  cases x with
  | read f d rest => exact ⟨.ok (f, d), r.advance rest, hn, rfl⟩
  | stuck cause opened rest => exact ⟨.error (r.report cause), _, hn, rfl⟩

theorem level_eq (l : Nat) (r : Reader) :
    run (.level l) r =
      .some (result (((Rule.rung (r.limit - r.nesting) l).run r.rest).outcome r)) :=
  ((approximates_calls _).1 l).eq_outcome (Descent.performs_rung (Nat.le_refl _) l r rfl)

theorem unary_eq (r : Reader) :
    run .unary r = .some (result (((Rule.operand (r.limit - r.nesting)).run r.rest).outcome r)) :=
  (approximates_calls _).2.1.eq_outcome (Descent.performs_operand _ _ (Nat.le_refl _) r rfl)

theorem primary_eq (r : Reader) :
    run .primary r = .some (result ((Rule.unsigned (r.limit - r.nesting) r.rest).outcome r)) :=
  (approximates_calls _).2.2.eq_outcome (Descent.primary_eq (Nat.le_refl _) rfl)

theorem result_settled (x : Except ParseError Formula × Reader) :
    result (Descent.settled x) = (x.1.mapError .refused, x.2) := by
  rcases x with ⟨answer, r'⟩
  cases answer <;> rfl

theorem formula_eq (r : Reader) : formula r = .some (r.next.1.mapError .refused, r.next.2) := by
  rcases approximates_formula r with ⟨r', h⟩ | h
  · rw [Descent.formula_eq] at h
    rcases hnext : r.next with ⟨answer, q⟩
    rw [hnext] at h
    cases answer <;> cases h
  · rw [h, Descent.formula_eq, result_settled]

end ends

/-- **Reading ends, and its calls nest only so deep**, however long the list is. From any place and
with any number of signs open, a course ends with a value or a refusal, for a rung, for an operand
and for an operand without a sign; eight calls for each sign that can be open, and eight more, never
run out and lead to the same end; and a formula is what the reader answers. With a single call less
there are tokens for which the calls run out. -/
theorem ends_within_callDepth :
    (∀ (ts : List Token) (p k calls : Nat), 8 * (maxDepth + 1) ≤ calls →
      let r : Reader := { tokens := ts, position := p, nesting := k }
      (∀ l, EndsLike (run (.level l)) (Descent.level calls l) r) ∧
        EndsLike (run .unary) (Descent.unary calls) r ∧
        EndsLike (run .primary) (Descent.primary calls) r ∧
        formula r = .some (r.next.1.mapError .refused, r.next.2)) ∧
    ∃ ts : List Token,
      Descent.RunsOut (Descent.level (8 * (maxDepth + 1) - 1) 0) { tokens := ts } := by
  constructor
  · intro ts p k calls hcalls r
    have hbudget : r.limit - r.nesting ≤ maxDepth := Nat.sub_le ..
    have hcalls : 8 * (r.limit - r.nesting + 1) ≤ calls := by omega
    obtain ⟨hlevel, hunary, hprimary⟩ := approximates_calls calls
    refine ⟨fun l => ?_, ?_, ?_, formula_eq r⟩
    · exact (hlevel l).endsLike (Descent.performs_rung hcalls l r rfl)
    · exact hunary.endsLike (Descent.performs_operand _ calls (by omega) r rfl)
    · exact hprimary.endsLike (Descent.primary_eq hcalls rfl)
  · let r : Reader := { tokens := .replicate (maxDepth + 1) .lparen ++ [] }
    have hless : 8 * (maxDepth + 1) - 1 = 8 * maxDepth + 7 := rfl
    have hrest : r.rest = .replicate (maxDepth + 1) .lparen ++ [] := rfl
    refine ⟨r.tokens, ?_⟩
    rw [hless]
    exact Descent.runsOut_level [] hrest (Nat.zero_add maxDepth)

/-- Where 255 signs are left open, the second parenthesis is one too many. -/
theorem ends_within_callDepth_parens :
    let r : Reader := { tokens := [.lparen, .lparen, .var ⟨'A', rfl⟩], nesting := 255 }
    8 * (maxDepth + 1) ≤ 2056 ∧ EndsLike (run (.level 0)) (Descent.level 2056 0) r ∧
      formula r =
        .some (.error (.refused (.tooDeep 256)), { r with position := 2, nesting := 257 }) := by
  intro r
  have hcalls : 8 * (maxDepth + 1) ≤ 2056 := by decide
  obtain ⟨hlevel, -, -, hformula⟩ := ends_within_callDepth.1 r.tokens 0 255 2056 hcalls
  have hrun : (Rule.formula (r.limit - r.nesting)).run r.rest =
      .stuck (.tooDeep 256) 2 [.var ⟨'A', rfl⟩] := by decide +kernel
  have hnext := Reader.next_of_stuck r (List.cons_ne_nil _ _) hrun
  rw [hnext] at hformula
  exact ⟨hcalls, hlevel 0, hformula⟩

end Course

end Sentential
