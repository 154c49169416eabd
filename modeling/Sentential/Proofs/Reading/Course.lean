import Mathlib.Control.LawfulFix
import Sentential.Proofs.Reading.Descent

/-!
# The descent without budgets

The reading of a formula in the steps of the descent, and nothing is counted here but the signs that
are open: a call may lead to ever deeper calls, and a loop goes on as long as its connective
follows. So such a `Course` need not end. `Course.steps` says what each routine does, with what it
calls left open, and `Course.run` is the least solution of `run = steps run` (`Course.run_eq`,
`Course.run_le`): it has no value just where the calls, or the turns of a loop, go on forever. It is
a solution since each round of steps is continuous in what is called (`Course.continuous_steps`).
-/

namespace Sentential

/-- A computation that moves a reader and need not end. -/
abbrev Course : Type → Type := ExceptT (Halt ParseError) (StateT Reader Part)

/-- What calls and is called while a formula is read. The loop of a chain is among them, with its
rung, its connective, and the chain so far and its depth. -/
inductive Routine
  | links (l : Nat) (c : Connective) (f : Formula) (d : Nat)
  | level (l : Nat)
  | unary
  | primary

namespace Course

/-! ### Routines -/

/-- What a descent ends with, and where. -/
def result {α : Type} :
    EStateM.Result (Halt ParseError) Reader α → Except (Halt ParseError) α × Reader
  | .ok a r => (.ok a, r)
  | .error x r => (.error x, r)

/-- The single steps are those of the descent, and each of them ends. -/
instance : MonadLift Descent Course := ⟨fun step r => .some (result (step r))⟩

section steps

open Descent (peek skip eat enter leave bound close refuse)

/-- What each routine does, where `call` does what it calls. -/
def steps (call : Routine → Course (Formula × Nat)) : Routine → Course (Formula × Nat)
  | .links l c f d => do
    if ← eat (.op c) then
      let (g, e) ← call (.level (l + 1))
      let d ← bound (1 + max d e)
      call (.links l c (.binary c f g) d)
    else return (f, d)
  | .level l =>
    match Connective.ladder[l]? with
    | none => call .unary
    | some c => do
      let (f, d) ← call (.level (l + 1))
      call (.links l c f d)
  | .unary => do
    if ← eat .not then
      enter
      let (f, d) ← call .unary
      leave
      let d ← bound (d + 1)
      return (.not f, d)
    else call .primary
  | .primary => do
    match ← peek with
    | none =>
      let r ← (get : Descent Reader)
      refuse (if r.tokens = [] then .noTokens else .incomplete)
    | some (.var v) =>
      skip
      return (.var v, 0)
    | some .lparen =>
      skip
      enter
      let x ← call (.level 0)
      close
      leave
      return x
    | some t => refuse (.unexpected t)

end steps

/-- A round of steps, for all routines and readers at once. -/
def round (call : Routine × Reader → Part (Except (Halt ParseError) (Formula × Nat) × Reader)) :
    Routine × Reader → Part (Except (Halt ParseError) (Formula × Nat) × Reader) :=
  fun x => steps (fun routine r => call (routine, r)) x.1 x.2

/-- The course of a routine, with all that it calls. -/
def run (routine : Routine) : Course (Formula × Nat) := fun r => Part.fix round (routine, r)

/-- Reads the next formula. -/
def formula : Course Formula := do
  let (f, _) ← run (.level 0)
  return f

/-! ### Single steps -/

section single

variable {α β : Type} {m : Descent α} {n : Course α} {r r' : Reader}

theorem bind_apply (n : Course α) (k : α → Course β) (r : Reader) :
    (n >>= k) r = n r >>= fun x =>
      match x with
      | (.ok a, r') => k a r'
      | (.error x, r') => .some (.error x, r') := by
  change (n r >>= fun x => ExceptT.bindCont k x.1 x.2) = _
  refine congrArg (n r >>= ·) (funext ?_)
  rintro ⟨x, r'⟩
  cases x <;> rfl

theorem bind_of_ok {a : α} {k : α → Course β} (h : n r = .some (.ok a, r')) :
    (n >>= k) r = k a r' := by
  rw [bind_apply, h]
  exact Part.bind_some ..

theorem bind_of_error {x : Halt ParseError} {k : α → Course β}
    (h : n r = .some (.error x, r')) : (n >>= k) r = .some (.error x, r') := by
  rw [bind_apply, h]
  exact Part.bind_some ..

theorem lift_of_ok {a : α} (h : m r = .ok a r') :
    (liftM m : Course α) r = .some (.ok a, r') := by
  change Part.some (result (m r)) = _
  rw [h]
  rfl

theorem lift_of_error {x : Halt ParseError} (h : m r = .error x r') :
    (liftM m : Course α) r = .some (.error x, r') := by
  change Part.some (result (m r)) = _
  rw [h]
  rfl

end single

/-! ### The recursion -/

section continuity

open OmegaCompletePartialOrder

variable {X α β : Type} [OmegaCompletePartialOrder X]

/-- The result at each reader is known from finite parts of what is called. -/
def Continuous (n : X → Course α) : Prop := ∀ r, ωScottContinuous fun x => (n x r : Part _)

theorem continuous_const (n : Course α) : Continuous fun _ : X => n :=
  fun _ => ωScottContinuous.const

theorem Continuous.bind {n : X → Course α} {k : X → α → Course β} (hn : Continuous n)
    (hk : ∀ a, Continuous fun x => k x a) : Continuous fun x => n x >>= k x := by
  intro r
  simp only [bind_apply]
  refine ContinuousHom.ωScottContinuous.bind (hn r) (.of_apply₂ ?_)
  rintro ⟨answer, r'⟩
  cases answer with
  | ok a => exact hk a r'
  | error e => exact ωScottContinuous.const

theorem Continuous.ite {n n' : X → Course α} {b : Bool} (h : Continuous n) (h' : Continuous n') :
    Continuous fun x => if b = true then n x else n' x := by
  cases b
  · exact h'
  · exact h

theorem continuous_steps {call : X → Routine → Course (Formula × Nat)}
    (h : ∀ routine, Continuous fun x => call x routine) (routine : Routine) :
    Continuous fun x => steps (call x) routine := by
  cases routine with
  | links l c f d =>
    refine (continuous_const _).bind fun b => .ite ?_ (continuous_const _)
    refine (h _).bind ?_
    rintro ⟨g, e⟩
    exact (continuous_const _).bind fun d => h _
  | level l =>
    cases hc : Connective.ladder[l]? with
    | none =>
      simp only [steps, hc]
      exact h _
    | some c =>
      simp only [steps, hc]
      refine (h _).bind ?_
      rintro ⟨f, d⟩
      exact h _
  | unary =>
    refine (continuous_const _).bind fun b => .ite ?_ (h _)
    refine (continuous_const _).bind fun _ => (h _).bind ?_
    rintro ⟨f, d⟩
    exact continuous_const _
  | primary =>
    refine (continuous_const _).bind ?_
    rintro (_ | (v | _ | c | _ | _))
    case some.lparen =>
      refine (continuous_const _).bind fun _ => (continuous_const _).bind fun _ => ?_
      exact (h _).bind fun x => continuous_const _
    all_goals exact continuous_const _

end continuity

theorem continuous_round : OmegaCompletePartialOrder.ωScottContinuous round :=
  .of_apply₂ fun x => continuous_steps (fun _ _ => .apply _) x.1 x.2

/-- **The equation of the recursion.** -/
theorem run_eq (routine : Routine) : run routine = steps run routine := by
  funext r
  exact congrFun (Part.fix_eq_of_ωScottContinuous continuous_round) (routine, r)

/-- **A course has no end but what its steps lead to**: it agrees with any other solution of the
equation wherever it ends. -/
theorem run_le {call : Routine → Course (Formula × Nat)}
    (h : ∀ routine, steps call routine = call routine) (routine : Routine) (r : Reader) :
    (run routine r : Part _) ≤ call routine r := by
  refine Part.fix_le ⟨round, continuous_round.monotone⟩ (X := fun x => call x.1 x.2) ?_ (routine, r)
  exact fun x => (congrFun (h x.1) x.2).le

end Course

end Sentential
