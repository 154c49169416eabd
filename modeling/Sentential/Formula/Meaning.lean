import Sentential.Formula.Value

/-!
# What a formula says

A formula is a statement about the variables. `Formula.Holds` reads it as a proposition, with each
connective as the word it stands for, and `Formula.eval_eq_true_iff` says that the value is true
exactly where that proposition holds.
-/

namespace Sentential

/-- The statement that a connective makes of two statements. -/
def Connective.Joins : Connective → Prop → Prop → Prop
  | .iff, p, q => p ↔ q
  | .implies, p, q => p → q
  | .or, p, q => p ∨ q
  | .xor, p, q => p ∧ ¬q ∨ q ∧ ¬p
  | .and, p, q => p ∧ q

theorem Connective.apply_eq_true_iff (c : Connective) (a b : Bool) :
    c.apply a b = true ↔ c.Joins (a = true) (b = true) := by
  cases c <;> cases a <;> cases b <;> simp [apply, Joins]

namespace Formula

/-- What the formula says where each variable stands for a statement. -/
def Holds (statement : Variable → Prop) : Formula → Prop
  | var v => statement v
  | not f => ¬f.Holds statement
  | binary c l r => c.Joins (l.Holds statement) (r.Holds statement)

theorem eval_eq_true_iff (env : Variable → Bool) (f : Formula) :
    f.eval env = true ↔ f.Holds (env · = true) := by
  induction f with
  | var _ => rfl
  | not f ih => rw [eval, Holds, ← ih, Bool.not_eq_true', Bool.not_eq_true]
  | binary c l r ihl ihr =>
    rw [eval, Holds, Connective.apply_eq_true_iff, propext ihl, propext ihr]

theorem eval_congr {env env' : Variable → Bool} (f : Formula)
    (h : ∀ v ∈ f.leaves, env v = env' v) : f.eval env = f.eval env' := by
  induction f with
  | var v => exact h v (List.mem_singleton_self v)
  | not f ih => rw [eval, eval, ih h]
  | binary c l r ihl ihr =>
    rw [eval, eval, ihl fun v hv => h v (List.mem_append_left _ hv),
      ihr fun v hv => h v (List.mem_append_right _ hv)]

end Formula

end Sentential
