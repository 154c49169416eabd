import Sentential.Formula.Value

/-!
# Substitution

Formulas take the place of variables. The value of the result is the value of the formula where each
variable has the value of what takes its place (`eval_subst`). Renaming is the special case in which
variables take the place of variables.
-/

namespace Sentential.Formula

/-- Puts a formula in the place of each variable. -/
def subst (σ : Variable → Formula) : Formula → Formula
  | var v => σ v
  | not f => not (f.subst σ)
  | binary c l r => binary c (l.subst σ) (r.subst σ)

/-- Puts a variable in the place of each variable. -/
def rename (ρ : Variable → Variable) (f : Formula) : Formula := f.subst fun v => var (ρ v)

/-- Puts the formula `g` in the place of one variable. -/
def replace (f : Formula) (x : Variable) (g : Formula) : Formula :=
  f.subst fun v => if v = x then g else var v

theorem replace_var_self (x : Variable) (g : Formula) : (var x).replace x g = g := if_pos rfl

theorem replace_var_of_ne {v x : Variable} (h : v ≠ x) (g : Formula) :
    (var v).replace x g = var v := if_neg h

theorem eval_subst (env : Variable → Bool) (σ : Variable → Formula) (f : Formula) :
    (f.subst σ).eval env = f.eval fun v => (σ v).eval env := by
  induction f with
  | var _ => rfl
  | not f ih => rw [subst, eval, eval, ih]
  | binary c l r ihl ihr => rw [subst, eval, eval, ihl, ihr]

theorem evalM_subst {μ : Type → Type} [Monad μ] (ask : Variable → μ Bool) (σ : Variable → Formula)
    (f : Formula) : (f.subst σ).evalM ask = f.evalM fun v => (σ v).evalM ask := by
  induction f with
  | var _ => rfl
  | not f ih => rw [subst, evalM, evalM, ih]
  | binary c l r ihl ihr => rw [subst, evalM, evalM, ihl, ihr]

theorem leaves_subst (σ : Variable → Formula) (f : Formula) :
    (f.subst σ).leaves = f.leaves.flatMap fun v => (σ v).leaves := by
  induction f with
  | var v => simp [subst, leaves]
  | not f ih => rw [subst, leaves, leaves, ih]
  | binary c l r ihl ihr => rw [subst, leaves, leaves, ihl, ihr, List.flatMap_append]

@[simp]
theorem leaves_rename (ρ : Variable → Variable) (f : Formula) :
    (f.rename ρ).leaves = f.leaves.map ρ := by
  rw [rename, leaves_subst]
  simp only [leaves]
  exact List.map_eq_flatMap.symm

@[simp]
theorem eval_rename (env : Variable → Bool) (ρ : Variable → Variable) (f : Formula) :
    (f.rename ρ).eval env = f.eval fun v => env (ρ v) := eval_subst ..

end Sentential.Formula
