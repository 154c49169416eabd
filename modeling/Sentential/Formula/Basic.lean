import Sentential.Connective
import Sentential.Variable

/-!
# Formulas

A formula is a variable, the negation of a formula or a connective between two formulas. Its depth
counts the nodes above its deepest leaf, its size counts all nodes.
-/

namespace Sentential

/-- A propositional formula. -/
inductive Formula
  | var (v : Variable)
  | not (f : Formula)
  | binary (c : Connective) (l r : Formula)
deriving DecidableEq

namespace Formula

/-- The number of nodes above the deepest leaf. -/
def depth : Formula → Nat
  | var _ => 0
  | not f => f.depth + 1
  | binary _ l r => max l.depth r.depth + 1

theorem depth_binary (c : Connective) (l r : Formula) :
    (binary c l r).depth = max l.depth r.depth + 1 := rfl

/-- The number of nodes. -/
def size : Formula → Nat
  | var _ => 1
  | not f => f.size + 1
  | binary _ l r => l.size + r.size + 1

/-- The variables at the leaves, from left to right. -/
def leaves : Formula → List Variable
  | var v => [v]
  | not f => f.leaves
  | binary _ l r => l.leaves ++ r.leaves

/-- The variables of the formula in ascending order, each of them once. -/
def vars (f : Formula) : List Variable := Variable.ascending f.leaves

@[simp]
theorem mem_vars {f : Formula} {v : Variable} : v ∈ f.vars ↔ v ∈ f.leaves :=
  Variable.mem_ascending

theorem mem_vars_of_mem_leaves (f : Formula) : ∀ v ∈ f.leaves, v ∈ f.vars :=
  fun _ hv => mem_vars.mpr hv

theorem pairwise_vars (f : Formula) : f.vars.Pairwise (· < ·) := Variable.pairwise_ascending _

theorem nodup_vars (f : Formula) : f.vars.Nodup := Variable.nodup_ascending _

theorem leaves_ne_nil (f : Formula) : f.leaves ≠ [] := by
  induction f with
  | var _ => simp [leaves]
  | not _ ih => exact ih
  | binary _ _ _ ihl _ => simp [leaves, ihl]

theorem vars_ne_nil (f : Formula) : f.vars ≠ [] := by
  obtain ⟨v, hv⟩ := List.exists_mem_of_ne_nil _ f.leaves_ne_nil
  exact List.ne_nil_of_mem (mem_vars.mpr hv)

end Formula

end Sentential
