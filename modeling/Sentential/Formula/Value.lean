import Sentential.Formula.Basic
import Sentential.Misuse
import Std.Data.HashMap
import Std.Data.TreeMap

/-!
# The value of a formula

`Formula.eval` is the value under a total valuation. `Formula.evalM` asks for the value of each leaf
in turn, the left operand before the right one and both in every case, so that it can be run where
asking may fail or leaves a trace. On an answer that always comes both agree (`evalM_eq_pure_eval`).
-/

namespace Sentential

/-- A structure that gives values to some variables. -/
class Environment (ε : Type) where
  value? : ε → Variable → Option Bool

instance : Environment (Variable → Bool) := ⟨fun env v => some (env v)⟩

instance : Environment (Std.HashMap Variable Bool) := ⟨fun env v => env[v]?⟩

instance : Environment (Std.TreeMap Variable Bool) := ⟨fun env v => env[v]?⟩

/-- The value of a variable; a variable without one is reported. -/
def Environment.value {ε : Type} [Environment ε] (env : ε) (v : Variable) : Except Misuse Bool :=
  match value? env v with
  | some b => .ok b
  | none => .error (.unbound v)

namespace Formula

/-- The value under a valuation of all variables. -/
def eval (env : Variable → Bool) : Formula → Bool
  | var v => env v
  | not f => !f.eval env
  | binary c l r => c.apply (l.eval env) (r.eval env)

/-- The value where `ask` answers for the leaves. -/
def evalM {μ : Type → Type} [Monad μ] (ask : Variable → μ Bool) : Formula → μ Bool
  | var v => ask v
  | not f => do
    let b ← f.evalM ask
    return !b
  | binary c l r => do
    let a ← l.evalM ask
    let b ← r.evalM ask
    return c.apply a b

/-- The value in an environment. -/
def evalIn {ε : Type} [Environment ε] (env : ε) (f : Formula) : Except Misuse Bool :=
  f.evalM (Environment.value env)

/-- Answers with the valuation and notes the question, the last one in front. -/
def ask (env : Variable → Bool) (v : Variable) : StateM (List Variable) Bool := do
  modify (v :: ·)
  return env v

/-- The value under a valuation, and the variables that were asked for in their order. -/
def evalAsking (env : Variable → Bool) (f : Formula) : Bool × List Variable :=
  let (value, asked) := (f.evalM (ask env)).run []
  (value, asked.reverse)

theorem evalM_eq_pure_eval {μ : Type → Type} [Monad μ] [LawfulMonad μ] {ask : Variable → μ Bool}
    {env : Variable → Bool} (f : Formula) (h : ∀ v ∈ f.leaves, ask v = pure (env v)) :
    f.evalM ask = pure (f.eval env) := by
  induction f with
  | var v => exact h v (by simp [leaves])
  | not f ih => simp [evalM, eval, ih h]
  | binary c l r ihl ihr =>
    have hl := ihl fun v hv => h v (List.mem_append_left _ hv)
    have hr := ihr fun v hv => h v (List.mem_append_right _ hv)
    simp [evalM, eval, hl, hr]

end Formula

end Sentential
