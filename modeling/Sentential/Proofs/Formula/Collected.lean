import Sentential.Proofs.Assignment.LastValue
import Sentential.Proofs.Table.Valuation

/-!
# Environments collected from a list of bindings

Bindings can be collected in a hash map, in a search tree or in an assignment. Each of them answers
with the last binding of a variable (`lastValue?`), so a formula has the same outcome in all of them
(`Formula.evalCollected_eq`). As it asks for its own variables only, all that counts is how these
are bound last (`Formula.evalIn_congr`): not the order of other bindings, nor bindings that are
replaced, nor those of other variables, nor the structure in which they are kept.
-/

namespace Sentential

/-- The structures in which bindings can be collected. -/
inductive Container
  | hashMap
  | treeMap
  | assignment
deriving DecidableEq

/-- Some variables may have no value. -/
instance : Environment (Variable → Option Bool) := ⟨fun value? => value?⟩

namespace Formula

/-! ### Environments that give the same values -/

/-- **Evaluation asks for the leaves and nothing else**, so answers to these settle what it does. -/
theorem evalM_congr {μ : Type → Type} [Monad μ] {ask ask' : Variable → μ Bool} {f : Formula}
    (h : ∀ v ∈ f.leaves, ask v = ask' v) : f.evalM ask = f.evalM ask' := by
  induction f with
  | var v => exact h v (List.mem_singleton_self v)
  | not f ih => rw [evalM, evalM, ih h]
  | binary c l r ihl ihr =>
    rw [evalM, evalM, ihl fun v hv => h v (List.mem_append_left _ hv),
      ihr fun v hv => h v (List.mem_append_right _ hv)]

theorem evalIn_congr {ε ε' : Type} [Environment ε] [Environment ε'] {values : ε} {values' : ε'}
    {f : Formula} (h : ∀ v ∈ f.vars, Environment.value? values v = Environment.value? values' v) :
    f.evalIn values = f.evalIn values' := by
  refine evalM_congr fun v hv => ?_
  unfold Environment.value
  rw [h v (mem_vars.mpr hv)]

/-! ### Environments that are collected -/

/-- The value of the formula where the bindings are collected in such a structure. -/
def evalCollected (kind : Container) (bindings : List (Variable × Bool)) (f : Formula) :
    Except Misuse Bool :=
  match kind with
  | .hashMap => f.evalIn (Std.HashMap.ofList bindings)
  | .treeMap => f.evalIn (Std.TreeMap.ofList bindings)
  | .assignment => f.evalIn (Assignment.ofList bindings)

theorem evalCollected_eq (kind : Container) (bindings : List (Variable × Bool)) (f : Formula) :
    f.evalCollected kind bindings = f.evalIn (lastValue? bindings) := by
  cases kind with
  | hashMap => exact evalIn_congr fun v _ => getElem?_hashMap_ofList bindings v
  | treeMap => exact evalIn_congr fun v _ => getElem?_treeMap_ofList bindings v
  | assignment => exact evalIn_congr fun v _ => Assignment.get?_ofList bindings v

/-- **Only the last bindings of its variables count** for a formula. If two lists bind each of them
last to the same value, or do not bind it at all, then whatever the lists are collected in, the
formula has the same value, or the same variable is reported. And if all its variables are bound,
this is its value under each valuation that agrees with the last bindings on them. -/
theorem only_last_values_count (f : Formula) :
    (∀ xs ys : List (Variable × Bool), (∀ v ∈ f.vars, lastValue? xs v = lastValue? ys v) →
      ∀ kind kind' : Container, f.evalCollected kind xs = f.evalCollected kind' ys) ∧
    ∀ (xs : List (Variable × Bool)) (env : Variable → Bool),
      (∀ v ∈ f.vars, lastValue? xs v = some (env v)) →
        ∀ kind : Container,
          f.evalCollected kind xs = f.evalIn env ∧ f.evalIn env = .ok (f.eval env) := by
  constructor
  · intro xs ys h kind kind'
    rw [evalCollected_eq, evalCollected_eq]
    exact evalIn_congr h
  · intro xs env h kind
    rw [evalCollected_eq]
    exact ⟨evalIn_congr h, f.evalIn_valuation env⟩

/-- In `A → B ∧ A` the value of `A` is the last one of two, and bindings of `C` make no difference.
If `A` is not bound, it is reported whatever else there is. -/
theorem only_last_values_count_implication :
    let a : Variable := ⟨'A', rfl⟩
    let b : Variable := ⟨'B', rfl⟩
    let c : Variable := ⟨'C', rfl⟩
    let f : Formula := .binary .implies (.var a) (.binary .and (.var b) (.var a))
    let xs : List (Variable × Bool) := [(a, false), (b, false), (c, true), (a, true)]
    let ys : List (Variable × Bool) := [(a, true), (b, true), (b, false)]
    (∀ v ∈ f.vars, lastValue? xs v = lastValue? ys v) ∧
      (∀ v ∈ f.vars, lastValue? xs v = some (decide (v = a))) ∧
      f.evalCollected .hashMap xs = f.evalCollected .treeMap ys ∧
      f.evalCollected .hashMap xs = .ok false ∧
      f.evalCollected .treeMap [(b, true), (c, false)] = f.evalCollected .assignment [(b, true)] ∧
      f.evalCollected .assignment [(b, true)] = .error (.unbound a) := by
  intro a b c f xs ys
  have hlast : ∀ v ∈ f.vars, lastValue? xs v = lastValue? ys v := by decide
  have hbound : ∀ v ∈ f.vars, lastValue? xs v = some (decide (v = a)) := by decide
  have hunbound : ∀ v ∈ f.vars,
      lastValue? [(b, true), (c, false)] v = lastValue? [(b, true)] v := by
    decide
  obtain ⟨hsame, hvalue⟩ := only_last_values_count f
  obtain ⟨hkind, heval⟩ := hvalue xs (fun v => decide (v = a)) hbound .hashMap
  exact ⟨hlast, hbound, hsame xs ys hlast _ _, hkind.trans (heval.trans (by decide)),
    hsame _ _ hunbound _ _, by decide⟩

end Formula

end Sentential
