import Mathlib.Data.List.Induction
import Sentential.Assignment

/-!
# The last binding of a variable

Where bindings are collected one after the other, a later binding of a variable takes the place of
an earlier one. So whatever they are collected in, a variable has the value that it is bound to last
(`eq_lastValue?`): in an assignment, in a hash map and in a search tree.
-/

namespace Sentential

instance : Std.TransOrd Variable := inferInstanceAs (Std.TransCmp (compareOn Variable.name))

instance : Std.LawfulEqOrd Variable where
  eq_of_compare h := Variable.ext_name (Std.compare_eq_iff_eq.mp h)

variable {bindings : List (Variable × Bool)} {v : Variable}

/-- The value that the variable is bound to last, if it is bound in the list. -/
def lastValue? (bindings : List (Variable × Bool)) (v : Variable) : Option Bool :=
  bindings.reverse.lookup v

theorem lastValue?_append_singleton (x : Variable × Bool) :
    lastValue? (bindings ++ [x]) v = if v = x.1 then some x.2 else lastValue? bindings v := by
  unfold lastValue?
  rw [List.reverse_append, List.reverse_singleton, List.singleton_append]
  exact Assignment.lookup_cons_ite x.1 x.2 bindings.reverse v

/-- **A look-up that each later binding replaces** finds the last one. -/
theorem eq_lastValue? (value? : List (Variable × Bool) → Option Bool) (hnil : value? [] = none)
    (happend : ∀ l x, value? (l ++ [x]) = if v = x.1 then some x.2 else value? l) :
    value? bindings = lastValue? bindings v := by
  induction bindings using List.reverseRecOn with
  | nil => exact hnil
  | append_singleton l x ih => rw [happend, lastValue?_append_singleton, ih]

theorem Assignment.ofList_append_singleton (l : List (Variable × Bool)) (x : Variable × Bool) :
    ofList (l ++ [x]) = (ofList l).insert x.1 x.2 := List.foldl_append

theorem Assignment.get?_ofList (bindings : List (Variable × Bool)) (v : Variable) :
    (ofList bindings).get? v = lastValue? bindings v := by
  refine eq_lastValue? (fun l => (ofList l).get? v) rfl fun l x => ?_
  rw [ofList_append_singleton, get?_insert]

theorem getElem?_hashMap_ofList (bindings : List (Variable × Bool)) (v : Variable) :
    (Std.HashMap.ofList bindings)[v]? = lastValue? bindings v := by
  refine eq_lastValue? (fun l => (Std.HashMap.ofList l)[v]?) ?_ fun l x => ?_
  · rw [Std.HashMap.ofList_nil, Std.HashMap.getElem?_empty]
  · simp only [Std.HashMap.ofList_eq_insertMany_empty, Std.HashMap.insertMany_append]
    rw [Std.HashMap.insertMany_list_singleton, Std.HashMap.getElem?_insert]
    simp only [beq_iff_eq, eq_comm (a := v)]

theorem getElem?_treeMap_ofList (bindings : List (Variable × Bool)) (v : Variable) :
    (Std.TreeMap.ofList bindings)[v]? = lastValue? bindings v := by
  refine eq_lastValue? (fun l => (Std.TreeMap.ofList l)[v]?) ?_ fun l x => ?_
  · rw [Std.TreeMap.ofList_nil, Std.TreeMap.getElem?_emptyc]
  · simp only [Std.TreeMap.ofList_eq_insertMany_empty, Std.TreeMap.insertMany_append]
    rw [Std.TreeMap.insertMany_list_singleton, Std.TreeMap.getElem?_insert]
    simp only [Std.compare_eq_iff_eq, eq_comm (a := v)]

end Sentential
