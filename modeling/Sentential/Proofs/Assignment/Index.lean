import Mathlib.Data.Set.Function
import Sentential.Proofs.Assignment.Bindings
import Sentential.Proofs.Table.Checked

/-!
# The assignment of an index

An index gives its digits to the variables of a list, the lowest one to the last variable. The list
may be in any order and name a variable more than once; then the last place of the variable counts,
since its binding is the last one (`get?_ofList`). So, read from the end of the list, each variable
has the digit of the first place where it stands (`ofIndex_of_lt`).

Over variables that do not repeat, indices and assignments correspond to each other
(`bijOn_ofIndex`). Over variables in ascending order the assignments come in the order of their
values as well, since to compare numbers is to compare their digits from the highest one on
(`map_lt_map_iff`).
-/

namespace Sentential

variable {vs : List Variable} {env env' : Variable → Bool}

/-- **Valuations are in the order of their numbers**, false before true and earlier variables first.
-/
theorem map_lt_map_iff :
    vs.map env < vs.map env' ↔ valuationIndex vs env < valuationIndex vs env' := by
  induction vs with
  | nil => simp [valuationIndex]
  | cons v vs ih =>
    have hlt := valuationIndex_lt env vs
    have hlt' := valuationIndex_lt env' vs
    rw [List.map_cons, List.map_cons, List.cons_lt_cons_iff, Bool.lt_iff, ih, valuationIndex_cons,
      valuationIndex_cons]
    cases env v <;> cases env' v <;> simp <;> omega

namespace Assignment

/-! ### What an index assigns -/

/-- In a list with numbered places, a variable is found at the first place where it stands. -/
theorem lookup_zipIdx (value : Nat → Bool) (v : Variable) (ws : List Variable) (start : Nat) :
    ((ws.zipIdx start).map fun x => (x.1, value x.2)).lookup v =
      if v ∈ ws then some (value (start + ws.idxOf v)) else none := by
  induction ws generalizing start with
  | nil => rfl
  | cons w ws ih =>
    rw [List.zipIdx_cons, List.map_cons, lookup_cons_ite, ih]
    by_cases hw : v = w
    · subst hw
      rw [if_pos rfl, if_pos (List.mem_cons_self ..), List.idxOf_cons_self, Nat.add_zero]
    · have hmem : v ∈ w :: ws ↔ v ∈ ws := List.mem_cons.trans (or_iff_right hw)
      have hplace : start + 1 + ws.idxOf v = start + (w :: ws).idxOf v := by
        rw [List.idxOf_cons_ne _ (Ne.symm hw)]
        omega
      rw [if_neg hw, hplace]
      simp only [hmem]

variable {index : Nat}

theorem reverse_bindings (vs : List Variable) (index : Nat) :
    (vs.zipIdx.map fun x => (x.1, index.testBit (vs.length - 1 - x.2))).reverse =
      vs.reverse.zipIdx.map fun x => (x.1, index.testBit x.2) := by
  refine List.ext_getElem (by simp) fun k hk hk' => ?_
  have hk'' : k < vs.length := by simpa using hk'
  have hplace : vs.length - 1 - (vs.length - 1 - k) = k := by omega
  simp [hplace]

theorem ofIndex_of_wide (h : maxVariables < vs.length) (index : Nat) :
    ofIndex vs index = .error (.wideRow vs.length) := if_pos h

theorem ofIndex_of_le (h : vs.length ≤ maxVariables) (hindex : 2 ^ vs.length ≤ index) :
    ofIndex vs index = .error (.noSuchRow index vs.length) :=
  (if_neg (Nat.not_lt.mpr h)).trans (if_pos hindex)

/-- **From the end of the list, a variable has the digit of the first place where it stands.** -/
theorem ofIndex_of_lt (h : vs.length ≤ maxVariables) (hindex : index < 2 ^ vs.length) :
    ofIndex vs index = .ok (ofValuation vs fun v => index.testBit (vs.reverse.idxOf v)) := by
  have hvalues : ofList (vs.zipIdx.map fun x => (x.1, index.testBit (vs.length - 1 - x.2))) =
      ofValuation vs fun v => index.testBit (vs.reverse.idxOf v) := by
    refine ext_get? fun v => ?_
    rw [get?_ofList, lastValue?, reverse_bindings, lookup_zipIdx, get?_ofValuation]
    simp only [List.mem_reverse, Nat.zero_add]
  have hrow : index < rowCount vs.length := hindex
  unfold ofIndex
  rw [if_neg (Nat.not_lt.mpr h), if_neg (Nat.not_le.mpr hrow), ← hvalues]

/-- The assignment has the variables of the list in ascending order, each with the digit of its last
place, where the places of the list have the digits of the index, the last place the lowest one. -/
structure Numbered (a : Assignment) (vs : List Variable) (index : Nat) : Prop where
  binds : a.Binds vs
  digit : ∀ (k : Nat) (hk : k < vs.length), vs[k] ∉ vs.drop (k + 1) →
    a.get? vs[k] = some (index.testBit (vs.length - 1 - k))
  columns : a.toList.map (·.1) = Variable.ascending vs
  ascending : (a.toList.map (·.1)).Pairwise (· < ·)

/-- Where a variable does not come again, there are as many places before it, from the end of the
list, as variables behind it. -/
theorem idxOf_reverse {k : Nat} (hk : k < vs.length) (hlast : vs[k] ∉ vs.drop (k + 1)) :
    vs.reverse.idxOf vs[k] = vs.length - 1 - k := by
  have hsplit : vs.reverse = (vs.drop (k + 1)).reverse ++ vs[k] :: (vs.take k).reverse := by
    conv_lhs => rw [← List.take_append_drop k vs, List.drop_eq_getElem_cons hk]
    simp
  rw [hsplit, List.idxOf_append_of_notMem (by rwa [List.mem_reverse]), List.idxOf_cons_self,
    List.length_reverse, List.length_drop]
  omega

theorem numbered_ofValuation (vs : List Variable) (index : Nat) :
    (ofValuation vs fun v => index.testBit (vs.reverse.idxOf v)).Numbered vs index := by
  have hbinds := binds_ofValuation vs fun v => index.testBit (vs.reverse.idxOf v)
  have hcolumns := hbinds.map_fst_ascending
  refine ⟨hbinds, fun k hk hlast => ?_, hcolumns, hcolumns ▸ Variable.pairwise_ascending vs⟩
  rw [get?_ofValuation, if_pos (List.getElem_mem hk), idxOf_reverse hk hlast]

/-! ### Variables that do not repeat -/

theorem bijOn_ofIndex (hvs : vs.Nodup) (hlength : vs.length ≤ maxVariables) :
    Set.BijOn (ofIndex vs) {index | index < 2 ^ vs.length} (Except.ok '' {a | a.Binds vs}) := by
  refine ⟨fun i hi => ?_, fun i hi j hj h => ?_, ?_⟩
  · exact ⟨_, binds_ofValuation _ _, (ofIndex_eq hvs hlength hi).symm⟩
  · rw [ofIndex_eq hvs hlength hi, ofIndex_eq hvs hlength hj] at h
    have hnumber := congrArg (number vs) (Except.ok.inj h)
    rwa [number_ofValuation_valuationAt hvs hi, number_ofValuation_valuationAt hvs hj] at hnumber
  · rintro _ ⟨a, ha, rfl⟩
    obtain ⟨env, rfl⟩ := binds_iff.mp ha
    have hlt := valuationIndex_lt env vs
    refine ⟨valuationIndex vs env, hlt, ?_⟩
    rw [ofIndex_eq hvs hlength hlt, ofValuation_congr fun _ hv => valuationAt_valuationIndex hv]

theorem values_ofValuation (hvs : vs.Pairwise (· < ·)) :
    (ofValuation vs env).toList.map (·.2) = vs.map env := by
  rw [toList_ofValuation hvs, List.map_map]
  rfl

theorem exists_values_lt (hvs : vs.Pairwise (· < ·)) (hlength : vs.length ≤ maxVariables)
    {i j : Nat}
    (hij : i < j) (hj : j < 2 ^ vs.length) :
    ∃ a b, ofIndex vs i = .ok a ∧ ofIndex vs j = .ok b ∧
      a.toList.map (·.2) < b.toList.map (·.2) := by
  have hnodup := Variable.nodup_of_pairwise hvs
  have hi : i < 2 ^ vs.length := hij.trans hj
  refine ⟨_, _, ofIndex_eq hnodup hlength hi, ofIndex_eq hnodup hlength hj, ?_⟩
  rwa [values_ofValuation hvs, values_ofValuation hvs, map_lt_map_iff,
    valuationIndex_valuationAt hnodup hi, valuationIndex_valuationAt hnodup hj]

/-- **What comes of an index**, for any list of variables. There is no assignment if the list is too
long or the index has too many digits, and no other reason. Otherwise each variable has the digit of
its last place. If no variable is repeated, the indices are those of the assignments to these
variables, and if the variables ascend, the assignments do. -/
theorem ofIndex_outcome (vs : List Variable) :
    (∀ i, Checked.assignment vs i = (ofIndex vs i).mapError .misuse) ∧
    (maxVariables < vs.length → ∀ i, ∃ m, ofIndex vs i = .error m ∧
      m.message = s!"Too many variables: {vs.length}") ∧
    (vs.length ≤ maxVariables →
      (∀ i, 2 ^ vs.length ≤ i → ∃ m, ofIndex vs i = .error m ∧
        m.message = s!"Row index {i} out of range for {vs.length} variables") ∧
      (∀ i < 2 ^ vs.length, ∃ a, ofIndex vs i = .ok a ∧ a.Numbered vs i) ∧
      (vs.Nodup → Set.BijOn (ofIndex vs) {i | i < 2 ^ vs.length}
        (Except.ok '' {a | a.Binds vs})) ∧
      (vs.Pairwise (· < ·) → ∀ i j, i < j → j < 2 ^ vs.length →
        ∃ a b, ofIndex vs i = .ok a ∧ ofIndex vs j = .ok b ∧
          a.toList.map (·.2) < b.toList.map (·.2))) := by
  refine ⟨Checked.assignment_eq vs, fun hwide i => ?_, fun hlength => ⟨fun i hi => ?_,
    fun i hi => ?_, fun hvs => ?_, fun hvs i j hij hj => ?_⟩⟩
  · exact ⟨_, ofIndex_of_wide hwide i, rfl⟩
  · exact ⟨_, ofIndex_of_le hlength hi, rfl⟩
  · exact ⟨_, ofIndex_of_lt hlength hi, numbered_ofValuation vs i⟩
  · exact bijOn_ofIndex hvs hlength
  · exact exists_values_lt hvs hlength hij hj

/-- In the list `B`, `A`, `B` the last place of `B` counts, which has the lowest digit. There are
eight indices for this list and none for a list of seven. Over `A`, `B` the values ascend with the
index, and over `B`, `A` the four indices are still those of the four assignments. -/
theorem ofIndex_outcome_repeated :
    let a : Variable := ⟨'A', rfl⟩
    let b : Variable := ⟨'B', rfl⟩
    [b, a, b].length ≤ maxVariables ∧
      (∃ x, ofIndex [b, a, b] 4 = .ok x ∧ x.toList.map (·.1) = [a, b] ∧ x.get? b = some false) ∧
      (∃ m, ofIndex [b, a, b] 8 = .error m ∧
        m.message = "Row index 8 out of range for 3 variables") ∧
      (∃ m, ofIndex (List.replicate 7 a) 0 = .error m ∧ m.message = "Too many variables: 7") ∧
      [b, a].Nodup ∧ Set.BijOn (ofIndex [b, a]) {i | i < 2 ^ 2} (Except.ok '' {x | x.Binds [b, a]}) ∧
      [a, b].Pairwise (· < ·) ∧ ∃ x y, ofIndex [a, b] 1 = .ok x ∧ ofIndex [a, b] 2 = .ok y ∧
        x.toList.map (·.2) < y.toList.map (·.2) := by
  intro a b
  have hthree : [b, a, b].length ≤ maxVariables := by decide
  have hnodup : [b, a].Nodup := by decide
  have hascending : [a, b].Pairwise (· < ·) := by decide
  have hseven : maxVariables < (List.replicate 7 a).length := by decide
  have hrepeated := (ofIndex_outcome [b, a, b]).2.2 hthree
  obtain ⟨x, hx, hnumbered⟩ := hrepeated.2.1 4 (by decide)
  obtain ⟨m, hm, hrow⟩ := hrepeated.1 8 (by decide)
  obtain ⟨m', hm', hwide⟩ := (ofIndex_outcome (List.replicate 7 a)).2.1 hseven 0
  have hlast := hnumbered.digit 2 (by decide) (by decide)
  refine ⟨hthree, ⟨x, hx, hnumbered.columns.trans (by decide), hlast.trans (by decide)⟩,
    ⟨m, hm, hrow.trans (by decide)⟩, ⟨m', hm', hwide.trans (by decide)⟩, hnodup, ?_, hascending, ?_⟩
  · exact ((ofIndex_outcome [b, a]).2.2 (by decide)).2.2.1 hnodup
  · exact ((ofIndex_outcome [a, b]).2.2 (by decide)).2.2.2 hascending 1 2 (by decide) (by decide)

end Assignment

end Sentential
