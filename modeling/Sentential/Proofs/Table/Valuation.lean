import Mathlib.Algebra.BigOperators.Fin
import Sentential.Formula.Meaning
import Sentential.Proofs.Assignment.LastValue
import Sentential.Table.Basic

/-!
# Rows and valuations

The valuations of a list of variables are numbered in binary, the first variable in the highest
place: `valuationIndex` is the number of a valuation, `valuationAt` the valuation of a number. On
the variables of the list the second undoes the first (`valuationAt_valuationIndex`), and on numbers
with no more digits than there are variables the first undoes the second
(`valuationIndex_valuationAt`). The row of an index is the row of its valuation (`Row.ofIndex_eq`):
it binds the variables of the list to their values and nothing else (`Assignment.get?_ofValuation`),
and its result is the value of the formula.
-/

namespace Sentential

/-- The number of a valuation: a digit for each variable, the first one in the highest place. -/
def valuationIndex (vs : List Variable) (env : Variable → Bool) : Nat :=
  ∑ k : Fin vs.length, (env vs[k]).toNat * 2 ^ (vs.length - 1 - k)

/-- The valuation of that number. -/
def valuationAt (vs : List Variable) (index : Nat) (v : Variable) : Bool :=
  index.testBit (vs.length - 1 - vs.idxOf v)

variable {env env' : Variable → Bool}

theorem valuationIndex_cons (v : Variable) (vs : List Variable) :
    valuationIndex (v :: vs) env = 2 ^ vs.length * (env v).toNat + valuationIndex vs env := by
  refine (Fin.sum_univ_succ _).trans ?_
  congr 1
  · exact Nat.mul_comm ..
  · refine Finset.sum_congr rfl fun k _ => ?_
    have h : (v :: vs).length - 1 - (k.succ : Fin (v :: vs).length) = vs.length - 1 - k := by
      simp only [List.length_cons, Fin.val_succ]
      omega
    rw [h]
    rfl

theorem valuationIndex_lt (env : Variable → Bool) : ∀ vs, valuationIndex vs env < 2 ^ vs.length
  | [] => Nat.one_pos
  | v :: vs => by
    have ih := valuationIndex_lt env vs
    have hdigit : 2 ^ vs.length * (env v).toNat ≤ 2 ^ vs.length * 1 :=
      Nat.mul_le_mul_left _ (Bool.toNat_le _)
    rw [valuationIndex_cons, List.length_cons, pow_succ]
    omega

theorem testBit_valuationIndex : ∀ (vs : List Variable) (k : Nat) (hk : k < vs.length),
    (valuationIndex vs env).testBit (vs.length - 1 - k) = env vs[k]
  | v :: vs, k, hk => by
    rw [valuationIndex_cons, Nat.testBit_two_pow_mul_add _ (valuationIndex_lt env vs)]
    cases k with
    | zero => cases h : env v <;> simp [h]
    | succ k =>
      have hk' : k < vs.length := Nat.lt_of_succ_lt_succ hk
      have hlt : (v :: vs).length - 1 - (k + 1) < vs.length := by
        rw [List.length_cons]
        omega
      have hpos : (v :: vs).length - 1 - (k + 1) = vs.length - 1 - k := by
        rw [List.length_cons]
        omega
      rw [if_pos hlt, hpos]
      exact testBit_valuationIndex vs k hk'

/-- **A valuation is known from its number**, on the variables. -/
theorem valuationAt_valuationIndex {vs : List Variable} {v : Variable} (hv : v ∈ vs) :
    valuationAt vs (valuationIndex vs env) v = env v := by
  have hk := List.idxOf_lt_length_of_mem hv
  unfold valuationAt
  rw [testBit_valuationIndex vs _ hk, List.getElem_idxOf hk]

theorem valuationIndex_congr {vs : List Variable} (h : ∀ v ∈ vs, env v = env' v) :
    valuationIndex vs env = valuationIndex vs env' := by
  unfold valuationIndex
  refine Finset.sum_congr rfl fun k _ => ?_
  have hk : env vs[k] = env' vs[k] := h _ (List.getElem_mem k.isLt)
  rw [hk]

theorem valuationAt_getElem {vs : List Variable} (hvs : vs.Nodup) (index : Nat) {k : Nat}
    (hk : k < vs.length) : valuationAt vs index vs[k] = index.testBit (vs.length - 1 - k) := by
  unfold valuationAt
  rw [hvs.idxOf_getElem]

/-- **A number is known from its valuation**, if it has no more digits than there are variables. -/
theorem valuationIndex_valuationAt {vs : List Variable} (hvs : vs.Nodup) {index : Nat}
    (hindex : index < 2 ^ vs.length) : valuationIndex vs (valuationAt vs index) = index := by
  refine Nat.eq_of_testBit_eq fun i => ?_
  by_cases hi : i < vs.length
  · -- the digit of place `i` is that of the variable with as many variables behind it
    have hk : vs.length - 1 - i < vs.length := by omega
    have hplace : vs.length - 1 - (vs.length - 1 - i) = i := by omega
    have hdigit : (valuationIndex vs (valuationAt vs index)).testBit
        (vs.length - 1 - (vs.length - 1 - i)) = valuationAt vs index vs[vs.length - 1 - i] :=
      testBit_valuationIndex vs _ hk
    rwa [valuationAt_getElem hvs index hk, hplace] at hdigit
  · have hpow : 2 ^ vs.length ≤ 2 ^ i := Nat.pow_le_pow_right (by decide) (by omega)
    have hlt := valuationIndex_lt (valuationAt vs index) vs
    rw [Nat.testBit_lt_two_pow (by omega), Nat.testBit_lt_two_pow (by omega)]

/-! ### Assignments -/

namespace Assignment

/-- The assignment that gives the variables their values under the valuation. -/
def ofValuation (vs : List Variable) (env : Variable → Bool) : Assignment :=
  ofList (vs.map fun v => (v, env v))

theorem get?_ofValuation (vs : List Variable) (env : Variable → Bool) (v : Variable) :
    (ofValuation vs env).get? v = if v ∈ vs then some (env v) else none := by
  unfold ofValuation
  rw [get?_ofList, lastValue?, ← List.map_reverse]
  split
  · next hv => exact List.lookup_graph env (List.mem_reverse.mpr hv)
  · next hv =>
    refine List.lookup_eq_none_iff.mpr fun x hx => ?_
    obtain ⟨w, hw, rfl⟩ := List.mem_map.mp hx
    rw [bne_iff_ne]
    rintro rfl
    exact hv (List.mem_reverse.mp hw)

theorem ofValuation_congr {vs : List Variable} (h : ∀ v ∈ vs, env v = env' v) :
    ofValuation vs env = ofValuation vs env' := by
  unfold ofValuation
  rw [List.map_congr_left fun v hv => by rw [h v hv]]

theorem ofIndex_eq {vs : List Variable} {index : Nat} (hvs : vs.Nodup)
    (hlength : vs.length ≤ maxVariables) (hindex : index < rowCount vs.length) :
    ofIndex vs index = .ok (ofValuation vs (valuationAt vs index)) := by
  have hbindings : vs.zipIdx.map (fun x => (x.1, index.testBit (vs.length - 1 - x.2))) =
      vs.map fun v => (v, valuationAt vs index v) := by
    refine List.ext_getElem (by simp) fun k hk hk' => ?_
    simp only [List.getElem_map, List.getElem_zipIdx, valuationAt, Nat.zero_add]
    rw [hvs.idxOf_getElem]
  unfold ofIndex ofValuation
  rw [if_neg (Nat.not_lt.mpr hlength), if_neg (Nat.not_le.mpr hindex), ← hbindings]

end Assignment

/-! ### Rows -/

/-- The row with the values of the variables and of the formula under the valuation. -/
def Row.ofValuation (vs : List Variable) (f : Formula) (env : Variable → Bool) : Row :=
  ⟨Assignment.ofValuation vs env, f.eval env⟩

theorem Formula.evalIn_eq_ok {ε : Type} [Environment ε] {values : ε} {f : Formula}
    (h : ∀ v ∈ f.leaves, Environment.value? values v = some (env v)) :
    f.evalIn values = .ok (f.eval env) := by
  refine f.evalM_eq_pure_eval fun v hv => ?_
  unfold Environment.value
  rw [h v hv]
  rfl

theorem Formula.evalIn_valuation (f : Formula) (env : Variable → Bool) :
    f.evalIn env = .ok (f.eval env) := evalIn_eq_ok fun _ _ => rfl

theorem Formula.evalIn_ofValuation {vs : List Variable} {f : Formula}
    (hf : ∀ v ∈ f.leaves, v ∈ vs) :
    f.evalIn (Assignment.ofValuation vs env) = .ok (f.eval env) := by
  refine evalIn_eq_ok fun v hv => ?_
  have h := Assignment.get?_ofValuation vs env v
  rwa [if_pos (hf v hv)] at h

namespace Row

variable {vs : List Variable} {f : Formula}

theorem ofValuation_congr (hf : ∀ v ∈ f.leaves, v ∈ vs) (h : ∀ v ∈ vs, env v = env' v) :
    ofValuation vs f env = ofValuation vs f env' := by
  unfold ofValuation
  rw [Assignment.ofValuation_congr h, f.eval_congr fun v hv => h v (hf v hv)]

theorem ofIndex_eq {index : Nat} (hvs : vs.Nodup) (hlength : vs.length ≤ maxVariables)
    (hf : ∀ v ∈ f.leaves, v ∈ vs) (hindex : index < rowCount vs.length) :
    ofIndex vs f index = .ok (ofValuation vs f (valuationAt vs index)) := by
  unfold ofIndex
  rw [Assignment.ofIndex_eq hvs hlength hindex]
  dsimp only [bind, Except.bind]
  rw [Formula.evalIn_ofValuation hf]
  rfl

end Row

end Sentential
