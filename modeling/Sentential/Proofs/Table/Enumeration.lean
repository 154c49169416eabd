import Sentential.Proofs.Assignment.Bindings
import Sentential.Proofs.Table.Agreement
import Sentential.Proofs.Table.Decision

/-!
# Tables enumerate assignments

The rows of a generated table are a binary counter over its variables: the row of index `i` gives
the `k`-th of `n` variables the digit of `i` for `2 ^ (n - 1 - k)`. Counting from zero to the last
row comes by each assignment to the variables once (`mem_rows_full`, `pairwise_number_full`), so no
two rows have the same assignment and none is missing. `Table.Enumerates` puts together what holds
of such a table; it does not matter whether the table was made from a text or from a formula.
-/

namespace Sentential.Table

/-- The rows of the table are the assignments to the variables of the formula, in the order of a
binary counter, and each has the value of the formula under its assignment. An assignment lists its
values in the order of the variables of the table. -/
structure Enumerates (t : Table) (f : Formula) : Prop where
  vars_eq : t.vars = f.vars
  one_le_length : 1 ≤ t.vars.length
  length_le : t.vars.length ≤ maxVariables
  ascending : t.vars.Pairwise (· < ·)
  size_eq : t.size = 2 ^ t.vars.length
  binds : ∀ r ∈ t.rows, r.assignment.Binds t.vars
  columns : ∀ r ∈ t.rows, r.assignment.toList.map (·.1) = t.vars
  digit : ∀ (i k : Nat) (hi : i < t.rows.length) (hk : k < t.vars.length),
    t.rows[i].assignment.get? t.vars[k] = some (i.testBit (t.vars.length - 1 - k))
  distinct : (t.rows.map (·.assignment)).Nodup
  exhaustive : ∀ a : Assignment, a.Binds t.vars → a ∈ t.rows.map (·.assignment)
  value : ∀ r ∈ t.rows, f.evalIn r.assignment = .ok r.result

variable {vs : List Variable} {f : Formula}

/-! ### The rows of the table of all valuations -/

theorem getElem_rows_full {i : Nat} (hi : i < (full vs f).rows.length) :
    (full vs f).rows[i] = Row.ofValuation vs f (valuationAt vs i) := by
  simp [full]

theorem results_full : (full vs f).results =
    (List.range (rowCount vs.length)).map fun index => f.eval (valuationAt vs index) :=
  List.map_map

/-- **The rows are those of the valuations**, and each valuation has its row. -/
theorem mem_rows_full (hf : ∀ v ∈ f.leaves, v ∈ vs) {r : Row} :
    r ∈ (full vs f).rows ↔ ∃ env, r = Row.ofValuation vs f env := by
  constructor
  · intro hr
    obtain ⟨index, -, he⟩ := List.mem_map.mp hr
    exact ⟨valuationAt vs index, he.symm⟩
  · rintro ⟨env, rfl⟩
    exact List.mem_of_getElem? (getElem?_full hf env)

theorem mem_assignments_full (hf : ∀ v ∈ f.leaves, v ∈ vs) {a : Assignment} :
    a ∈ (full vs f).rows.map (·.assignment) ↔ a.Binds vs := by
  simp only [List.mem_map, mem_rows_full hf, Assignment.binds_iff]
  constructor
  · rintro ⟨_, ⟨env, rfl⟩, rfl⟩
    exact ⟨env, rfl⟩
  · rintro ⟨env, rfl⟩
    exact ⟨_, ⟨env, rfl⟩, rfl⟩

theorem pairwise_number_full (hvs : vs.Nodup) :
    (full vs f).rows.Pairwise fun r s => r.assignment.number vs < s.assignment.number vs := by
  have hnumber : ∀ index ∈ List.range (rowCount vs.length),
      (Row.ofValuation vs f (valuationAt vs index)).assignment.number vs = index := fun index h =>
    Assignment.number_ofValuation_valuationAt hvs (List.mem_range.mp h)
  refine List.pairwise_map.mpr (List.pairwise_lt_range.imp_of_mem fun {i j} hi hj hlt => ?_)
  rw [hnumber i hi, hnumber j hj]
  exact hlt

theorem nodup_assignments_full (hvs : vs.Nodup) :
    ((full vs f).rows.map (·.assignment)).Nodup :=
  Assignment.nodup_of_pairwise_number (List.pairwise_map.mpr (pairwise_number_full hvs))

theorem digit_full (hvs : vs.Nodup) {i k : Nat} (hi : i < (full vs f).rows.length)
    (hk : k < vs.length) :
    (full vs f).rows[i].assignment.get? vs[k] = some (i.testBit (vs.length - 1 - k)) := by
  have hget := Assignment.get?_ofValuation vs (valuationAt vs i) vs[k]
  rw [if_pos (List.getElem_mem hk), valuationAt_getElem hvs i hk] at hget
  rw [getElem_rows_full]
  exact hget

theorem value_full (hf : ∀ v ∈ f.leaves, v ∈ vs) :
    ∀ r ∈ (full vs f).rows, f.evalIn r.assignment = .ok r.result := by
  intro r hr
  obtain ⟨env, rfl⟩ := (mem_rows_full hf).mp hr
  exact Formula.evalIn_ofValuation hf

/-! ### Generated tables -/

theorem enumerates_full_vars (h : f.vars.length ≤ maxVariables) : (full f.vars f).Enumerates f := by
  have hf := f.mem_vars_of_mem_leaves
  have hvs := f.nodup_vars
  have hbinds : ∀ r ∈ (full f.vars f).rows, r.assignment.Binds f.vars := fun r hr =>
    (mem_assignments_full hf).mp (List.mem_map_of_mem hr)
  exact {
    vars_eq := rfl
    one_le_length := List.length_pos_of_ne_nil f.vars_ne_nil
    length_le := h
    ascending := f.pairwise_vars
    size_eq := size_full
    binds := hbinds
    columns := fun r hr => (hbinds r hr).map_fst f.pairwise_vars
    digit := fun _ _ hi hk => digit_full hvs hi hk
    distinct := nodup_assignments_full hvs
    exhaustive := fun _ ha => (mem_assignments_full hf).mpr ha
    value := value_full hf }

/-- **Generated tables enumerate assignments.** From a text with whatever options, and from a
formula, a table has between one and six variables in ascending order, no more than the options
allow, and for each assignment to them one row, at the place that the values along the variables
spell in binary. -/
theorem enumerates_of_generated :
    (∀ (o : Options) (text : String) (t : Table), ofText o text = .ok t →
      t.vars.length ≤ o.maxVariables ∧
        ∃ ts f, Token.scan o.alphabet text = .ok ts ∧ parse ts = .ok f ∧ t.Enumerates f) ∧
    ∀ (f : Formula) (t : Table), ofFormula f = .ok t → t.Enumerates f := by
  constructor
  · intro o text t h
    obtain ⟨ts, f, hscan, hparse, hlength, rfl⟩ := ofText_eq_ok_iff.mp h
    have hmax : f.vars.length ≤ maxVariables :=
      Nat.le_trans hlength (Generation.maxVariables_le o)
    exact ⟨hlength, ts, f, hscan, hparse, enumerates_full_vars hmax⟩
  · intro f t h
    obtain ⟨hlength, rfl⟩ := ofFormula_eq_ok_iff.mp h
    exact enumerates_full_vars hlength

/-- The variables of `D → A` are enumerated in ascending order, with a limit that is larger than a
table allows. -/
theorem enumerates_reversed_implication :
    let f : Formula := .binary .implies (.var ⟨'D', rfl⟩) (.var ⟨'A', rfl⟩)
    (∃ t, ofText ⟨.classic, 9⟩ "D → A" = .ok t ∧ ∃ ts g, parse ts = .ok g ∧ t.Enumerates g) ∧
      ∃ t, ofFormula f = .ok t ∧ t.Enumerates f := by
  intro f
  have htext : ofText ⟨.classic, 9⟩ "D → A" = .ok (full [⟨'A', rfl⟩, ⟨'D', rfl⟩] f) := by
    decide +kernel
  have hformula : ofFormula f = .ok (full f.vars f) := ofFormula_eq_ok_iff.mpr ⟨by decide, rfl⟩
  obtain ⟨-, ts, g, -, hparse, hg⟩ := enumerates_of_generated.1 _ _ _ htext
  exact ⟨⟨_, htext, ts, g, hparse, hg⟩, _, hformula, enumerates_of_generated.2 _ _ hformula⟩

end Sentential.Table
