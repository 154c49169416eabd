import Mathlib.Data.List.Perm.Subperm
import Sentential.Formula.Substitution
import Sentential.Proofs.Table.Enumeration
import Sentential.Proofs.Table.Equivalence

/-!
# Tables of renamed formulas

To rename the variables of a formula is to read it under other valuations: a valuation of the new
names, looked at through the renaming, is one of the old names. So the row of a valuation in the
table of the renamed formula is a renamed row of the table of the formula
(`Row.rename_ofValuation`). If names do not collide, there are as many rows in both tables, and the
rows of one are those of the other in some order (`perm_rename_full`). If names keep their order as
well, the rows do, and the columns of results are the same (`results_rename_full`).
-/

namespace Sentential

/-- The assignment with other variables in the place of its own. -/
def Assignment.rename (ρ : Variable → Variable) (a : Assignment) : Assignment :=
  ofList (a.toList.map fun (v, b) => (ρ v, b))

/-- The row with other variables in its assignment. -/
def Row.rename (ρ : Variable → Variable) (r : Row) : Row := ⟨r.assignment.rename ρ, r.result⟩

variable {f : Formula} {ρ : Variable → Variable} {env : Variable → Bool}

namespace Formula

theorem mem_vars_rename {w : Variable} : w ∈ (f.rename ρ).vars ↔ w ∈ f.vars.map ρ := by
  simp only [mem_vars, leaves_rename, List.mem_map]

theorem vars_rename_perm (h : ∀ v ∈ f.vars, ∀ w ∈ f.vars, ρ v = ρ w → v = w) :
    (f.rename ρ).vars.Perm (f.vars.map ρ) := by
  have hmap : (f.vars.map ρ).Nodup :=
    f.nodup_vars.map_on fun v hv w hw => h v hv w hw
  exact (List.perm_ext_iff_of_nodup (f.rename ρ).nodup_vars hmap).mpr fun _ => mem_vars_rename

theorem vars_rename (h : ∀ v ∈ f.vars, ∀ w ∈ f.vars, v < w → ρ v < ρ w) :
    (f.rename ρ).vars = f.vars.map ρ := by
  have hmap : (f.vars.map ρ).Pairwise (· < ·) :=
    List.pairwise_map.mpr (f.pairwise_vars.imp_of_mem fun hv hw => h _ hv _ hw)
  exact Variable.eq_of_mem_iff id (f.rename ρ).pairwise_vars hmap fun _ => mem_vars_rename

end Formula

/-! ### Rows -/

theorem Assignment.rename_ofValuation {vs : List Variable} (hvs : vs.Pairwise (· < ·)) :
    (ofValuation vs fun v => env (ρ v)).rename ρ = ofValuation (vs.map ρ) env := by
  unfold rename
  rw [toList_ofValuation hvs, List.map_map]
  unfold ofValuation
  rw [List.map_map]
  rfl

theorem Row.rename_ofValuation :
    (ofValuation f.vars f fun v => env (ρ v)).rename ρ =
      ofValuation (f.rename ρ).vars (f.rename ρ) env := by
  have hassignment : (Assignment.ofValuation f.vars fun v => env (ρ v)).rename ρ =
      Assignment.ofValuation (f.rename ρ).vars env := by
    rw [Assignment.rename_ofValuation f.pairwise_vars,
      Assignment.ofValuation_eq_of_mem_iff fun _ => Formula.mem_vars_rename]
  unfold ofValuation rename
  rw [hassignment, Formula.eval_rename]

namespace Table

theorem nodup_rows_full {vs : List Variable} (hvs : vs.Nodup) : (full vs f).rows.Nodup :=
  (nodup_assignments_full hvs).of_map

/-- **Names that do not collide** put the rows into another order at most. -/
theorem perm_rename_full (h : ∀ v ∈ f.vars, ∀ w ∈ f.vars, ρ v = ρ w → v = w) :
    (full (f.rename ρ).vars (f.rename ρ)).rows.Perm
      ((full f.vars f).rows.map (Row.rename ρ)) := by
  have hsize : (full (f.rename ρ).vars (f.rename ρ)).size = (full f.vars f).size := by
    rw [size_full, size_full, (Formula.vars_rename_perm h).length_eq, List.length_map]
  have hsubset : (full (f.rename ρ).vars (f.rename ρ)).rows ⊆
      (full f.vars f).rows.map (Row.rename ρ) := by
    intro r hr
    obtain ⟨env, rfl⟩ := (mem_rows_full (f.rename ρ).mem_vars_of_mem_leaves).mp hr
    have hrow : Row.ofValuation f.vars f (fun v => env (ρ v)) ∈ (full f.vars f).rows :=
      (mem_rows_full f.mem_vars_of_mem_leaves).mpr ⟨_, rfl⟩
    exact List.mem_map.mpr ⟨_, hrow, Row.rename_ofValuation⟩
  -- no row is missing, since there are as many rows and none of them is repeated
  refine (List.subperm_of_subset (nodup_rows_full (f.rename ρ).nodup_vars)
    hsubset).perm_of_length_le ?_
  rw [List.length_map]
  exact Nat.le_of_eq hsize.symm

theorem results_map_rename (rows : List Row) :
    (rows.map (Row.rename ρ)).map (·.result) = rows.map (·.result) := by
  rw [List.map_map]
  rfl

theorem valuationAt_map {vs : List Variable} (hvs : vs.Nodup) (hmap : (vs.map ρ).Nodup)
    (index : Nat) : ∀ v ∈ vs, valuationAt (vs.map ρ) index (ρ v) = valuationAt vs index v := by
  intro v hv
  obtain ⟨k, hk, rfl⟩ := List.getElem_of_mem hv
  have hk' : k < (vs.map ρ).length := by rwa [List.length_map]
  have h := valuationAt_getElem hmap index hk'
  rw [List.getElem_map] at h
  rw [h, List.length_map, valuationAt_getElem hvs index hk]

/-- **Names that keep their order** leave the results where they are. -/
theorem results_rename_full (h : ∀ v ∈ f.vars, ∀ w ∈ f.vars, v < w → ρ v < ρ w) :
    (full (f.rename ρ).vars (f.rename ρ)).results = (full f.vars f).results := by
  have hvars := Formula.vars_rename h
  have hmap : (f.vars.map ρ).Nodup := hvars ▸ (f.rename ρ).nodup_vars
  rw [hvars, results_full, results_full, List.length_map]
  refine List.map_congr_left fun index _ => ?_
  rw [Formula.eval_rename]
  exact f.eval_congr fun v hv =>
    valuationAt_map f.nodup_vars hmap index v (f.mem_vars_of_mem_leaves v hv)

/-! ### Answers that do not depend on the order of rows -/

theorem answers_of_perm {t t' : Table} (h : t'.results.Perm t.results) :
    t'.size = t.size ∧ t'.countTrue = t.countTrue ∧ t'.isTautology = t.isTautology ∧
      t'.isContradiction = t.isContradiction ∧ t'.isSatisfiable = t.isSatisfiable := by
  have hsat : t'.isSatisfiable = t.isSatisfiable := h.any_eq
  have hsize := h.length_eq
  rw [length_results, length_results] at hsize
  refine ⟨hsize, h.count_eq true, h.all_eq, ?_, hsat⟩
  unfold isContradiction
  rw [hsat]

/-- **Renaming variables.** A formula with a table has a table under other names as well. If the
names are in the order of the variables, it has them in the places of the variables, the same column
of results and the same bits. If the names only do not collide, its rows are those of the first
table, renamed and perhaps in another order, and it gives the same answers. -/
theorem ofFormula_rename (f : Formula) (ρ : Variable → Variable)
    (hlength : f.vars.length ≤ maxVariables) : ∃ t, ofFormula f = .ok t ∧
      ((∀ v ∈ f.vars, ∀ w ∈ f.vars, v < w → ρ v < ρ w) →
        ∃ t', ofFormula (f.rename ρ) = .ok t' ∧ t'.vars = f.vars.map ρ ∧
          t'.results = t.results ∧ t'.bits = t.bits) ∧
      ((∀ v ∈ f.vars, ∀ w ∈ f.vars, ρ v = ρ w → v = w) →
        ∃ t', ofFormula (f.rename ρ) = .ok t' ∧ t'.rows.Perm (t.rows.map (Row.rename ρ)) ∧
          t'.size = t.size ∧ t'.countTrue = t.countTrue ∧ t'.isTautology = t.isTautology ∧
          t'.isContradiction = t.isContradiction ∧ t'.isSatisfiable = t.isSatisfiable) := by
  refine ⟨full f.vars f, ofFormula_of_le hlength, fun h => ?_, fun h => ?_⟩
  · have hvars := Formula.vars_rename h
    have hresults := results_rename_full h
    have hle : (f.rename ρ).vars.length ≤ maxVariables := by rwa [hvars, List.length_map]
    refine ⟨_, ofFormula_of_le hle, hvars, hresults, ?_⟩
    unfold bits
    rw [hresults]
  · have hperm := perm_rename_full h
    have hle : (f.rename ρ).vars.length ≤ maxVariables := by
      rwa [(Formula.vars_rename_perm h).length_eq, List.length_map]
    refine ⟨_, ofFormula_of_le hle, hperm, answers_of_perm ?_⟩
    have hresults := hperm.map (·.result)
    rwa [results_map_rename] at hresults

/-- `A → C` has the bits of `B → D`, and `C → A` has its rows in another order. -/
theorem ofFormula_rename_implication :
    let f : Formula := .binary .implies (.var ⟨'A', rfl⟩) (.var ⟨'C', rfl⟩)
    let shifted : Variable → Variable := fun v => if v = ⟨'A', rfl⟩ then ⟨'B', rfl⟩ else ⟨'D', rfl⟩
    let swapped : Variable → Variable := fun v => if v = ⟨'A', rfl⟩ then ⟨'C', rfl⟩ else ⟨'A', rfl⟩
    f.vars.length ≤ maxVariables ∧ ∃ t, ofFormula f = .ok t ∧
      (∀ v ∈ f.vars, ∀ w ∈ f.vars, v < w → shifted v < shifted w) ∧
      (∃ t', ofFormula (f.rename shifted) = .ok t' ∧ t'.vars = [⟨'B', rfl⟩, ⟨'D', rfl⟩] ∧
        t'.bits = t.bits) ∧
      (∀ v ∈ f.vars, ∀ w ∈ f.vars, swapped v = swapped w → v = w) ∧
      ∃ t', ofFormula (f.rename swapped) = .ok t' ∧ t'.results ≠ t.results ∧
        t'.rows.Perm (t.rows.map (Row.rename swapped)) ∧ t'.countTrue = t.countTrue := by
  intro f shifted swapped
  have hlength : f.vars.length ≤ maxVariables := by decide
  have hshifted : ∀ v ∈ f.vars, ∀ w ∈ f.vars, v < w → shifted v < shifted w := by decide
  have hswapped : ∀ v ∈ f.vars, ∀ w ∈ f.vars, swapped v = swapped w → v = w := by decide
  obtain ⟨t, ht, hmono, -⟩ := ofFormula_rename f shifted hlength
  obtain ⟨u, hu, -, hinj⟩ := ofFormula_rename f swapped hlength
  obtain rfl : t = u := Except.ok.inj (ht.symm.trans hu)
  obtain ⟨t', ht', hvars, -, hbits⟩ := hmono hshifted
  obtain ⟨u', hu', hperm, -, hcount, -⟩ := hinj hswapped
  refine ⟨hlength, t, ht, hshifted, ⟨t', ht', hvars, hbits⟩, hswapped, u', hu', ?_, hperm, hcount⟩
  obtain rfl := (ofFormula_eq_ok_iff.mp ht).2
  obtain rfl := (ofFormula_eq_ok_iff.mp hu').2
  decide +kernel

end Table

end Sentential
