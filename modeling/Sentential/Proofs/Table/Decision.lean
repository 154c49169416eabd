import Sentential.Proofs.Table.Generation

/-!
# Tables decide their formulas

To look a valuation up in a table is to go to the row with its number (`valuationIndex`). A table
decides a formula if this row exists for every valuation, binds the variables of the table as the
valuation does, and has the result true just if the formula holds (`Table.Decides`). The table with
a row for each valuation decides the formula, whatever its variables are, as long as all leaves are
among them; the tables that are generated are of this kind.
-/

namespace Sentential.Table

/-- The row with the number of a valuation has this valuation, restricted to the variables of the
table, and the truth of the formula under it. -/
def Decides (t : Table) (f : Formula) : Prop :=
  ∀ env : Variable → Bool, valuationIndex t.vars env < t.size ∧
    ∃ r, t.rows[valuationIndex t.vars env]? = some r ∧
      (∀ v, r.assignment.get? v = if v ∈ t.vars then some (env v) else none) ∧
      (r.result = true ↔ f.Holds (env · = true))

variable {vs : List Variable} {f : Formula}

theorem getElem?_full (hf : ∀ v ∈ f.leaves, v ∈ vs) (env : Variable → Bool) :
    (full vs f).rows[valuationIndex vs env]? = some (Row.ofValuation vs f env) := by
  have hlt : valuationIndex vs env < rowCount vs.length := valuationIndex_lt env vs
  have hrow : Row.ofValuation vs f (valuationAt vs (valuationIndex vs env)) =
      Row.ofValuation vs f env :=
    Row.ofValuation_congr hf fun _ hv => valuationAt_valuationIndex hv
  unfold full
  rw [List.getElem?_map, List.getElem?_range hlt, Option.map_some, hrow]

theorem decides_full (hf : ∀ v ∈ f.leaves, v ∈ vs) : (full vs f).Decides f := by
  intro env
  refine ⟨?_, Row.ofValuation vs f env, getElem?_full hf env, ?_, ?_⟩
  · rw [size_full]
    exact valuationIndex_lt env vs
  · exact Assignment.get?_ofValuation vs env
  · exact f.eval_eq_true_iff env

theorem decides_full_vars (f : Formula) : (full f.vars f).Decides f :=
  decides_full f.mem_vars_of_mem_leaves

/-- **Generated tables decide their formulas**: the one that the text denotes, if the table comes
from a text, or the one that the table was asked for. -/
theorem decides_of_generated :
    (∀ (o : Options) (text : String) (t : Table), ofText o text = .ok t →
      ∃ ts f, Token.scan o.alphabet text = .ok ts ∧ parse ts = .ok f ∧ t.Decides f) ∧
    ∀ (f : Formula) (t : Table), ofFormula f = .ok t → t.Decides f := by
  constructor
  · intro o text t h
    obtain ⟨r, hr⟩ := Generation.exists_generation o text
    unfold ofText at h
    rw [hr.journal_eq] at h
    cases hr with
    | parsed hscan _ hparse =>
      cases h
      exact ⟨_, _, hscan, hparse, decides_full_vars _⟩
    | _ => cases h
  · intro f t h
    unfold ofFormula at h
    rw [journalOfFormula_eq] at h
    by_cases hlength : maxVariables < f.vars.length
    · rw [if_pos hlength] at h
      cases h
    · rw [if_neg hlength] at h
      cases h
      exact decides_full_vars f

theorem decides_implication :
    ∃ t ts f, ofText .standard "A → B" = .ok t ∧
      Token.scan (Options.standard).alphabet "A → B" = .ok ts ∧ parse ts = .ok f ∧ t.Decides f := by
  have h : ofText .standard "A → B" = .ok (full [⟨'A', rfl⟩, ⟨'B', rfl⟩]
      (.binary .implies (.var ⟨'A', rfl⟩) (.var ⟨'B', rfl⟩))) := by decide +kernel
  obtain ⟨ts, f, hscan, hparse, hdecides⟩ := decides_of_generated.1 _ _ _ h
  exact ⟨_, ts, f, h, hscan, hparse, hdecides⟩

end Sentential.Table
