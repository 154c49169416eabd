import Mathlib.Data.Set.Card
import Sentential.Proofs.Table.Enumeration
import Sentential.Proofs.Table.Equivalence

/-!
# What a table says about its formula

The questions that can be asked of a table look at its rows alone. Since each valuation has its row,
the answers are about all ways to give values to variables: a table is a tautology just if its
formula is true wherever all variables have values, and it is satisfiable just if the formula is
true somewhere. The models are the assignments to the variables under which the formula is true, in
the order of their numbers, and there are as many of them as rows with the value true.
-/

namespace Sentential

namespace Formula

variable {f : Formula} {b : Bool}

/-- The formula has the value wherever all variables have values. -/
def Always (f : Formula) (b : Bool) : Prop :=
  ∀ (ε : Type) [Environment ε] (values : ε), Environment.Total values → f.evalIn values = .ok b

/-- There is a place where all variables have values and the formula has this one. -/
def Sometimes (f : Formula) (b : Bool) : Prop :=
  ∃ (ε : Type) (_ : Environment ε) (values : ε), Environment.Total values ∧ f.evalIn values = .ok b

theorem always_iff : f.Always b ↔ ∀ env : Variable → Bool, f.eval env = b := by
  constructor
  · intro h env
    have hvalue := h _ env fun _ => rfl
    rw [evalIn_valuation] at hvalue
    exact Except.ok.inj hvalue
  · intro h ε _ values htotal
    obtain ⟨env, hvalue⟩ := exists_valuation htotal
    rw [hvalue, h env]

/-- A formula has a value wherever all variables have values, so it is not always true and always
false. -/
theorem Always.not_always (h : f.Always b) : ¬ f.Always (!b) := by
  intro hnot
  have hvalue := always_iff.mp h fun _ => true
  rw [always_iff.mp hnot fun _ => true] at hvalue
  exact Bool.not_ne_self b hvalue

theorem sometimes_iff : f.Sometimes b ↔ ∃ env : Variable → Bool, f.eval env = b := by
  constructor
  · rintro ⟨ε, _, values, htotal, h⟩
    obtain ⟨env, hvalue⟩ := exists_valuation htotal
    rw [hvalue] at h
    exact ⟨env, Except.ok.inj h⟩
  · rintro ⟨env, h⟩
    exact ⟨_, inferInstance, env, fun _ => rfl, by rw [evalIn_valuation, h]⟩

end Formula

namespace Table

/-- What is answered about the table is true of the formula. -/
structure Analyses (t : Table) (f : Formula) : Prop where
  tautology : t.isTautology = true ↔ f.Always true
  contradiction : t.isContradiction = true ↔ f.Always false
  satisfiable : t.isSatisfiable = true ↔ f.Sometimes true
  mem_models : ∀ a, a ∈ t.models ↔ a.Binds f.vars ∧ f.evalIn a = .ok true
  nodup_models : t.models.Nodup
  ascending_models : t.models.Pairwise fun a b => a.number t.vars < b.number t.vars
  countTrue_eq : t.countTrue = t.models.length
  ncard_eq : {a : Assignment | a.Binds f.vars ∧ f.evalIn a = .ok true}.ncard = t.countTrue
  contingent : 0 < t.countTrue ∧ t.countTrue < t.size ↔
    t.isTautology = false ∧ t.isContradiction = false

/-! ### Rows with the value true -/

variable {t : Table} {a : Assignment}

theorem isTautology_iff : t.isTautology = true ↔ ∀ r ∈ t.rows, r.result = true := by
  simp [isTautology, results]

theorem isSatisfiable_iff : t.isSatisfiable = true ↔ ∃ r ∈ t.rows, r.result = true := by
  simp [isSatisfiable, results]

theorem mem_models_iff : a ∈ t.models ↔ ∃ r ∈ t.rows, r.result = true ∧ r.assignment = a := by
  simp [models, and_assoc]

theorem countTrue_eq_length_models (t : Table) : t.countTrue = t.models.length := by
  unfold countTrue results models
  rw [List.length_map, ← List.countP_eq_length_filter, List.count_eq_countP, List.countP_map]
  refine List.countP_congr fun r _ => ?_
  simp

theorem countTrue_pos_iff : 0 < t.countTrue ↔ t.isSatisfiable = true := by
  unfold countTrue isSatisfiable
  rw [List.count_pos_iff]
  simp

theorem countTrue_lt_iff : t.countTrue < t.size ↔ t.isTautology = false := by
  unfold countTrue isTautology
  rw [← length_results, List.count_lt_length_iff]
  simp

/-! ### The table of all valuations -/

variable {vs : List Variable} {f : Formula}

theorem isTautology_full (hf : ∀ v ∈ f.leaves, v ∈ vs) :
    (full vs f).isTautology = true ↔ ∀ env, f.eval env = true := by
  rw [isTautology_iff]
  simp only [mem_rows_full hf]
  constructor
  · intro h env
    exact h _ ⟨env, rfl⟩
  · rintro h _ ⟨env, rfl⟩
    exact h env

theorem isSatisfiable_full (hf : ∀ v ∈ f.leaves, v ∈ vs) :
    (full vs f).isSatisfiable = true ↔ ∃ env, f.eval env = true := by
  rw [isSatisfiable_iff]
  simp only [mem_rows_full hf]
  constructor
  · rintro ⟨_, ⟨env, rfl⟩, h⟩
    exact ⟨env, h⟩
  · rintro ⟨env, h⟩
    exact ⟨_, ⟨env, rfl⟩, h⟩

theorem isContradiction_full (hf : ∀ v ∈ f.leaves, v ∈ vs) :
    (full vs f).isContradiction = true ↔ ∀ env, f.eval env = false := by
  have hsat := isSatisfiable_full hf
  unfold isContradiction
  rw [Bool.not_eq_true', Bool.eq_false_iff, Ne, hsat]
  simp

theorem mem_models_full (hf : ∀ v ∈ f.leaves, v ∈ vs) :
    a ∈ (full vs f).models ↔ a.Binds vs ∧ f.evalIn a = .ok true := by
  rw [mem_models_iff]
  simp only [mem_rows_full hf]
  constructor
  · rintro ⟨_, ⟨env, rfl⟩, h, rfl⟩
    have hvalue : f.eval env = true := h
    refine ⟨Assignment.binds_ofValuation vs env, ?_⟩
    rw [← hvalue]
    exact Formula.evalIn_ofValuation hf
  · rintro ⟨hbinds, h⟩
    obtain ⟨env, rfl⟩ := Assignment.binds_iff.mp hbinds
    rw [Formula.evalIn_ofValuation hf] at h
    exact ⟨_, ⟨env, rfl⟩, Except.ok.inj h, rfl⟩

theorem pairwise_models_full (hvs : vs.Nodup) :
    (full vs f).models.Pairwise fun a b => a.number vs < b.number vs :=
  List.pairwise_map.mpr ((pairwise_number_full hvs).filter _)

theorem analyses_full_vars (f : Formula) : (full f.vars f).Analyses f := by
  have hf := f.mem_vars_of_mem_leaves
  have hvs := f.nodup_vars
  have hascending := pairwise_models_full (f := f) hvs
  have hnodup := Assignment.nodup_of_pairwise_number hascending
  have hset : {a : Assignment | a.Binds f.vars ∧ f.evalIn a = .ok true} =
      ↑(full f.vars f).models.toFinset := by
    ext a
    simp [mem_models_full hf]
  have hcount := countTrue_eq_length_models (full f.vars f)
  have hcontradiction : (full f.vars f).isContradiction = false ↔
      0 < (full f.vars f).countTrue := by
    rw [countTrue_pos_iff, isContradiction, Bool.not_eq_false']
  exact {
    tautology := by rw [isTautology_full hf, Formula.always_iff]
    contradiction := by rw [isContradiction_full hf, Formula.always_iff]
    satisfiable := by rw [isSatisfiable_full hf, Formula.sometimes_iff]
    mem_models := fun _ => mem_models_full hf
    nodup_models := hnodup
    ascending_models := hascending
    countTrue_eq := hcount
    ncard_eq := by
      rw [hset, Set.ncard_coe_finset, List.toFinset_card_of_nodup hnodup, hcount]
    contingent := by rw [countTrue_lt_iff, hcontradiction, and_comm] }

/-- **The table of a formula answers for the formula**, and what it answers is about all
environments in which the variables have values, as many as these are. -/
theorem analyses_of_ofFormula (f : Formula) (t : Table) (h : ofFormula f = .ok t) :
    t.Analyses f := by
  obtain ⟨-, rfl⟩ := ofFormula_eq_ok_iff.mp h
  exact analyses_full_vars f

/-- The five models of `A ∧ B ∨ C` show that it is true somewhere and not everywhere. -/
theorem analyses_disjunction :
    let f : Formula :=
      .binary .or (.binary .and (.var ⟨'A', rfl⟩) (.var ⟨'B', rfl⟩)) (.var ⟨'C', rfl⟩)
    ∃ t, ofFormula f = .ok t ∧ t.Analyses f ∧ t.models.length = 5 ∧ f.Sometimes true ∧
      ¬ f.Always true := by
  intro f
  have h : ofFormula f = .ok (full f.vars f) := ofFormula_eq_ok_iff.mpr ⟨by decide, rfl⟩
  have ht := analyses_of_ofFormula f _ h
  refine ⟨_, h, ht, by decide +kernel, ?_, fun hall => ?_⟩
  · exact ht.satisfiable.mp (by decide +kernel)
  · exact absurd (ht.tautology.mpr hall) (by decide +kernel)

end Table

end Sentential
