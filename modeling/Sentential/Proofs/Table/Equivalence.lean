import Sentential.Proofs.Table.Agreement
import Sentential.Proofs.Table.Decision

/-!
# Equal tables are those of equivalent formulas

A table has finitely many rows, and there are many more ways to give values to variables. Still the
rows say all about a formula: each valuation has its row in the table, and the variables that are
not in the table do not matter to the formula. So two formulas have the same table just if they have
the same variables and the same value wherever all variables have values (`ofFormula_eq_iff`).
-/

namespace Sentential

/-- All variables have values. -/
def Environment.Total {ε : Type} [Environment ε] (values : ε) : Prop :=
  ∀ v, (value? values v).isSome = true

namespace Formula

/-- The formulas have the same value wherever all variables have values. -/
def Equivalent (f g : Formula) : Prop :=
  ∀ (ε : Type) [Environment ε] (values : ε), Environment.Total values →
    f.evalIn values = g.evalIn values

theorem exists_valuation {ε : Type} [Environment ε] {values : ε} (h : Environment.Total values) :
    ∃ env : Variable → Bool, ∀ f : Formula, f.evalIn values = .ok (f.eval env) := by
  refine ⟨fun v => (Environment.value? values v).get (h v), fun f => ?_⟩
  exact evalIn_eq_ok fun v _ => (Option.some_get (h v)).symm

theorem equivalent_iff {f g : Formula} :
    f.Equivalent g ↔ ∀ env : Variable → Bool, f.eval env = g.eval env := by
  constructor
  · intro h env
    have hsame := h _ env fun _ => rfl
    rw [evalIn_valuation, evalIn_valuation] at hsame
    exact Except.ok.inj hsame
  · intro h ε _ values htotal
    obtain ⟨env, hvalue⟩ := exists_valuation htotal
    rw [hvalue, hvalue, h env]

end Formula

namespace Table

variable {f g : Formula} {vs : List Variable}

/-- Over one list of variables, the tables of all valuations are equal just if the formulas are
equivalent. -/
theorem full_inj (hf : ∀ v ∈ f.leaves, v ∈ vs) (hg : ∀ v ∈ g.leaves, v ∈ vs) :
    full vs f = full vs g ↔ f.Equivalent g := by
  rw [Formula.equivalent_iff]
  constructor
  · intro h env
    have hrow := getElem?_full hf env
    rw [h, getElem?_full hg env] at hrow
    exact congrArg Row.result (Option.some.inj hrow).symm
  · intro h
    have hrow : Row.ofValuation vs f = Row.ofValuation vs g := by
      funext env
      unfold Row.ofValuation
      rw [h env]
    unfold full
    rw [hrow]

theorem full_vars_eq_iff : full f.vars f = full g.vars g ↔ f.vars = g.vars ∧ f.Equivalent g := by
  have hf := f.mem_vars_of_mem_leaves
  have hg := g.mem_vars_of_mem_leaves
  constructor
  · intro h
    have hvars : f.vars = g.vars := congrArg Table.vars h
    rw [hvars] at h hf
    exact ⟨hvars, (full_inj hf hg).mp h⟩
  · rintro ⟨hvars, h⟩
    rw [hvars] at hf ⊢
    exact (full_inj hf hg).mpr h

theorem ofFormula_of_le (h : f.vars.length ≤ maxVariables) : ofFormula f = .ok (full f.vars f) := by
  rw [ofFormula_eq, if_neg (Nat.not_lt.mpr h)]

theorem ofFormula_of_lt (h : maxVariables < f.vars.length) :
    ofFormula f = .error (.rejected (.tooManyVariables f.vars.length maxVariables)) := by
  rw [ofFormula_eq, if_pos h]

/-- A table, and a refusal as well, shows how many variables the formula has. -/
theorem length_vars_eq_of_ofFormula_eq (h : ofFormula f = ofFormula g) :
    f.vars.length = g.vars.length := by
  rcases Nat.lt_or_ge maxVariables f.vars.length with hf | hf
  · rcases Nat.lt_or_ge maxVariables g.vars.length with hg | hg
    · rw [ofFormula_of_lt hf, ofFormula_of_lt hg] at h
      injection h with h
      injection h with h
      exact (Rejection.tooManyVariables.inj h).1
    · rw [ofFormula_of_lt hf, ofFormula_of_le hg] at h
      cases h
  · rcases Nat.lt_or_ge maxVariables g.vars.length with hg | hg
    · rw [ofFormula_of_le hf, ofFormula_of_lt hg] at h
      cases h
    · rw [ofFormula_of_le hf, ofFormula_of_le hg] at h
      exact congrArg (·.vars.length) (Except.ok.inj h)

/-- **Tables decide equivalence.** Two formulas with not too many variables have the same table just
if they have the same variables and are equivalent. If one of them has too many, there is nothing to
compare but the refusals, which are the same just if both have too many, and as many. -/
theorem ofFormula_eq_iff :
    (∀ f g : Formula, f.vars.length ≤ maxVariables → g.vars.length ≤ maxVariables →
      (ofFormula f = ofFormula g ↔ f.vars = g.vars ∧ f.Equivalent g)) ∧
    ∀ f g : Formula, maxVariables < f.vars.length ∨ maxVariables < g.vars.length →
      (ofFormula f = ofFormula g ↔ ∃ n, n = f.vars.length ∧ n = g.vars.length ∧
        ofFormula f = .error (.rejected (.tooManyVariables n maxVariables)) ∧
        ofFormula g = .error (.rejected (.tooManyVariables n maxVariables))) := by
  constructor
  · intro f g hf hg
    rw [ofFormula_of_le hf, ofFormula_of_le hg, Except.ok.injEq, full_vars_eq_iff]
  · intro f g hlength
    constructor
    · intro h
      have hsame := length_vars_eq_of_ofFormula_eq h
      have hf : maxVariables < f.vars.length := by omega
      have hrefused := ofFormula_of_lt hf
      exact ⟨f.vars.length, rfl, hsame, hrefused, h ▸ hrefused⟩
    · rintro ⟨n, -, -, hf, hg⟩
      rw [hf, hg]

/-- `A → B` has the table of `∼A ∨ B` and not that of `B → A`, and seven variables are refused in
the same words, whatever joins them. -/
theorem ofFormula_eq_iff_implication :
    let a : Formula := .var ⟨'A', rfl⟩
    let b : Formula := .var ⟨'B', rfl⟩
    let others : List Variable :=
      [⟨'B', rfl⟩, ⟨'C', rfl⟩, ⟨'D', rfl⟩, ⟨'E', rfl⟩, ⟨'F', rfl⟩, ⟨'G', rfl⟩]
    let seven (c : Connective) : Formula := others.foldl (fun f v => .binary c f (.var v)) a
    (Formula.binary .implies a b).vars.length ≤ maxVariables ∧
      ofFormula (.binary .implies a b) = ofFormula (.binary .or (.not a) b) ∧
      ofFormula (.binary .implies a b) ≠ ofFormula (.binary .implies b a) ∧
      maxVariables < (seven .and).vars.length ∧
      ofFormula (seven .and) = ofFormula (seven .or) := by
  intro a b others seven
  have hlength : (Formula.binary .implies a b).vars.length ≤ maxVariables := by decide
  have hlength' : maxVariables < (seven .and).vars.length := by decide
  have hsame : (Formula.binary .implies a b).Equivalent (.binary .or (.not a) b) :=
    Formula.equivalent_iff.mpr fun env => rfl
  refine ⟨hlength, ?_, fun h => ?_, hlength', ?_⟩
  · exact (ofFormula_eq_iff.1 _ _ hlength (by decide)).mpr ⟨by decide, hsame⟩
  · obtain ⟨-, hequivalent⟩ := (ofFormula_eq_iff.1 _ _ hlength (by decide)).mp h
    have hvalue := Formula.equivalent_iff.mp hequivalent (fun v => v = ⟨'A', rfl⟩)
    exact absurd hvalue (by decide)
  · have hother : maxVariables < (seven .or).vars.length := by decide
    refine (ofFormula_eq_iff.2 _ _ (.inl hlength')).mpr ⟨7, rfl, rfl, ?_, ?_⟩
    · exact ofFormula_of_lt hlength'
    · exact ofFormula_of_lt hother

end Table

end Sentential
