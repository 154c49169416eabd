import Sentential.Proofs.Table.Generation

/-!
# The text and its formula have the same table

Generation counts variables among the tokens of a text, before these are parsed, and the table of a
formula counts the leaves. As parsing keeps the variables, a text that denotes a formula has the
table of this formula, or too many variables just as the formula has.
-/

namespace Sentential.Table

variable {o : Options} {text : String} {ts : List Token} {f : Formula}

/-- **The outcome for a text that denotes a formula** depends on the formula alone. -/
theorem ofText_of_parse (hscan : Token.scan o.alphabet text = .ok ts) (hparse : parse ts = .ok f) :
    ofText o text =
      if o.maxVariables < f.vars.length then
        .error (.rejected (.tooManyVariables f.vars.length o.maxVariables))
      else .ok (full f.vars f) := by
  have hvars := vars_eq_of_parse hparse
  unfold ofText
  by_cases hlength : o.maxVariables < f.vars.length
  · have h := Generation.tooManyVariables hscan (by rwa [hvars])
    rw [h.journal_eq, if_pos hlength, hvars]
  · have h := Generation.parsed hscan (by rwa [hvars, ← Nat.not_lt]) hparse
    rw [h.journal_eq, if_neg hlength]

theorem ofFormula_eq (f : Formula) :
    ofFormula f =
      if maxVariables < f.vars.length then
        .error (.rejected (.tooManyVariables f.vars.length maxVariables))
      else .ok (full f.vars f) := by
  unfold ofFormula
  rw [journalOfFormula_eq]
  split <;> rfl

theorem ofText_eq_ok_iff {t : Table} :
    ofText o text = .ok t ↔ ∃ ts f, Token.scan o.alphabet text = .ok ts ∧ parse ts = .ok f ∧
      f.vars.length ≤ o.maxVariables ∧ t = full f.vars f := by
  constructor
  · intro h
    obtain ⟨r, hr⟩ := Generation.exists_generation o text
    unfold ofText at h
    rw [hr.journal_eq] at h
    cases hr with
    | parsed hscan hlength hparse =>
      rw [vars_eq_of_parse hparse] at hlength
      exact ⟨_, _, hscan, hparse, hlength, (Except.ok.inj h).symm⟩
    | _ => cases h
  · rintro ⟨ts, f, hscan, hparse, hlength, rfl⟩
    rw [ofText_of_parse hscan hparse, if_neg (Nat.not_lt.mpr hlength)]

theorem ofText_ok_or_rejected (o : Options) (text : String) :
    (∃ t, ofText o text = .ok t) ∨ ∃ e, ofText o text = .error (.rejected e) := by
  obtain ⟨r, h⟩ := Generation.exists_generation o text
  unfold ofText
  rw [h.journal_eq]
  cases h with
  | parsed => exact .inl ⟨_, rfl⟩
  | _ => exact .inr ⟨_, rfl⟩

theorem ofFormula_eq_ok_iff {t : Table} :
    ofFormula f = .ok t ↔ f.vars.length ≤ maxVariables ∧ t = full f.vars f := by
  rw [ofFormula_eq]
  split
  · next h =>
    constructor
    · intro he
      cases he
    · rintro ⟨hle, -⟩
      omega
  · next h =>
    constructor
    · intro he
      exact ⟨Nat.not_lt.mp h, (Except.ok.inj he).symm⟩
    · rintro ⟨-, rfl⟩
      rfl

/-- The table was made from a text, with whatever options, or from a formula. -/
inductive Generated : Table → Prop
  | ofText {o : Options} {text : String} {t : Table} : ofText o text = .ok t → Generated t
  | ofFormula {f : Formula} {t : Table} : ofFormula f = .ok t → Generated t

/-- **A generated table** is that of all valuations of the variables of a formula, and there are not
too many of them. -/
theorem generated_iff {t : Table} :
    t.Generated ↔ ∃ f, f.vars.length ≤ maxVariables ∧ t = full f.vars f := by
  constructor
  · intro h
    cases h with
    | @ofText o _ _ h =>
      obtain ⟨ts, f, -, -, hlength, rfl⟩ := ofText_eq_ok_iff.mp h
      exact ⟨f, Nat.le_trans hlength (Generation.maxVariables_le o), rfl⟩
    | @ofFormula f _ h => exact ⟨f, ofFormula_eq_ok_iff.mp h⟩
  · rintro ⟨f, h⟩
    exact .ofFormula (ofFormula_eq_ok_iff.mpr h)

/-- **A text has the table of the formula that it denotes**, as a whole, or both are rejected for
the same number of variables. The variables of the tokens are those of the formula, so a text that
denotes a formula is never without variables. -/
theorem ofText_eq_ofFormula :
    (∀ (text : String) (ts : List Token) (f : Formula),
      Token.scan .full text = .ok ts → parse ts = .ok f →
        ofText .standard text = ofFormula f ∧
          ((∃ t, ofText .standard text = .ok t ∧ ofFormula f = .ok t) ∨
            ∃ n, ofText .standard text = .error (.rejected (.tooManyVariables n maxVariables)) ∧
              ofFormula f = .error (.rejected (.tooManyVariables n maxVariables)))) ∧
    ∀ (ts : List Token) (f : Formula), parse ts = .ok f →
      Token.vars ts = f.vars ∧ Token.vars ts ≠ [] := by
  constructor
  · intro text ts f hscan hparse
    have htext : ofText .standard text = _ := ofText_of_parse (o := .standard) hscan hparse
    have hmax : Options.standard.maxVariables = maxVariables := rfl
    rw [hmax] at htext
    rw [htext, ofFormula_eq]
    refine ⟨rfl, ?_⟩
    by_cases hlength : maxVariables < f.vars.length
    · rw [if_pos hlength]
      exact .inr ⟨f.vars.length, rfl, rfl⟩
    · rw [if_neg hlength]
      exact .inl ⟨full f.vars f, rfl, rfl⟩
  · intro ts f hparse
    rw [vars_eq_of_parse hparse]
    exact ⟨rfl, f.vars_ne_nil⟩

theorem ofText_eq_ofFormula_exclusive :
    ∃ ts f, Token.scan .full "B ⊻ ∼A" = .ok ts ∧ parse ts = .ok f ∧
      ofText .standard "B ⊻ ∼A" = ofFormula f ∧ Token.vars ts = f.vars := by
  have hscan : Token.scan .full "B ⊻ ∼A" =
      .ok [.var ⟨'B', rfl⟩, .op .xor, .not, .var ⟨'A', rfl⟩] := by decide +kernel
  have hparse : parse [.var ⟨'B', rfl⟩, .op .xor, .not, .var ⟨'A', rfl⟩] =
      .ok (.binary .xor (.var ⟨'B', rfl⟩) (.not (.var ⟨'A', rfl⟩))) := by decide +kernel
  exact ⟨_, _, hscan, hparse, (ofText_eq_ofFormula.1 _ _ _ hscan hparse).1,
    (ofText_eq_ofFormula.2 _ _ hparse).1⟩

end Sentential.Table
