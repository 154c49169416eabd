import Sentential.Proofs.Table.Generation

/-!
# What comes of a text

The outcome of generation can be told from the characters of the text, as long as these are not all
readable or there are no letters or too many among them; then it does not matter whether the tokens
make a formula. Otherwise it is decided by what parsing says of the tokens. There is one statement
for each outcome (`ofText_eq_blank_iff` and the following), and together they are
`ofText_outcome`.
-/

namespace Sentential.Table

variable {o : Options} {text : String}

theorem ofText_eq_iff {out : Except Failure Table} :
    ofText o text = out ↔ ∃ events, Generation o text ⟨events, out⟩ := by
  unfold ofText
  constructor
  · rintro rfl
    exact ⟨(journalOfText o text).events, Generation.generation_iff.mpr rfl⟩
  · rintro ⟨events, h⟩
    rw [h.journal_eq]

theorem ofText_eq_blank_iff :
    ofText o text = .error (.rejected .blank) ↔ ∀ c ∈ text.toList, Text.isBlank c = true := by
  rw [ofText_eq_iff, ← Text.trim_eq_nil_iff]
  constructor
  · rintro ⟨_, h⟩
    cases h with
    | blank h => exact h
  · intro h
    exact ⟨[], .blank h⟩

theorem ofText_eq_unreadable_iff {e : UnknownSymbol} :
    ofText o text = .error (.rejected (.unreadable e)) ↔
      Token.FirstUnreadable o.alphabet text.toList e := by
  rw [ofText_eq_iff, ← Token.scan_eq_error_iff]
  constructor
  · rintro ⟨_, h⟩
    cases h with
    | unreadable _ h => exact h
  · intro h
    have hblank : Text.trim text.toList ≠ [] := by
      rw [Ne, Generation.trim_eq_nil_iff_scan (a := o.alphabet), h]
      exact fun h => nomatch h
    exact ⟨[], .unreadable hblank h⟩

theorem ofText_eq_noVariables_iff :
    ofText o text = .error (.rejected .noVariables) ↔
      (∃ c ∈ text.toList, Text.isBlank c = false) ∧
        (∀ c ∈ text.toList, Token.Readable o.alphabet c) ∧
        Token.letters o.alphabet text.toList = ∅ := by
  have hsome : (∃ c ∈ text.toList, Text.isBlank c = false) ↔ Text.trim text.toList ≠ [] := by
    rw [Ne, Text.trim_eq_nil_iff]
    simp
  rw [ofText_eq_iff, hsome, ← Token.exists_scan_iff]
  constructor
  · rintro ⟨_, h⟩
    cases h with
    | noVariables hblank hscan hvars =>
      have hspells := Token.scan_eq_ok_iff.mp hscan
      exact ⟨hblank, ⟨_, hscan⟩, (Token.vars_eq_nil_iff hspells).mp hvars⟩
  · rintro ⟨hblank, ⟨ts, hscan⟩, hletters⟩
    have hspells := Token.scan_eq_ok_iff.mp hscan
    exact ⟨_, .noVariables hblank hscan ((Token.vars_eq_nil_iff hspells).mpr hletters)⟩

theorem ofText_eq_tooManyVariables_iff {n k : Nat} :
    ofText o text = .error (.rejected (.tooManyVariables n k)) ↔
      (∀ c ∈ text.toList, Token.Readable o.alphabet c) ∧
        n = (Token.letters o.alphabet text.toList).card ∧ k = o.maxVariables ∧
        o.maxVariables < (Token.letters o.alphabet text.toList).card := by
  rw [ofText_eq_iff, ← Token.exists_scan_iff]
  constructor
  · rintro ⟨_, h⟩
    cases h with
    | tooManyVariables hscan hlength =>
      have hcard := Token.length_vars_of_spells (Token.scan_eq_ok_iff.mp hscan)
      rw [hcard] at hlength
      exact ⟨⟨_, hscan⟩, hcard, rfl, hlength⟩
  · rintro ⟨⟨ts, hscan⟩, rfl, rfl, hlength⟩
    have hcard := Token.length_vars_of_spells (Token.scan_eq_ok_iff.mp hscan)
    rw [← hcard] at hlength ⊢
    exact ⟨_, .tooManyVariables hscan hlength⟩

theorem ofText_eq_unparsable_iff {e : ParseError} :
    ofText o text = .error (.rejected (.unparsable e)) ↔
      (Token.letters o.alphabet text.toList).Nonempty ∧
        (Token.letters o.alphabet text.toList).card ≤ o.maxVariables ∧
        ∃ ts, Token.scan o.alphabet text = .ok ts ∧ parse ts = .error e := by
  rw [ofText_eq_iff]
  constructor
  · rintro ⟨_, h⟩
    cases h with
    | unparsable hscan hvars hlength hparse =>
      have hspells := Token.scan_eq_ok_iff.mp hscan
      rw [Token.vars_ne_nil_iff hspells] at hvars
      rw [Token.length_vars_of_spells hspells] at hlength
      exact ⟨hvars, hlength, _, hscan, hparse⟩
  · rintro ⟨hvars, hlength, ts, hscan, hparse⟩
    have hspells := Token.scan_eq_ok_iff.mp hscan
    rw [← Token.vars_ne_nil_iff hspells] at hvars
    rw [← Token.length_vars_of_spells hspells] at hlength
    exact ⟨_, .unparsable hscan hvars hlength hparse⟩

theorem exists_ofText_eq_ok_iff :
    (∃ t, ofText o text = .ok t) ↔
      (Token.letters o.alphabet text.toList).Nonempty ∧
        (Token.letters o.alphabet text.toList).card ≤ o.maxVariables ∧
        ∃ ts f, Token.scan o.alphabet text = .ok ts ∧ parse ts = .ok f := by
  simp only [ofText_eq_iff]
  constructor
  · rintro ⟨_, _, h⟩
    cases h with
    | @parsed ts f hscan hlength hparse =>
      have hspells := Token.scan_eq_ok_iff.mp hscan
      have hvars : Token.vars ts ≠ [] := vars_eq_of_parse hparse ▸ f.vars_ne_nil
      rw [Token.vars_ne_nil_iff hspells] at hvars
      rw [Token.length_vars_of_spells hspells] at hlength
      exact ⟨hvars, hlength, ts, f, hscan, hparse⟩
  · rintro ⟨-, hlength, ts, f, hscan, hparse⟩
    rw [← Token.length_vars_of_spells (Token.scan_eq_ok_iff.mp hscan)] at hlength
    exact ⟨_, _, .parsed hscan hlength hparse⟩

/-- A text of which there is nothing to parse is blank, and rejected as such. -/
theorem ofText_ne_noTokens : ofText o text ≠ .error (.rejected (.unparsable .noTokens)) := by
  rw [Ne, ofText_eq_iff]
  rintro ⟨_, h⟩
  cases h with
  | unparsable _ hvars _ hparse =>
    rw [parse_eq_noTokens_iff.mp hparse] at hvars
    exact hvars rfl

theorem ofText_eq_blank_iff_scan :
    ofText o text = .error (.rejected .blank) ↔ Token.scan o.alphabet text = .ok [] := by
  rw [ofText_eq_blank_iff, ← Text.trim_eq_nil_iff, Generation.trim_eq_nil_iff_scan]

/-- **The outcome of generation**, for each text and all options. A text of blanks is blank; else
the first unreadable character is reported; else a text without letters has no variables; else too
many letters are too many variables; else the outcome is that of parsing. Parsing never finds that
there are no tokens, since the blank texts are those without tokens. -/
theorem ofText_outcome (o : Options) (text : String) :
    (ofText o text = .error (.rejected .blank) ↔ ∀ c ∈ text.toList, Text.isBlank c = true) ∧
    (∀ e, ofText o text = .error (.rejected (.unreadable e)) ↔
      Token.FirstUnreadable o.alphabet text.toList e) ∧
    (ofText o text = .error (.rejected .noVariables) ↔
      (∃ c ∈ text.toList, Text.isBlank c = false) ∧
        (∀ c ∈ text.toList, Token.Readable o.alphabet c) ∧
        Token.letters o.alphabet text.toList = ∅) ∧
    (∀ n k, ofText o text = .error (.rejected (.tooManyVariables n k)) ↔
      (∀ c ∈ text.toList, Token.Readable o.alphabet c) ∧
        n = (Token.letters o.alphabet text.toList).card ∧ k = o.maxVariables ∧
        o.maxVariables < (Token.letters o.alphabet text.toList).card) ∧
    (∀ e, ofText o text = .error (.rejected (.unparsable e)) ↔
      (Token.letters o.alphabet text.toList).Nonempty ∧
        (Token.letters o.alphabet text.toList).card ≤ o.maxVariables ∧
        ∃ ts, Token.scan o.alphabet text = .ok ts ∧ parse ts = .error e) ∧
    ((∃ t, ofText o text = .ok t) ↔
      (Token.letters o.alphabet text.toList).Nonempty ∧
        (Token.letters o.alphabet text.toList).card ≤ o.maxVariables ∧
        ∃ ts f, Token.scan o.alphabet text = .ok ts ∧ parse ts = .ok f) ∧
    ofText o text ≠ .error (.rejected (.unparsable .noTokens)) ∧
    (ofText o text = .error (.rejected .blank) ↔ Token.scan o.alphabet text = .ok []) :=
  ⟨ofText_eq_blank_iff, fun _ => ofText_eq_unreadable_iff, ofText_eq_noVariables_iff,
    fun _ _ => ofText_eq_tooManyVariables_iff, fun _ => ofText_eq_unparsable_iff,
    exists_ofText_eq_ok_iff, ofText_ne_noTokens, ofText_eq_blank_iff_scan⟩

end Sentential.Table
