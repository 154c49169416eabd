import Sentential.Proofs.Reading.Parse
import Sentential.Proofs.Table.Valuation
import Sentential.Proofs.Token.Scan
import Sentential.Table.Generate

/-!
# How a table comes about

A table that can be filled has one row for each valuation of its variables (`Table.full`), and
filling it notes each row and then the end (`Table.tabulate_eq`). `Generation` lists the ways in
which generation from a text can go: what the text has to be like, what is noted and what comes of
it. They are all the ways there are, and each of them is taken where its conditions hold
(`generation_iff`).
-/

namespace Sentential

theorem Journaled.mapM_eq {α β : Type} {step : α → Journaled β} (event : α → Event)
    (value : α → β) : ∀ {xs : List α}, (∀ x ∈ xs, step x = ⟨[event x], .ok (value x)⟩) →
      xs.mapM step = ⟨xs.map event, .ok (xs.map value)⟩
  | [], _ => rfl
  | x :: xs, h => by
    obtain ⟨hx, hxs⟩ := List.forall_mem_cons.mp h
    rw [List.mapM_cons, hx, mapM_eq event value hxs]
    simp only [ok_bind, pure_def, List.append_nil, List.singleton_append, List.map_cons]

namespace Table

/-- The table with a row for each valuation of the variables. -/
def full (vs : List Variable) (f : Formula) : Table :=
  ⟨vs, (List.range (rowCount vs.length)).map fun index =>
    Row.ofValuation vs f (valuationAt vs index)⟩

theorem size_full {vs : List Variable} {f : Formula} : (full vs f).size = 2 ^ vs.length := by
  unfold size full
  rw [List.length_map, List.length_range]
  rfl

theorem size_full_le {vs : List Variable} {f : Formula} (h : vs.length ≤ maxVariables) :
    (full vs f).size ≤ 64 := by
  rw [size_full]
  exact Nat.pow_le_pow_right (by decide) h

theorem length_results (t : Table) : t.results.length = t.size := List.length_map _

/-- What is noted while the table is filled: each row, and then the end. -/
def fullEvents (vs : List Variable) (f : Formula) : List Event :=
  (List.range (rowCount vs.length)).map
      (fun index => .row index (Row.ofValuation vs f (valuationAt vs index))) ++
    [.generated (rowCount vs.length) vs.length]

theorem tabulate_eq {vs : List Variable} {f : Formula} (hvs : vs.Nodup)
    (hlength : vs.length ≤ maxVariables) (hf : ∀ v ∈ f.leaves, v ∈ vs) :
    tabulate vs f = ⟨fullEvents vs f, .ok (full vs f)⟩ := by
  unfold tabulate
  rw [Journaled.mapM_eq (fun index => .row index (Row.ofValuation vs f (valuationAt vs index)))
    fun index => Row.ofValuation vs f (valuationAt vs index)]
  · simp only [Journaled.ok_bind, Journaled.note_bind, Journaled.pure_def, List.length_map,
      List.length_range]
    rfl
  · intro index hindex
    rw [Row.ofIndex_eq hvs hlength hf (List.mem_range.mp hindex), Journaled.ofExcept_ok_bind,
      Journaled.note_bind]
    rfl

theorem tabulate_vars_eq {f : Formula} (h : f.vars.length ≤ maxVariables) :
    tabulate f.vars f = ⟨fullEvents f.vars f, .ok (full f.vars f)⟩ :=
  tabulate_eq f.nodup_vars h f.mem_vars_of_mem_leaves

theorem journalOfFormula_eq (f : Formula) :
    journalOfFormula f =
      if maxVariables < f.vars.length then
        ⟨[], .error (.rejected (.tooManyVariables f.vars.length maxVariables))⟩
      else ⟨fullEvents f.vars f, .ok (full f.vars f)⟩ := by
  unfold journalOfFormula
  dsimp only
  by_cases h : maxVariables < f.vars.length
  · rw [if_pos h, if_pos h]
    rfl
  · rw [if_neg h, if_neg h]
    exact tabulate_vars_eq (Nat.not_lt.mp h)

end Table

/-! ### From a text -/

/-- The ways in which generation from a text can go. -/
inductive Generation (o : Options) (text : String) : Journaled Table → Prop
  | blank : Text.trim text.toList = [] → Generation o text ⟨[], .error (.rejected .blank)⟩
  | unreadable {e : UnknownSymbol} : Text.trim text.toList ≠ [] →
      Token.scan o.alphabet text = .error e →
        Generation o text ⟨[], .error (.rejected (.unreadable e))⟩
  | noVariables {ts : List Token} : Text.trim text.toList ≠ [] →
      Token.scan o.alphabet text = .ok ts → Token.vars ts = [] →
        Generation o text ⟨[.tokenized text ts.length], .error (.rejected .noVariables)⟩
  | tooManyVariables {ts : List Token} : Token.scan o.alphabet text = .ok ts →
      o.maxVariables < (Token.vars ts).length →
        Generation o text ⟨[.tokenized text ts.length],
          .error (.rejected (.tooManyVariables (Token.vars ts).length o.maxVariables))⟩
  | unparsable {ts : List Token} {e : ParseError} : Token.scan o.alphabet text = .ok ts →
      Token.vars ts ≠ [] → (Token.vars ts).length ≤ o.maxVariables → parse ts = .error e →
        Generation o text ⟨[.tokenized text ts.length, .vars (Token.vars ts)],
          .error (.rejected (.unparsable e))⟩
  | parsed {ts : List Token} {f : Formula} : Token.scan o.alphabet text = .ok ts →
      (Token.vars ts).length ≤ o.maxVariables → parse ts = .ok f →
        Generation o text ⟨[.tokenized text ts.length, .vars f.vars, .parsed f] ++
          Table.fullEvents f.vars f, .ok (Table.full f.vars f)⟩

namespace Generation

variable {o : Options} {text : String} {r : Journaled Table}

/-- The two ways to skip blanks agree: a text is blank just if it has no tokens. -/
theorem trim_eq_nil_iff_scan {a : Alphabet} :
    Text.trim text.toList = [] ↔ Token.scan a text = .ok [] := by
  rw [Text.trim_eq_nil_iff, Token.scan_eq_ok_iff, Token.Spells.nil_iff]

theorem trim_not_isEmpty {a : Alphabet} {ts : List Token} (hscan : Token.scan a text = .ok ts)
    (hvars : Token.vars ts ≠ []) : ¬ (Text.trim text.toList).isEmpty = true := by
  intro h
  rw [List.isEmpty_iff, trim_eq_nil_iff_scan (a := a), hscan] at h
  cases h
  exact hvars rfl

theorem maxVariables_le (o : Options) : o.maxVariables ≤ maxVariables := Nat.min_le_right ..

/-- **Each way is taken where its conditions hold.** -/
theorem journal_eq (h : Generation o text r) : Table.journalOfText o text = r := by
  unfold Table.journalOfText
  -- the conditions of each way settle the tests of the definition, up to the one that ends it
  cases h with
  | blank hblank => rw [hblank]; rfl
  | unreadable hblank hscan =>
    rw [if_neg (by rwa [List.isEmpty_iff]), hscan]
    rfl
  | noVariables hblank hscan hvars =>
    rw [if_neg (by rwa [List.isEmpty_iff]), hscan]
    simp only [Journaled.ofExcept_ok_bind, Journaled.note_bind, hvars]
    rfl
  | @tooManyVariables ts hscan hlength =>
    have hvars := List.ne_nil_of_length_pos (Nat.zero_lt_of_lt hlength)
    rw [if_neg (trim_not_isEmpty hscan hvars), hscan]
    simp only [Journaled.ofExcept_ok_bind, Journaled.note_bind, List.isEmpty_iff, hvars, hlength,
      if_true, if_false]
    rfl
  | @unparsable ts e hscan hvars hlength hparse =>
    rw [if_neg (trim_not_isEmpty hscan hvars), hscan]
    simp only [Journaled.ofExcept_ok_bind, Journaled.note_bind, List.isEmpty_iff, hvars,
      Nat.not_lt.mpr hlength, hparse, if_false]
    rfl
  | @parsed ts f hscan hlength hparse =>
    have hvf := vars_eq_of_parse hparse
    have hvars : Token.vars ts ≠ [] := hvf ▸ f.vars_ne_nil
    have hmax : f.vars.length ≤ maxVariables := by
      rw [← hvf]
      exact Nat.le_trans hlength (maxVariables_le o)
    rw [if_neg (trim_not_isEmpty hscan hvars), hscan]
    simp only [Journaled.ofExcept_ok_bind, Journaled.note_bind, List.isEmpty_iff, hvars,
      Nat.not_lt.mpr hlength, hparse, if_false]
    rw [hvf, Table.tabulate_vars_eq hmax]
    rfl

/-- **There is always a way.** -/
theorem exists_generation (o : Options) (text : String) : ∃ r, Generation o text r := by
  by_cases hblank : Text.trim text.toList = []
  · exact ⟨_, .blank hblank⟩
  cases hscan : Token.scan o.alphabet text with
  | error e => exact ⟨_, .unreadable hblank hscan⟩
  | ok ts =>
    by_cases hvars : Token.vars ts = []
    · exact ⟨_, .noVariables hblank hscan hvars⟩
    by_cases hlength : o.maxVariables < (Token.vars ts).length
    · exact ⟨_, .tooManyVariables hscan hlength⟩
    have hle := Nat.not_lt.mp hlength
    cases hparse : parse ts with
    | error e => exact ⟨_, .unparsable hscan hvars hle hparse⟩
    | ok f => exact ⟨_, .parsed hscan hle hparse⟩

/-- **The ways in which generation can go are the ways in which it goes.** -/
theorem generation_iff : Generation o text r ↔ Table.journalOfText o text = r := by
  constructor
  · exact journal_eq
  · rintro rfl
    obtain ⟨r, h⟩ := exists_generation o text
    rwa [h.journal_eq]

end Generation

end Sentential
