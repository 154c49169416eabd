import Sentential.CommandLine
import Sentential.Proofs.Table.Analysis

/-!
# The program and its verdict

Arguments that are understood make a request, and a request ends in one of three ways: its limit is
none that a table can use, its text is rejected, or a table is printed and a line on the formula of
the text (`Request.Serves`). The limit is looked at with the very condition of `Options.ofLimit`
(`Request.inRange_iff`), so the program never breaks. How it ends and what is printed do not depend
on the flag `--verbose`; an account, if one is asked for, precedes what is printed. The three forms
of the last line exclude each other, and which of them is printed is decided by the values of the
formula wherever all variables have values (`isVerdict_full`).
-/

namespace Sentential.CommandLine

/-! ### The last line -/

/-- The line on a formula that is true in `k` of `n` rows. -/
def countLine (k n : Nat) : String := s!"satisfiable: {k} of {n} rows"

/-- The line says what is true of the formula. -/
structure IsVerdict (f : Formula) (line : String) : Prop where
  tautology : line = "tautology" ↔ f.Always true
  contradiction : line = "contradiction" ↔ f.Always false
  contingent : ¬ f.Always true → ¬ f.Always false →
    ∃ k, k = {a : Assignment | a.Binds f.vars ∧ f.evalIn a = .ok true}.ncard ∧
      0 < k ∧ k < 2 ^ f.vars.length ∧ line = countLine k (2 ^ f.vars.length)

/-- The lines differ in their first letters. -/
theorem countLine_ne {k n : Nat} {line : String} (h : line.toList.head? ≠ some 's') :
    countLine k n ≠ line := by
  rintro rfl
  apply h
  unfold countLine
  simp only [String.toList_append]
  rfl

section Table

variable {t : Table}

theorem verdict_of_tautology (h : t.isTautology = true) : verdict t = "tautology" := if_pos h

theorem verdict_of_contradiction (ht : t.isTautology = false) (hc : t.isContradiction = true) :
    verdict t = "contradiction" := by
  unfold verdict
  rw [ht, if_neg Bool.false_ne_true, if_pos hc]

theorem verdict_of_contingent (ht : t.isTautology = false) (hc : t.isContradiction = false) :
    verdict t = countLine t.countTrue t.size := by
  unfold verdict
  rw [ht, hc, if_neg Bool.false_ne_true, if_neg Bool.false_ne_true]
  rfl

theorem verdict_eq_tautology_iff : verdict t = "tautology" ↔ t.isTautology = true := by
  refine ⟨fun h => ?_, verdict_of_tautology⟩
  cases ht : t.isTautology with
  | true => rfl
  | false =>
    cases hc : t.isContradiction with
    | true => exact absurd ((verdict_of_contradiction ht hc).symm.trans h) (by decide)
    | false => exact absurd ((verdict_of_contingent ht hc).symm.trans h) (countLine_ne (by decide))

theorem verdict_eq_contradiction_iff :
    verdict t = "contradiction" ↔ t.isTautology = false ∧ t.isContradiction = true := by
  refine ⟨fun h => ?_, fun ⟨ht, hc⟩ => verdict_of_contradiction ht hc⟩
  cases ht : t.isTautology with
  | true => exact absurd ((verdict_of_tautology ht).symm.trans h) (by decide)
  | false =>
    cases hc : t.isContradiction with
    | true => exact ⟨rfl, rfl⟩
    | false => exact absurd ((verdict_of_contingent ht hc).symm.trans h) (countLine_ne (by decide))

end Table

/-- **The last line is right** for the table of a formula. -/
theorem isVerdict_full (f : Formula) : IsVerdict f (verdict (Table.full f.vars f)) := by
  have ht := Table.analyses_full_vars f
  have hfalse : (Table.full f.vars f).isTautology = false ↔ ¬ f.Always true := by
    rw [← ht.tautology, Bool.not_eq_true]
  constructor
  case tautology => rw [verdict_eq_tautology_iff, ht.tautology]
  case contradiction =>
    rw [verdict_eq_contradiction_iff, hfalse, ht.contradiction]
    exact ⟨And.right, fun h => ⟨h.not_always, h⟩⟩
  case contingent =>
    intro hnt hnc
    rw [← ht.contradiction, Bool.not_eq_true] at hnc
    rw [← hfalse] at hnt
    obtain ⟨hpos, hlt⟩ := ht.contingent.mpr ⟨hnt, hnc⟩
    rw [Table.size_full] at hlt
    refine ⟨_, rfl, ?_⟩
    rw [ht.ncard_eq]
    refine ⟨hpos, hlt, ?_⟩
    rw [verdict_of_contingent hnt hnc, Table.size_full]

/-! ### Requests -/

namespace Request

variable {r : Request}

/-- The limit is between one and the largest one. -/
def InRange (r : Request) : Prop := 1 ≤ r.limit ∧ r.limit ≤ maxVariables

instance : Decidable r.InRange := inferInstanceAs (Decidable (_ ∧ _))

/-- The options that the arguments ask for. -/
def options (r : Request) : Options := ⟨if r.classic then .classic else .full, r.limit⟩

/-- **The limit is looked at as options look at it.** -/
theorem inRange_iff :
    r.InRange ↔ Options.ofLimit r.options.alphabet r.limit = .ok r.options := by
  rw [Options.ofLimit_eq_ok_iff]
  exact ⟨fun ⟨hpos, hle⟩ => ⟨hpos, hle, rfl⟩, fun ⟨hpos, hle, _⟩ => ⟨hpos, hle⟩⟩

theorem guard_iff :
    (decide (r.limit = 0) || decide (maxVariables < r.limit)) = true ↔ ¬ r.InRange := by
  unfold InRange
  simp only [Bool.or_eq_true, decide_eq_true_eq]
  omega

theorem run_of_not_inRange (h : ¬ r.InRange) : r.run = ⟨[], .badLimit⟩ := if_pos (guard_iff.mpr h)

theorem run_of_inRange (h : r.InRange) :
    r.run = ⟨if r.verbose then (Table.journalOfText r.options r.text).events else [],
      .ofOutcome (Table.ofText r.options r.text)⟩ := by
  have hguard : ¬ (decide (r.limit = 0) || decide (maxVariables < r.limit)) = true :=
    fun hguard => guard_iff.mp hguard h
  have hoptions : Options.ofLimit (if r.classic then .classic else .full) r.limit =
      .ok r.options := inRange_iff.mp h
  unfold run
  rw [if_neg hguard]
  dsimp only
  rw [hoptions, Journaled.ofExcept_ok_bind]
  rfl

theorem report_of_rejected {e : Rejection} (h : r.InRange)
    (htext : Table.ofText r.options r.text = .error (.rejected e)) :
    r.run.report = .rejected e := by
  rw [run_of_inRange h, htext]
  rfl

theorem report_of_ok {t : Table} (h : r.InRange) (htext : Table.ofText r.options r.text = .ok t) :
    r.run.report = .printed t := by
  rw [run_of_inRange h, htext]
  rfl

/-- The program does what the request demands. Outside the range the text does not matter, and
within it the options are built without misuse. What is printed is all that is written on the
standard output, unless an account is asked for; then this comes first. -/
structure Serves (r : Request) (p : Run) : Prop where
  not_broken : ∀ m, p.report ≠ .broken m
  options : r.InRange ↔ Options.ofLimit r.options.alphabet r.limit = .ok r.options
  badLimit : ¬ r.InRange → p.report.code = 1 ∧ ∀ write, p.output write = ""
  rejected : r.InRange → ∀ e, Table.ofText r.options r.text = .error (.rejected e) →
    p.report.code = 1 ∧ p.report.complaint? = some (e.message ++ "\n") ∧ p.report.output = ""
  printed : r.InRange → (∀ e, Table.ofText r.options r.text ≠ .error (.rejected e)) →
    ∃ t ts f line, Table.ofText r.options r.text = .ok t ∧
      Token.scan r.options.alphabet r.text = .ok ts ∧ parse ts = .ok f ∧
      p.report.code = 0 ∧ p.report.complaint? = none ∧
      p.report.output = toString t ++ "\n" ++ line ++ "\n" ∧ IsVerdict f line
  quiet : r.verbose = false → ∀ write, p.output write = p.report.output
  verbose : r.verbose = true → r.InRange → ∀ write, p.output write =
    String.join ((Table.journalOfText r.options r.text).events.mapIdx write) ++ p.report.output

theorem report_ne_broken (r : Request) (m : Misuse) : r.run.report ≠ .broken m := by
  by_cases h : r.InRange
  · obtain ⟨t, ht⟩ | ⟨e, he⟩ := Table.ofText_ok_or_rejected r.options r.text
    · rw [report_of_ok h ht]
      exact fun h => nomatch h
    · rw [report_of_rejected h he]
      exact fun h => nomatch h
  · rw [run_of_not_inRange h]
    exact fun h => nomatch h

theorem account_of_quiet (h : r.verbose = false) : r.run.account = [] := by
  by_cases hrange : r.InRange
  · rw [run_of_inRange hrange]
    exact if_neg (Bool.not_eq_true _ ▸ h)
  · rw [run_of_not_inRange hrange]

theorem serves_run (r : Request) : r.Serves r.run where
  not_broken := r.report_ne_broken
  options := inRange_iff
  badLimit h := by
    rw [run_of_not_inRange h]
    exact ⟨rfl, fun _ => rfl⟩
  rejected h e he := by
    rw [report_of_rejected h he]
    exact ⟨rfl, rfl, rfl⟩
  printed h hne := by
    obtain ⟨t, ht⟩ | ⟨e, he⟩ := Table.ofText_ok_or_rejected r.options r.text
    · obtain ⟨ts, f, hscan, hparse, -, rfl⟩ := Table.ofText_eq_ok_iff.mp ht
      rw [report_of_ok h ht]
      exact ⟨_, ts, f, _, ht, hscan, hparse, rfl, rfl, rfl, isVerdict_full f⟩
    · exact absurd he (hne e)
  quiet h write := by
    unfold Run.output
    rw [account_of_quiet h]
    exact String.empty_append
  verbose h hrange write := by
    unfold Run.output
    rw [run_of_inRange hrange, if_pos h]

end Request

/-- **What the program does with arguments that it understands.** A limit out of range is refused, a
rejected text leaves its message and nothing is printed; for every other text the table of its
formula is printed, and then whether the formula is always true, never, or in how many ways to give
values to its variables. Without `--verbose` this is all that is on the standard output. -/
theorem run_serves (args : List String) (r : Request)
    (h : Request.ofArguments? args = some r) : r.Serves (run args) := by
  unfold run
  rw [h]
  exact r.serves_run

/-- The limit is looked at before the text is read, even for an account, `E` is not a classic
letter, and `∼(A → A)` has a table. -/
theorem run_serves_contradiction :
    (report ["-vm7", "A ∧"]).code = 1 ∧ (∀ write, (run ["-vm7", "A ∧"]).output write = "") ∧
    (report ["--classic", "E"]).complaint? = some "unknown symbol 'E' at position 0\n" ∧
    (∀ write, (run ["--classic", "E"]).output write = "") ∧
    ∃ t ts f line, Table.ofText .classic "∼(A → A)" = .ok t ∧
      Token.scan .classic "∼(A → A)" = .ok ts ∧ parse ts = .ok f ∧
      (report ["∼(A → A)", "--classic"]).code = 0 ∧
      (report ["∼(A → A)", "--classic"]).complaint? = none ∧
      (∀ write, (run ["∼(A → A)", "--classic"]).output write =
        toString t ++ "\n" ++ line ++ "\n") ∧ IsVerdict f line := by
  have hwide := run_serves ["-vm7", "A ∧"] ⟨"A ∧", false, 7, true⟩ (by decide +kernel)
  have hletter := run_serves ["--classic", "E"] ⟨"E", true, 6, false⟩ (by decide +kernel)
  have hnever := run_serves ["∼(A → A)", "--classic"] ⟨"∼(A → A)", true, 6, false⟩
    (by decide +kernel)
  have htable : (Table.ofText .classic "∼(A → A)").isOk = true := by decide +kernel
  have hrejected := hletter.rejected (by decide) (.unreadable ⟨'E', 0⟩) (by decide +kernel)
  obtain ⟨t, ts, f, line, ht, hts, hf, hcode, hcomplaint, hprinted, hverdict⟩ :=
    hnever.printed (by decide) fun e he => by
      change Table.ofText .classic "∼(A → A)" = _ at he
      rw [he] at htable
      cases htable
  refine ⟨(hwide.badLimit (by decide)).1, (hwide.badLimit (by decide)).2, hrejected.2.1,
    fun write => (hletter.quiet rfl write).trans hrejected.2.2, t, ts, f, line, ht, hts, hf, hcode,
    hcomplaint, fun write => (hnever.quiet rfl write).trans hprinted, hverdict⟩

end Sentential.CommandLine
