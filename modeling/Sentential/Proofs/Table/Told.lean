import Sentential.Proofs.Table.Enumeration

/-!
# What is told on the way to a table

The lines of a journal mirror how far the computation got (`Table.Tells`). Nothing is told of a text
that is blank or cannot be read; of any other the number of its tokens is told, then, if there are
neither none nor too many of them, its variables, and then, if the tokens parse, its formula. What
follows is what is told of the table of this formula alone: the rows in their order and the counts
at the end (`Table.TellsRows`). Variables are letters, which quoting leaves as they are, so the
lines can be given word for word (`Event.line_row`). A journal that leaves out the lower level has
the lines of the full journal but those whose first word names that level (`Journaled.lines_debug`).
-/

namespace Sentential

/-! ### Letters in quotes -/

namespace Text

theorem isHidden_eq_false_of_isUpper {c : Char} (h : c.isUpper = true) : isHidden c = false := by
  have hapart : ∀ r ∈ hidden, r.last < 65 ∨ 90 < r.first := by decide +kernel
  obtain ⟨hfirst, hlast⟩ := isUpper_iff.mp h
  rw [isHidden, Bool.eq_false_iff, Ne, inRanges_iff]
  rintro ⟨r, hr, hle, hge⟩
  rcases hapart r hr with hbelow | habove <;> omega

theorem escape_name (v : Variable) {mark : Char} (h : mark.isUpper = false) :
    escape mark v.name = [v.name] := by
  have hshort : shortEscape? v.name = none := by simp [shortEscape?, v.name_ne]
  have hmark : ¬ (v.name = mark || v.name = '\\') = true := by simp [v.name_ne, h]
  unfold escape
  rw [hshort]
  dsimp only
  rw [if_neg hmark, isHidden_eq_false_of_isUpper v.isUpper]
  rfl

end Text

namespace Event

theorem showVariable_eq (v : Variable) : showVariable v = s!"Var('{v}')" := by
  unfold showVariable Text.quoteChar
  dsimp only
  rw [Text.escape_name v (by decide)]
  have hname : (toString v).toList = [v.name] := String.toList_singleton _
  have hquoted : (toString (String.ofList ('\x27' :: [v.name] ++ ['\x27']))).toList =
      '\x27' :: [v.name] ++ ['\x27'] := String.toList_ofList
  refine String.toList_inj.mp ?_
  rw [String.toList_append, String.toList_append, String.toList_append, String.toList_append, hname,
    hquoted]
  rfl

/-! ### Lines word for word -/

/-- The line of the higher level with this message. -/
def debugLine (message : String) : String := "DEBUG truth_table::table " ++ message

/-- The line of the lower level with this message. -/
def traceLine (message : String) : String := "TRACE truth_table::table " ++ message

/-- The line on the tokens of a text. -/
def tokensLine (text : String) (ts : List Token) : String :=
  debugLine s!"tokenized {Text.quoteText text} into {ts.length} tokens"

/-- The line on the variables. -/
def varsLine (vs : List Variable) : String :=
  debugLine ("variables: [" ++ ", ".intercalate (vs.map fun v => s!"Var('{v}')") ++ "]")

/-- The line on the formula of a text. -/
def formulaLine (f : Formula) : String :=
  debugLine s!"parsed: {f} (depth {f.depth}, {f.size} nodes)"

/-- The line on a row: its index, the variables that it binds with their values, and the result. -/
def rowLine (index : Nat) (r : Row) : String :=
  let bindings := r.assignment.toList.map fun x => s!"Var('{x.1}')" ++ s!": {x.2}"
  let assignment := "Assignment(\x7b" ++ ", ".intercalate bindings ++ "\x7d)"
  traceLine s!"row {index}: {assignment} -> {r.result}"

/-- The line on the counts of a table. -/
def countsLine (rows columns : Nat) : String :=
  debugLine s!"generated {rows} rows over {columns} variables"

theorem line_debug {e : Event} (h : e.level = .debug) : e.line = debugLine e.message := by
  unfold line debugLine
  rw [h]
  rfl

theorem line_trace {e : Event} (h : e.level = .trace) : e.line = traceLine e.message := by
  unfold line traceLine
  rw [h]
  rfl

theorem line_vars (vs : List Variable) : (vars vs).line = varsLine vs := by
  rw [line_debug rfl]
  unfold message varsLine
  dsimp only
  rw [List.map_congr_left fun v _ => showVariable_eq v]

theorem line_row (index : Nat) (r : Row) : (row index r).line = rowLine index r := by
  have hbinding (x : Variable × Bool) :
      s!"{showVariable x.1}: {x.2}" = s!"Var('{x.1}')" ++ s!": {x.2}" := by
    rw [showVariable_eq]
    exact String.append_assoc ..
  rw [line_trace rfl]
  unfold message rowLine showAssignment
  dsimp only
  rw [List.map_congr_left fun x _ => hbinding x]

/-- The line is of the lower level, as its first word says. -/
def IsTraceLine (line : String) : Prop := "TRACE ".toList <+: line.toList

instance (line : String) : Decidable (IsTraceLine line) := inferInstanceAs (Decidable (_ <+: _))

theorem isTraceLine_traceLine (message : String) : IsTraceLine (traceLine message) := by
  have hword : "TRACE ".toList <+: "TRACE truth_table::table ".toList := by decide +kernel
  unfold IsTraceLine traceLine
  rw [String.toList_append]
  exact hword.trans (List.prefix_append _ _)

theorem not_isTraceLine_debugLine (message : String) : ¬ IsTraceLine (debugLine message) := by
  have hword : ¬ "TRACE ".toList <+: "DEBUG truth_table::table ".toList := by decide +kernel
  have hle : "TRACE ".toList.length ≤ "DEBUG truth_table::table ".toList.length := by
    decide +kernel
  unfold IsTraceLine debugLine
  rw [String.toList_append]
  exact fun h => hword (List.prefix_of_prefix_length_le h (List.prefix_append _ _) hle)

theorem isTraceLine_iff {e : Event} : IsTraceLine e.line ↔ e.level = .trace := by
  rcases h : e.level with _ | _
  · rw [line_debug h]
    exact iff_of_false (not_isTraceLine_debugLine _) (by decide)
  · rw [line_trace h]
    exact iff_of_true (isTraceLine_traceLine _) rfl

end Event

namespace Journaled

variable {α : Type}

theorem lines_trace (x : Journaled α) : x.lines .trace = x.events.map (·.line) := by
  unfold lines
  rw [List.filter_eq_self.mpr fun _ _ => by simp]

/-- **The higher level alone** has the lines of both but those of the lower one. -/
theorem lines_debug (x : Journaled α) :
    x.lines .debug = (x.lines .trace).filter fun line => ¬ Event.IsTraceLine line := by
  rw [lines_trace, List.filter_map]
  unfold lines
  congr 1
  refine List.filter_congr fun e _ => ?_
  have hlevel : e.level = .debug ↔ ¬ Event.IsTraceLine e.line := by
    rw [Event.isTraceLine_iff]
    rcases e.level with _ | _ <;> decide
  simp [hlevel]

end Journaled

namespace Table

variable {o : Options} {text : String} {vs : List Variable} {f : Formula}

open Event

/-- The lines are those on the rows of the table in their order, with the variables of a row in the
order of the table, and the line on the counts. -/
structure TellsRows (t : Table) (lines : List String) : Prop where
  ascending : t.vars.Pairwise (· < ·)
  size_eq : t.size = 2 ^ t.vars.length
  columns : ∀ r ∈ t.rows, r.assignment.toList.map (·.1) = t.vars
  lines_eq : lines = t.rows.mapIdx rowLine ++ [countsLine (2 ^ t.vars.length) t.vars.length]

/-- What is told on the way from a text to each outcome. -/
inductive Tells (o : Options) (text : String) : Except Failure Table → List String → Prop
  | blank : Tells o text (.error (.rejected .blank)) []
  | unreadable (e : UnknownSymbol) : Tells o text (.error (.rejected (.unreadable e))) []
  | noVariables {ts : List Token} : Token.scan o.alphabet text = .ok ts →
      Tells o text (.error (.rejected .noVariables)) [tokensLine text ts]
  | tooManyVariables {ts : List Token} (n k : Nat) : Token.scan o.alphabet text = .ok ts →
      Tells o text (.error (.rejected (.tooManyVariables n k))) [tokensLine text ts]
  | unparsable {ts : List Token} (e : ParseError) : Token.scan o.alphabet text = .ok ts →
      Tells o text (.error (.rejected (.unparsable e)))
        [tokensLine text ts, varsLine (Token.vars ts)]
  | parsed {ts : List Token} {f : Formula} {t : Table} : Token.scan o.alphabet text = .ok ts →
      parse ts = .ok f → f.depth ≤ maxDepth → ofFormula f = .ok t →
      TellsRows t ((journalOfFormula f).lines .trace) →
      Tells o text (.ok t) ([tokensLine text ts, varsLine t.vars, formulaLine f] ++
        (journalOfFormula f).lines .trace)

theorem tellsRows_full (hvs : vs.Pairwise (· < ·)) :
    TellsRows (full vs f) ((fullEvents vs f).map (·.line)) where
  ascending := hvs
  size_eq := size_full
  columns r hr := by
    obtain ⟨index, -, rfl⟩ := List.mem_map.mp hr
    have hbinds := Assignment.binds_ofValuation vs (valuationAt vs index)
    exact hbinds.map_fst hvs
  lines_eq := by
    have hrow (index : Nat) : (Event.row index (Row.ofValuation vs f (valuationAt vs index))).line =
        rowLine index (Row.ofValuation vs f (valuationAt vs index)) := line_row ..
    have hcounts : (Event.generated (rowCount vs.length) vs.length).line =
        countsLine (2 ^ vs.length) vs.length := line_debug rfl
    unfold fullEvents
    rw [List.map_append, List.map_map, List.map_singleton, hcounts]
    congr 1
    refine List.ext_getElem (by simp [full]) fun i hi hi' => ?_
    simp [full, hrow]

theorem lines_journalOfFormula (h : f.vars.length ≤ maxVariables) :
    (journalOfFormula f).lines .trace = (fullEvents f.vars f).map (·.line) := by
  rw [Journaled.lines_trace, journalOfFormula_eq, if_neg (Nat.not_lt.mpr h)]

theorem tells_of_generation {r : Journaled Table} (h : Generation o text r) :
    Tells o text r.outcome (r.events.map (·.line)) := by
  have htokens (ts : List Token) : (Event.tokenized text ts.length).line = tokensLine text ts :=
    line_debug rfl
  cases h with
  | blank => exact .blank
  | unreadable => exact .unreadable _
  | noVariables _ hscan =>
    rw [List.map_singleton, htokens]
    exact .noVariables hscan
  | tooManyVariables hscan =>
    rw [List.map_singleton, htokens]
    exact .tooManyVariables _ _ hscan
  | unparsable hscan =>
    rw [List.map_cons, List.map_singleton, htokens, line_vars]
    exact .unparsable _ hscan
  | @parsed ts f hscan hlength hparse =>
    have hformula : (Event.parsed f).line = formulaLine f := line_debug rfl
    have hdepth := (parse_eq_ok_iff_fits.mp hparse).depth_le
    rw [vars_eq_of_parse hparse] at hlength
    have hle : f.vars.length ≤ maxVariables := Nat.le_trans hlength (Generation.maxVariables_le o)
    have hlines := lines_journalOfFormula hle
    have htells := Tells.parsed hscan hparse hdepth (ofFormula_eq_ok_iff.mpr ⟨hle, rfl⟩)
      (hlines ▸ tellsRows_full f.pairwise_vars)
    rw [List.map_append, ← hlines]
    simp only [List.map_cons, List.map_nil, htokens, line_vars, hformula]
    exact htells

/-- **What is told mirrors the outcome.** For each text and all options, the lines are those of the
outcome: none for a text that is blank or cannot be read, the tokens where the variables are
refused, the tokens and the variables where the tokens do not parse, and for a table these two, the
formula and all that is told of the table of this formula. The higher level alone has the same lines
but those of the lower one. -/
theorem journal_mirrors_outcome (o : Options) (text : String) :
    Tells o text (ofText o text) ((journalOfText o text).lines .trace) ∧
    (journalOfText o text).lines .debug =
      ((journalOfText o text).lines .trace).filter (fun line => ¬ IsTraceLine line) ∧
    ∀ f : Formula, (journalOfFormula f).lines .debug =
      ((journalOfFormula f).lines .trace).filter fun line => ¬ IsTraceLine line := by
  refine ⟨?_, Journaled.lines_debug _, fun f => Journaled.lines_debug _⟩
  obtain ⟨r, hr⟩ := Generation.exists_generation o text
  unfold ofText
  rw [hr.journal_eq, Journaled.lines_trace]
  exact tells_of_generation hr

example : (journalOfText .standard "A∧").lines .trace =
    ["DEBUG truth_table::table tokenized \"A∧\" into 2 tokens",
      "DEBUG truth_table::table variables: [Var('A')]"] := by decide +kernel

end Table

end Sentential
