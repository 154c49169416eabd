import Sentential.Proofs.Table.Enumeration
import Sentential.Proofs.Table.Packing
import Sentential.Table.Text

/-!
# The text of a table shows the table

The text of a table is a heading and a line for each row, each ended by a line break (`LinesOf`).
The heading walks along the variables of the table and a line along the bindings of its row. In a
generated table these go in the same order, so each value stands under its variable
(`Table.PrintsAs`). Since no line has a break in it, the lines are known from the text
(`LinesOf.unique`): the heading gives the variables, the ends of the other lines give the column of
results, and a generated table is known from these (`Table.full_eq_of_results_eq`).
-/

namespace Sentential

/-- Each of the lines is ended by a line break in the text, and none has one in it. -/
structure LinesOf (text : List Char) (lines : List (List Char)) : Prop where
  ended : text = lines.flatMap fun line => line ++ ['\n']
  unbroken : ∀ line ∈ lines, '\n' ∉ line

/-- Characters in columns: each of them followed by a space. -/
def columns (cs : List Char) : List Char := cs.flatMap fun c => [c, ' ']

/-- The digits of a number in `n` places, the highest one first, with T for one and F for zero. -/
def digitCells (n index : Nat) : List Char :=
  (List.range n).map fun k => if index.testBit (n - 1 - k) then 'T' else 'F'

/-! ### Lines and columns -/

theorem splitOn_lines {lines : List (List Char)} (h : ∀ line ∈ lines, '\n' ∉ line) :
    (lines.flatMap fun line => line ++ ['\n']).splitOn '\n' = lines ++ [[]] := by
  induction lines with
  | nil => rfl
  | cons line lines ih =>
    obtain ⟨hline, hlines⟩ := List.forall_mem_cons.mp h
    have hbefore : ∀ c ∈ line, (c == '\n') = false := fun c hc =>
      beq_eq_false_iff_ne.mpr fun he => hline (he ▸ hc)
    rw [List.flatMap_cons, List.append_assoc, List.singleton_append, List.splitOn,
      List.splitOnP_append_cons_of_forall_mem hbefore _ (beq_self_eq_true _)]
    exact congrArg (line :: ·) (ih hlines)

theorem LinesOf.unique {text : List Char} {lines lines' : List (List Char)} (h : LinesOf text lines)
    (h' : LinesOf text lines') : lines = lines' := by
  have hsplit := splitOn_lines h.unbroken
  rw [← h.ended, h'.ended, splitOn_lines h'.unbroken] at hsplit
  exact (List.append_cancel_right hsplit).symm

theorem getElem?_columns (cs : List Char) (k : Nat) : (columns cs)[2 * k]? = cs[k]? := by
  induction cs generalizing k with
  | nil => simp [columns]
  | cons c cs ih =>
    cases k with
    | zero => rfl
    | succ k => exact ih k

theorem getElem?_columns_append {cs rest : List Char} {k : Nat} (hk : k < cs.length) :
    (columns cs ++ rest)[2 * k]? = some cs[k] := by
  have hget : (columns cs)[2 * k]? = some cs[k] := by
    rw [getElem?_columns, List.getElem?_eq_getElem hk]
  obtain ⟨hlt, -⟩ := List.getElem?_eq_some_iff.mp hget
  rw [List.getElem?_append_left hlt, hget]

theorem columns_injective {cs ds : List Char} (h : columns cs = columns ds) : cs = ds := by
  refine List.ext_getElem? fun k => ?_
  rw [← getElem?_columns, h, getElem?_columns]

theorem getElem_digitCells {n index k : Nat} (hk : k < (digitCells n index).length) :
    (digitCells n index)[k] = if index.testBit (n - 1 - k) then 'T' else 'F' := by
  simp [digitCells]

theorem cell_injective {a b : Bool} (h : cell a = cell b) : a = b := by
  revert h; cases a <;> cases b <;> decide

namespace Table

/-! ### The lines of any table -/

theorem heading_eq (t : Table) :
    t.heading = columns (t.vars.map (·.name)) ++ "| result".toList := by
  unfold heading columns
  rw [List.flatMap_map]

theorem line_eq (r : Row) :
    line r = columns (r.assignment.toList.map fun x => cell x.2) ++ ['|', ' ', cell r.result] := by
  unfold line Assignment.cells columns
  rw [List.flatMap_map]

theorem break_notMem_columns {cs : List Char} (h : '\n' ∉ cs) : '\n' ∉ columns cs := by
  unfold columns
  rw [List.mem_flatMap]
  rintro ⟨c, hc, hmem⟩
  rcases List.mem_pair.mp hmem with rfl | hspace
  · exact h hc
  · exact absurd hspace (by decide)

theorem cell_ne_break (b : Bool) : cell b ≠ '\n' := by cases b <;> decide

/-- **The lines of a text** are its heading and the lines of its rows. -/
theorem linesOf_toString (t : Table) :
    LinesOf (toString t).toList (t.heading :: t.rows.map line) where
  ended := t.toList_toString
  unbroken := by
    refine List.forall_mem_cons.mpr ⟨?_, fun l hl => ?_⟩
    · have hnames : '\n' ∉ t.vars.map (·.name) := by
        intro hmem
        obtain ⟨v, -, hv⟩ := List.mem_map.mp hmem
        exact v.name_ne (by decide) hv
      rw [heading_eq, List.mem_append, not_or]
      exact ⟨break_notMem_columns hnames, by decide⟩
    · obtain ⟨r, -, rfl⟩ := List.mem_map.mp hl
      have hcells : '\n' ∉ r.assignment.toList.map fun x => cell x.2 := by
        intro hmem
        obtain ⟨x, -, hx⟩ := List.mem_map.mp hmem
        exact cell_ne_break x.2 hx
      rw [line_eq, List.mem_append, not_or]
      exact ⟨break_notMem_columns hcells, by simp [(cell_ne_break _).symm]⟩

theorem vars_results_of_toString_eq {t u : Table} (h : toString t = toString u) :
    t.vars = u.vars ∧ t.results = u.results := by
  have hlines := t.linesOf_toString.unique (h ▸ u.linesOf_toString)
  obtain ⟨hheading, hrows⟩ := List.cons.inj hlines
  constructor
  · rw [heading_eq, heading_eq] at hheading
    have hnames := columns_injective (List.append_cancel_right hheading)
    exact List.map_injective_iff.mpr (fun _ _ => Variable.ext_name) hnames
  · have hlast (r : Row) : (line r).getLast? = some (cell r.result) := by
      rw [line_eq, List.getLast?_append]
      rfl
    have hcells := congrArg (List.map List.getLast?) hrows
    simp only [List.map_map, Function.comp_def, hlast] at hcells
    have hinjective : Function.Injective fun b => some (cell b) := fun _ _ he =>
      cell_injective (Option.some.inj he)
    refine List.map_injective_iff.mpr hinjective ?_
    unfold results
    rw [List.map_map, List.map_map]
    exact hcells

/-! ### The lines of a generated table -/

/-- The lines show the table: a heading with the variables in order and a line for each index. In
the line of an index each of its digits stands under the variable that has it, as T for one and F
for zero, and the result of the row comes last. -/
structure PrintsAs (t : Table) (lines : List (List Char)) : Prop where
  size_eq : t.size = 2 ^ t.vars.length
  length_eq : lines.length = 2 ^ t.vars.length + 1
  heading : lines[0]? = some (columns (t.vars.map (·.name)) ++ "| result".toList)
  row : ∀ (i : Nat) (hi : i < t.rows.length), lines[i + 1]? = some
    (columns (digitCells t.vars.length i) ++ ['|', ' ', if t.rows[i].result then 'T' else 'F'])
  under : ∀ (i k : Nat), i < t.rows.length → ∀ hk : k < t.vars.length,
    ∃ top below, lines[0]? = some top ∧ lines[i + 1]? = some below ∧
      top[2 * k]? = some t.vars[k].name ∧
      below[2 * k]? = some (if i.testBit (t.vars.length - 1 - k) then 'T' else 'F')

variable {vs : List Variable} {f : Formula}

theorem cells_full (hvs : vs.Pairwise (· < ·)) {i : Nat} (hi : i < (full vs f).rows.length) :
    (full vs f).rows[i].assignment.toList.map (fun x => cell x.2) = digitCells vs.length i := by
  have htoList : (full vs f).rows[i].assignment.toList =
      vs.map fun v => (v, valuationAt vs i v) := by
    rw [getElem_rows_full]
    exact Assignment.toList_ofValuation hvs
  rw [htoList]
  refine List.ext_getElem (by simp [digitCells]) fun k hk hk' => ?_
  have hlt : k < vs.length := by simpa using hk
  have hdigit := valuationAt_getElem (Variable.nodup_of_pairwise hvs) i hlt
  rw [getElem_digitCells hk']
  simp only [List.getElem_map, hdigit, cell]

theorem printsAs_full (hvs : vs.Pairwise (· < ·)) :
    (full vs f).PrintsAs ((full vs f).heading :: (full vs f).rows.map line) := by
  have hheading : ((full vs f).heading :: (full vs f).rows.map line)[0]? =
      some (columns (vs.map (·.name)) ++ "| result".toList) := congrArg some (heading_eq _)
  have hrow (i : Nat) (hi : i < (full vs f).rows.length) :
      ((full vs f).heading :: (full vs f).rows.map line)[i + 1]? = some
        (columns (digitCells vs.length i) ++
          ['|', ' ', if (full vs f).rows[i].result then 'T' else 'F']) := by
    rw [List.getElem?_cons_succ, List.getElem?_map, List.getElem?_eq_getElem hi, Option.map_some,
      line_eq, cells_full hvs hi]
    rfl
  exact {
    size_eq := size_full
    length_eq := by
      rw [List.length_cons, List.length_map]
      exact congrArg (· + 1) size_full
    heading := hheading
    row := hrow
    under := by
      intro i k hi hk
      have hname : k < (vs.map (·.name)).length := by rwa [List.length_map]
      have hdigit : k < (digitCells vs.length i).length := by
        rwa [digitCells, List.length_map, List.length_range]
      refine ⟨_, _, hheading, hrow i hi, ?_, ?_⟩
      · rw [getElem?_columns_append hname, List.getElem_map]
        rfl
      · rw [getElem?_columns_append hdigit, getElem_digitCells hdigit]
        rfl }

/-- **Generated tables are shown by their texts.** The text of a table with `n` variables has `2 ^ n
+ 1` lines, each ended by a line break: a heading with the variables in order, and a line for each
row, in which the digits of its index stand under their variables and the result stands last. Two
generated tables with the same text are equal. -/
theorem prints_of_generated :
    (∀ t : Table, t.Generated → ∃ lines, LinesOf (toString t).toList lines ∧ t.PrintsAs lines) ∧
    ∀ t u : Table, t.Generated → u.Generated → toString t = toString u → t = u := by
  constructor
  · intro t h
    obtain ⟨f, -, rfl⟩ := generated_iff.mp h
    exact ⟨_, linesOf_toString _, printsAs_full f.pairwise_vars⟩
  · intro t u ht hu htext
    obtain ⟨f, -, rfl⟩ := generated_iff.mp ht
    obtain ⟨g, -, rfl⟩ := generated_iff.mp hu
    obtain ⟨hvars, hresults⟩ := vars_results_of_toString_eq htext
    have hvars : f.vars = g.vars := hvars
    rw [← hvars] at hresults ⊢
    exact full_eq_of_results_eq hresults

/-- The variables of `B → A` are printed in ascending order, so its value false is in the line `F
T`. The text of `∼B ∨ A` is the same, and so is its table. -/
theorem prints_reversed_implication :
    let f : Formula := .binary .or (.not (.var ⟨'B', rfl⟩)) (.var ⟨'A', rfl⟩)
    ∃ t u, ofText .standard "B → A" = .ok t ∧ ofFormula f = .ok u ∧
      toString t = "A B | result\nF F | T\nF T | F\nT F | T\nT T | T\n" ∧
      (∃ lines, LinesOf (toString t).toList lines ∧ lines.length = 5 ∧ t.PrintsAs lines) ∧
      toString t = toString u ∧ t = u := by
  intro f
  have htext : ofText .standard "B → A" = .ok (full [⟨'A', rfl⟩, ⟨'B', rfl⟩]
      (.binary .implies (.var ⟨'B', rfl⟩) (.var ⟨'A', rfl⟩))) := by decide +kernel
  have hformula : ofFormula f = .ok (full f.vars f) := ofFormula_eq_ok_iff.mpr ⟨by decide, rfl⟩
  have hsame : toString (full [⟨'A', rfl⟩, ⟨'B', rfl⟩]
      (.binary .implies (.var ⟨'B', rfl⟩) (.var ⟨'A', rfl⟩))) = toString (full f.vars f) := by
    decide +kernel
  obtain ⟨hprints, hequal⟩ := prints_of_generated
  obtain ⟨lines, hlines, hshows⟩ := hprints _ (.ofText htext)
  exact ⟨_, _, htext, hformula, by decide +kernel, ⟨lines, hlines, hshows.length_eq, hshows⟩, hsame,
    hequal _ _ (.ofText htext) (.ofFormula hformula) hsame⟩

end Table

end Sentential
