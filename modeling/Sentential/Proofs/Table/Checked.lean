import Sentential.Proofs.Reading.Descent
import Sentential.Proofs.Table.Agreement
import Sentential.Table.Checked

/-!
# No text and no formula leads to a fault

The checked way from a text to its table takes each step that the unchecked one takes, and every
check succeeds. The reasons are different ones: whatever stands between the bounds of an alphabet is
a letter (`letter?_eq`), the descent gives back each sign that it counted (`Descent.parse_eq`), with
at most six variables all shifts are narrow (`digit_eq`, `assignment_eq`), and the variables of the
tokens are those of the formula, so no variable is without a value (`tabulate_eq`).
-/

namespace Sentential

theorem Generation.length_vars_le {o : Options} {ts : List Token} {f : Formula}
    (hlength : (Token.vars ts).length ≤ o.maxVariables) (hparse : parse ts = .ok f) :
    f.vars.length ≤ maxVariables := by
  rw [← vars_eq_of_parse hparse]
  exact Nat.le_trans hlength (Generation.maxVariables_le o)

namespace Checked

/-! ### Tokens -/

/-- **The bounds of an alphabet are enough** to name a variable. -/
theorem letter?_eq (a : Alphabet) (c : Char) : letter? a c = .ok (a.letter? c) := by
  unfold letter? Alphabet.letter?
  by_cases h : a.contains c = true
  · have hname : Variable.ofChar c = .ok ⟨c, a.isUpper_of_contains h⟩ := by
      unfold Variable.ofChar Variable.ofChar?
      rw [dif_pos (Alphabet.isUpper_of_contains h)]
    rw [if_pos h, dif_pos h, hname]
    rfl
  · rw [if_neg h, dif_neg h]

theorem ofChar?_eq (a : Alphabet) (c : Char) : ofChar? a c = .ok (Token.ofChar? a c) := by
  unfold ofChar? Token.ofChar?
  rw [letter?_eq]
  cases a.letter? c <;> rfl

theorem scanFrom_eq (a : Alphabet) (position : Nat) (cs : List Char) :
    scanFrom a position cs = (Token.scanFrom a position cs).mapError .refused := by
  induction cs generalizing position with
  | nil => rfl
  | cons c cs ih =>
    rw [scanFrom, Token.scanFrom, ih, ofChar?_eq]
    split
    · rfl
    · cases Token.ofChar? a c with
      | none => rfl
      | some t => cases Token.scanFrom a (position + 1) cs <;> rfl

theorem scan_eq (a : Alphabet) (text : String) :
    scan a text = (Token.scan a text).mapError .refused := scanFrom_eq ..

/-! ### Rows -/

variable {vs : List Variable} {f : Formula} {n index k : Nat}

theorem shiftLeft_one (hn : n ≤ maxVariables) : shiftLeft 1 n = .ok (rowCount n) := by
  have hwidth : n < wordSize := Nat.lt_of_le_of_lt hn (by decide)
  have hpow : 2 ^ n ≤ 2 ^ maxVariables := Nat.pow_le_pow_right (by decide) hn
  have hsize : 2 ^ maxVariables < UInt64.size := by decide
  unfold shiftLeft
  rw [Nat.one_shiftLeft, if_pos ⟨hwidth, by omega⟩]
  rfl

theorem sub_eq (h : k ≤ n) : sub n k = .ok (n - k) := if_neg (Nat.not_lt.mpr h)

/-- The place of a digit is counted from the last variable, and there is such a place. -/
theorem digit_eq (hn : n ≤ maxVariables) (hk : k < n) :
    digit n index k = .ok (index.testBit (n - 1 - k)) := by
  have hplace : n - 1 - k < wordSize := by
    have h : maxVariables < wordSize := by decide
    omega
  have hbit : (index >>> (n - 1 - k) &&& 1 == 1) = index.testBit (n - 1 - k) := by
    rw [Nat.testBit_eq_decide_div_mod_eq, Nat.and_one_is_mod, Nat.shiftRight_eq_div_pow]
    rfl
  unfold digit
  rw [sub_eq (by omega)]
  dsimp only [bind, Except.bind]
  rw [sub_eq (by omega)]
  dsimp only
  rw [shiftRight, if_pos hplace]
  exact congrArg Except.ok hbit

theorem mapM_eq {α β : Type} {step : α → Except Fault β} (value : α → β) :
    ∀ {xs : List α}, (∀ x ∈ xs, step x = .ok (value x)) → xs.mapM step = .ok (xs.map value)
  | [], _ => rfl
  | x :: xs, h => by
    obtain ⟨hx, hxs⟩ := List.forall_mem_cons.mp h
    rw [List.mapM_cons, hx, mapM_eq value hxs]
    rfl

theorem assignment_eq (vs : List Variable) (index : Nat) :
    assignment vs index = (Assignment.ofIndex vs index).mapError .misuse := by
  unfold assignment Assignment.ofIndex
  dsimp only
  by_cases hn : maxVariables < vs.length
  · rw [if_pos hn, if_pos hn]
    rfl
  have hn' : vs.length ≤ maxVariables := Nat.not_lt.mp hn
  rw [if_neg hn, if_neg hn, shiftLeft_one hn']
  dsimp only [bind, Except.bind, pure, Except.pure]
  by_cases hindex : rowCount vs.length ≤ index
  · rw [if_pos hindex, if_pos hindex]
    rfl
  rw [if_neg hindex, if_neg hindex]
  have hbindings : vs.zipIdx.mapM (fun x => do
      let b ← digit vs.length index x.2
      return (x.1, b)) =
      .ok (vs.zipIdx.map fun x => (x.1, index.testBit (vs.length - 1 - x.2))) := by
    refine mapM_eq _ fun x hx => ?_
    rw [digit_eq hn' (List.snd_lt_of_mem_zipIdx hx)]
    rfl
  exact congrArg (Except.map Assignment.ofList) hbindings

theorem row_eq (vs : List Variable) (f : Formula) (index : Nat) :
    row vs f index = (Row.ofIndex vs f index).mapError .misuse := by
  unfold row Row.ofIndex
  rw [assignment_eq]
  cases Assignment.ofIndex vs index with
  | error m => rfl
  | ok a =>
    dsimp only [Except.mapError, bind, Except.bind]
    cases f.evalIn a <;> rfl

theorem tabulate_eq (hvs : vs.Nodup) (hlength : vs.length ≤ maxVariables)
    (hf : ∀ v ∈ f.leaves, v ∈ vs) : tabulate vs f = .ok (Table.full vs f) := by
  unfold tabulate
  rw [shiftLeft_one hlength]
  dsimp only [bind, Except.bind]
  rw [mapM_eq fun index => Row.ofValuation vs f (valuationAt vs index)]
  · rfl
  · intro index hindex
    rw [row_eq, Row.ofIndex_eq hvs hlength hf (List.mem_range.mp hindex)]
    rfl

theorem tabulate_vars_eq (h : f.vars.length ≤ maxVariables) :
    tabulate f.vars f = .ok (Table.full f.vars f) :=
  tabulate_eq f.nodup_vars h f.mem_vars_of_mem_leaves

/-! ### The column as a word -/

theorem toNat_toUInt64 (b : Bool) : b.toUInt64.toNat = b.toNat := by cases b <;> rfl

/-- A word that is not full yet has room for one more bit. -/
theorem push_eq {word : UInt64} {j : Nat} (hword : word.toNat < 2 ^ j) (hj : j < wordSize)
    (b : Bool) :
    push word.toNat b = .ok ((word <<< 1) ||| b.toUInt64).toNat ∧
      ((word <<< 1) ||| b.toUInt64).toNat < 2 ^ (j + 1) := by
  have hsize : 2 ^ (j + 1) ≤ UInt64.size := Nat.pow_le_pow_right (by decide) hj
  have hmove : word.toNat <<< 1 < 2 ^ (j + 1) := by
    rw [Nat.shiftLeft_eq, Nat.pow_succ]
    omega
  have hfits : word.toNat <<< 1 < UInt64.size := Nat.lt_of_lt_of_le hmove hsize
  have hword' : (word <<< 1).toNat = word.toNat <<< 1 :=
    (UInt64.toNat_shiftLeft word 1).trans (Nat.mod_eq_of_lt hfits)
  have hb : b.toNat < 2 ^ (j + 1) :=
    Nat.lt_of_lt_of_le b.toNat_lt (Nat.le_self_pow (Nat.succ_ne_zero j) 2)
  rw [UInt64.toNat_or, hword', toNat_toUInt64]
  refine ⟨?_, Nat.or_lt_two_pow hmove hb⟩
  unfold push shiftLeft
  rw [if_pos ⟨by decide, hfits⟩]
  rfl

/-- A list of bits fits a word as long as it has no more bits than there are places left. -/
theorem foldlM_push_eq {bs : List Bool} {word : UInt64} {j : Nat} (hword : word.toNat < 2 ^ j)
    (hj : j + bs.length ≤ wordSize) :
    bs.foldlM push word.toNat =
      .ok (bs.foldl (fun (word : UInt64) b => (word <<< 1) ||| b.toUInt64) word).toNat := by
  induction bs generalizing word j with
  | nil => rfl
  | cons b bs ih =>
    rw [List.length_cons] at hj
    obtain ⟨hpush, hlt⟩ := push_eq hword (by omega) b
    rw [List.foldlM_cons, hpush]
    exact ih hlt (by omega)

theorem bits_eq {t : Table} (h : t.rows.length ≤ wordSize) : bits t = .ok t.bits.toNat := by
  have hlength : 0 + t.results.length ≤ wordSize := by
    rwa [Nat.zero_add, Table.length_results]
  exact foldlM_push_eq (show (0 : UInt64).toNat < 2 ^ 0 from Nat.one_pos) hlength

/-! ### Tables -/

theorem ofFormula_eq (f : Formula) : ofFormula f = (Table.ofFormula f).mapError Failure.halt := by
  rw [Table.ofFormula_eq]
  unfold ofFormula
  dsimp only
  split
  · rfl
  · next h =>
    rw [tabulate_vars_eq (Nat.not_lt.mp h)]
    rfl

theorem ofText_eq {o : Options} {text : String} {r : Journaled Table} (h : Generation o text r) :
    ofText o text = r.outcome.mapError Failure.halt := by
  unfold ofText
  rw [scan_eq]
  cases h with
  | blank hblank =>
    rw [hblank]
    rfl
  | unreadable hblank hscan =>
    rw [if_neg (by rwa [List.isEmpty_iff]), hscan]
    rfl
  | noVariables hblank hscan hvars =>
    rw [if_neg (by rwa [List.isEmpty_iff]), hscan]
    dsimp only [bind, Except.bind, Except.mapError, pure, Except.pure]
    rw [hvars]
    rfl
  | @tooManyVariables ts hscan hlength =>
    have hvars : Token.vars ts ≠ [] := List.ne_nil_of_length_pos (Nat.zero_lt_of_lt hlength)
    rw [if_neg (Generation.trim_not_isEmpty hscan hvars), hscan]
    dsimp only [bind, Except.bind, Except.mapError, pure, Except.pure]
    rw [if_neg (by rwa [List.isEmpty_iff]), if_pos hlength]
    rfl
  | unparsable hscan hvars hlength hparse =>
    rw [if_neg (Generation.trim_not_isEmpty hscan hvars), hscan]
    dsimp only [bind, Except.bind, Except.mapError, pure, Except.pure]
    rw [if_neg (by rwa [List.isEmpty_iff]), if_neg (Nat.not_lt.mpr hlength), Descent.parse_eq,
      hparse]
    rfl
  | @parsed ts f hscan hlength hparse =>
    have hvf := vars_eq_of_parse hparse
    have hvars : Token.vars ts ≠ [] := hvf ▸ f.vars_ne_nil
    rw [if_neg (Generation.trim_not_isEmpty hscan hvars), hscan]
    dsimp only [bind, Except.bind, Except.mapError, pure, Except.pure]
    rw [if_neg (by rwa [List.isEmpty_iff]), if_neg (Nat.not_lt.mpr hlength), Descent.parse_eq,
      hparse]
    dsimp only [Except.mapError]
    rw [hvf, tabulate_vars_eq (Generation.length_vars_le hlength hparse)]

end Checked

/-! ### What can be asked of a table -/

/-- Each row has a value for each variable, and the column of the results fits a word. -/
structure Table.Answers (t : Table) : Prop where
  get : ∀ r ∈ t.rows, ∀ v ∈ t.vars, ∃ b, r.assignment.get v = .ok b
  bits : Checked.bits t = .ok t.bits.toNat

theorem Table.full_answers {vs : List Variable} {f : Formula} (h : vs.length ≤ maxVariables) :
    (full vs f).Answers where
  get r hr v hv := by
    obtain ⟨index, -, rfl⟩ := List.mem_map.mp hr
    have hget := Assignment.get?_ofValuation vs (valuationAt vs index) v
    rw [if_pos (show v ∈ vs from hv)] at hget
    refine ⟨valuationAt vs index v, ?_⟩
    change Assignment.get (Assignment.ofValuation vs (valuationAt vs index)) v = _
    rw [Assignment.get, hget]
  bits := Checked.bits_eq (size_full_le h)

theorem Generation.exists_outcome {o : Options} {text : String} {r : Journaled Table}
    (h : Generation o text r) : ∃ out : Except Rejection Table,
      r.outcome = out.mapError .rejected ∧ ∀ t, out = .ok t → t.Answers := by
  cases h with
  | blank | unreadable | noVariables | tooManyVariables | unparsable =>
    exact ⟨.error _, rfl, fun _ h => nomatch h⟩
  | @parsed ts f hscan hlength hparse =>
    refine ⟨.ok (Table.full f.vars f), rfl, ?_⟩
    rintro t ⟨⟩
    exact Table.full_answers (length_vars_le hlength hparse)

theorem Table.exists_outcome_ofFormula (f : Formula) : ∃ out : Except Rejection Table,
    ofFormula f = out.mapError .rejected ∧ ∀ t, out = .ok t → t.Answers := by
  rw [ofFormula_eq]
  split
  · exact ⟨.error _, rfl, fun _ h => nomatch h⟩
  · next h =>
    refine ⟨.ok (full f.vars f), rfl, ?_⟩
    rintro t ⟨⟩
    exact full_answers (Nat.not_lt.mp h)

theorem Checked.mapError_halt (out : Except Rejection Table) :
    (out.mapError .rejected).mapError Failure.halt = out.mapError .refused := by
  cases out <;> rfl

/-- **No fault can be reached**, from any text with any options and from any formula: with every
step checked the outcome is the same, a table or a rejection, and whatever is asked of the table has
an answer. -/
theorem Checked.never_faults :
    (∀ (o : Options) (text : String), ∃ out : Except Rejection Table,
      ofText o text = out.mapError .refused ∧ Table.ofText o text = out.mapError .rejected ∧
        ∀ t, out = .ok t → t.Answers) ∧
    ∀ f : Formula, ∃ out : Except Rejection Table,
      ofFormula f = out.mapError .refused ∧ Table.ofFormula f = out.mapError .rejected ∧
        ∀ t, out = .ok t → t.Answers := by
  constructor
  · intro o text
    obtain ⟨r, h⟩ := Generation.exists_generation o text
    obtain ⟨out, hout, hanswers⟩ := h.exists_outcome
    refine ⟨out, ?_, ?_, hanswers⟩
    · rw [ofText_eq h, hout, mapError_halt]
    · rw [Table.ofText, h.journal_eq, hout]
  · intro f
    obtain ⟨out, hout, hanswers⟩ := Table.exists_outcome_ofFormula f
    refine ⟨out, ?_, hout, hanswers⟩
    rw [ofFormula_eq, hout, mapError_halt]

/-- A limit that is larger than a table allows does no harm. -/
theorem Checked.never_faults_large_limit :
    ∃ t, ofText ⟨.full, 9⟩ "∼(A → B)" = .ok t ∧ t.Answers := by
  obtain ⟨out, hchecked, htext, hanswers⟩ := never_faults.1 ⟨.full, 9⟩ "∼(A → B)"
  have hok : (Table.ofText ⟨.full, 9⟩ "∼(A → B)").isOk = true := by decide +kernel
  cases out with
  | error r =>
    rw [htext] at hok
    cases hok
  | ok t => exact ⟨t, hchecked, hanswers t rfl⟩

end Sentential
