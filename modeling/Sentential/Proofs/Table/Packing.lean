import Mathlib.Data.List.Induction
import Sentential.Proofs.Table.Analysis
import Sentential.Proofs.Table.Checked

/-!
# The column of a table as a word

To pack bits into a word is to move what is there up by one place and to put the next bit below it.
What is moved beyond the highest place is gone, so the digits of the word are the last bits of the
list as far as the word goes (`testBit_packed`). A list that fits is known from its word: the word
is the only number that has its bits as digits (`toNat_packed_eq_iff`).

A generated table has at most as many rows as a word has places. With six variables it has exactly
as many, and then the result of the first row is in the highest place of all. So nothing is lost
(`packs_of_generated`), and the questions about the column can be asked of the word.
-/

namespace Sentential.Table

/-! ### One more bit -/

theorem packed_append_singleton (bs : List Bool) (b : Bool) :
    packed (bs ++ [b]) = (packed bs <<< 1) ||| b.toUInt64 := List.foldl_append

theorem testBit_push_zero (word : UInt64) (b : Bool) :
    ((word <<< 1) ||| b.toUInt64).toNat.testBit 0 = b := by
  rw [UInt64.toNat_or, UInt64.toNat_shiftLeft, Checked.toNat_toUInt64, Nat.testBit_or,
    Nat.testBit_mod_two_pow, Nat.testBit_shiftLeft, Nat.testBit_bool_toNat]
  simp

/-- The others move up, and the highest one out of the word. -/
theorem testBit_push_succ (word : UInt64) (b : Bool) (j : Nat) :
    ((word <<< 1) ||| b.toUInt64).toNat.testBit (j + 1) =
      (decide (j + 1 < 64) && word.toNat.testBit j) := by
  rw [UInt64.toNat_or, UInt64.toNat_shiftLeft, Checked.toNat_toUInt64, Nat.testBit_or,
    Nat.testBit_mod_two_pow, Nat.testBit_shiftLeft, Nat.testBit_bool_toNat]
  simp

/-! ### Lists of bits -/

/-- **The digits of a packed word** are the last 64 bits of the list, from the last one on. -/
theorem testBit_packed (bs : List Bool) (j : Nat) :
    (packed bs).toNat.testBit j = (decide (j < 64) && bs.reverse[j]?.getD false) := by
  induction bs using List.reverseRecOn generalizing j with
  | nil => simp [packed]
  | append_singleton bs b ih =>
    rw [packed_append_singleton, List.reverse_append, List.reverse_singleton,
      List.singleton_append]
    cases j with
    | zero =>
      rw [testBit_push_zero]
      rfl
    | succ j =>
      rw [testBit_push_succ, ih, List.getElem?_cons_succ]
      by_cases hj : j + 1 < 64
      · rw [decide_eq_true hj, decide_eq_true (Nat.lt_of_succ_lt hj), Bool.true_and]
      · rw [decide_eq_false hj, Bool.false_and, Bool.false_and]

variable {bs cs : List Bool}

theorem packed_lt (bs : List Bool) : (packed bs).toNat < 2 ^ bs.length := by
  refine Nat.lt_pow_two_of_testBit _ fun j hj => ?_
  have hnone : bs.reverse[j]? = none := List.getElem?_eq_none (by rwa [List.length_reverse])
  rw [testBit_packed, hnone]
  exact Bool.and_false _

theorem digit_packed (hfits : bs.length ≤ 64) {i : Nat} (hi : i < bs.length) :
    (packed bs).toNat.testBit (bs.length - 1 - i) = bs[i] := by
  have hplace : bs.length - 1 - i < bs.length := by omega
  have hback : bs.length - 1 - (bs.length - 1 - i) = i := by omega
  have hbit : bs.reverse[bs.length - 1 - i]? = some bs[i] := by
    rw [List.getElem?_reverse hplace, hback, List.getElem?_eq_getElem hi]
  rw [testBit_packed, decide_eq_true (Nat.lt_of_lt_of_le hplace hfits), hbit]
  rfl

/-- **There is one number with these digits.** -/
theorem toNat_packed_eq_iff (hfits : bs.length ≤ 64) {n : Nat} (hn : n < 2 ^ bs.length) :
    (packed bs).toNat = n ↔
      ∀ (i : Nat) (hi : i < bs.length), n.testBit (bs.length - 1 - i) = bs[i] := by
  constructor
  · rintro rfl i hi
    exact digit_packed hfits hi
  · intro hdigit
    refine Nat.eq_of_testBit_eq fun j => ?_
    by_cases hj : j < bs.length
    · -- the place `j` is that of the bit with `j` others behind it
      have hi : bs.length - 1 - j < bs.length := by omega
      have hplace : bs.length - 1 - (bs.length - 1 - j) = j := by omega
      have h := (digit_packed hfits hi).trans (hdigit _ hi).symm
      rwa [hplace] at h
    · have hpow : 2 ^ bs.length ≤ 2 ^ j := Nat.pow_le_pow_right (by decide) (Nat.not_lt.mp hj)
      have hlt := packed_lt bs
      rw [Nat.testBit_lt_two_pow (by omega), Nat.testBit_lt_two_pow (by omega)]

theorem packed_inj (hfits : bs.length ≤ 64) (hlength : bs.length = cs.length)
    (h : packed bs = packed cs) : bs = cs := by
  refine List.ext_getElem hlength fun i hi hi' => ?_
  rw [← digit_packed hfits hi, h, hlength, digit_packed (hlength ▸ hfits) hi']

theorem toNat_packed_eq_max_iff (hfits : bs.length ≤ 64) :
    (packed bs).toNat = 2 ^ bs.length - 1 ↔ ∀ b ∈ bs, b = true := by
  have hmax : 2 ^ bs.length - 1 < 2 ^ bs.length := Nat.sub_one_lt (Nat.two_pow_pos _).ne'
  rw [toNat_packed_eq_iff hfits hmax, List.forall_mem_iff_forall_getElem]
  refine forall₂_congr fun i hi => ?_
  have hplace : bs.length - 1 - i < bs.length := by omega
  rw [Nat.testBit_two_pow_sub_one, decide_eq_true hplace, eq_comm]

theorem toNat_packed_eq_zero_iff (hfits : bs.length ≤ 64) :
    (packed bs).toNat = 0 ↔ ∀ b ∈ bs, b = false := by
  rw [toNat_packed_eq_iff hfits (Nat.two_pow_pos _), List.forall_mem_iff_forall_getElem]
  refine forall₂_congr fun i hi => ?_
  rw [Nat.zero_testBit, eq_comm]

/-- The number of places of a word with the digit one. -/
def ones (word : UInt64) : Nat := (List.range 64).countP fun j => word.toNat.testBit j

/-- To count along the places is to count along the list, and nothing beyond its end counts. -/
theorem countP_range_getElem? {l : List Bool} {n : Nat} (h : l.length ≤ n) :
    (List.range n).countP (fun j => l[j]?.getD false) = l.count true := by
  induction l generalizing n with
  | nil => simp
  | cons b l ih =>
    cases n with
    | zero => cases h
    | succ n =>
      have hrest := ih (Nat.le_of_succ_le_succ h)
      rw [List.range_succ_eq_map, List.countP_cons, List.countP_map, List.count_cons, ← hrest]
      simp [Function.comp_def]

theorem ones_packed (hfits : bs.length ≤ 64) : ones (packed bs) = bs.count true := by
  have hdigit : ∀ j ∈ List.range 64, (packed bs).toNat.testBit j = bs.reverse[j]?.getD false := by
    intro j hj
    rw [testBit_packed, decide_eq_true (List.mem_range.mp hj), Bool.true_and]
  have hcount := countP_range_getElem? (l := bs.reverse) (n := 64) (by rwa [List.length_reverse])
  rw [List.count_reverse] at hcount
  rw [← hcount]
  exact List.countP_congr fun j hj => by rw [hdigit j hj]

/-! ### Tables -/

/-- The word of the table has the result of each row in a place of its own, the first row in the
highest place that is used, and no digit was moved out of it. So the word answers for the column. -/
structure Packs (t : Table) : Prop where
  size_eq : t.size = 2 ^ t.vars.length
  size_le : t.size ≤ 64
  digit : ∀ (i : Nat) (hi : i < t.rows.length),
    t.bits.toNat.testBit (t.size - 1 - i) = t.rows[i].result
  lt : t.bits.toNat < 2 ^ t.size
  nothing_lost : Checked.bits t = .ok t.bits.toNat
  countTrue_eq : t.countTrue = ones t.bits
  tautology : t.isTautology = true ↔ t.bits.toNat = 2 ^ t.size - 1
  contradiction : t.isContradiction = true ↔ t.bits.toNat = 0

theorem isContradiction_iff {t : Table} :
    t.isContradiction = true ↔ ∀ b ∈ t.results, b = false := by
  simp [isContradiction, isSatisfiable]

/-- **A table with at most 64 rows** is packed without loss. -/
theorem packs_of_le {t : Table} (hsize : t.size = 2 ^ t.vars.length) (hle : t.size ≤ 64) :
    t.Packs := by
  have hlength := length_results t
  have hfits : t.results.length ≤ 64 := hlength ▸ hle
  exact {
    size_eq := hsize
    size_le := hle
    digit := by
      intro i hi
      have hi' : i < t.results.length := hlength ▸ hi
      have hresult : t.results[i] = t.rows[i].result := List.getElem_map _
      rw [← hresult, ← digit_packed hfits hi', hlength, bits]
    lt := hlength ▸ packed_lt t.results
    nothing_lost := Checked.bits_eq hle
    countTrue_eq := (ones_packed hfits).symm
    tautology := by
      rw [← hlength, bits, toNat_packed_eq_max_iff hfits]
      exact List.all_eq_true
    contradiction := by
      rw [bits, toNat_packed_eq_zero_iff hfits, isContradiction_iff] }

variable {vs : List Variable} {f g : Formula}

theorem packs_full (h : vs.length ≤ maxVariables) : (full vs f).Packs :=
  packs_of_le size_full (size_full_le h)

theorem full_eq_of_results_eq (h : (full vs f).results = (full vs g).results) :
    full vs f = full vs g := by
  rw [results_full, results_full, List.map_inj_left] at h
  unfold full
  congr 1
  refine List.map_congr_left fun index hindex => ?_
  rw [Row.ofValuation, Row.ofValuation, h index hindex]

/-- **Generated tables are packed without loss**, and they are known from their variables and their
words. -/
theorem packs_of_generated :
    (∀ t : Table, t.Generated → t.Packs) ∧
    ∀ t u : Table, t.Generated → u.Generated → t.vars = u.vars → t.bits = u.bits → t = u := by
  constructor
  · intro t h
    obtain ⟨f, hlength, rfl⟩ := generated_iff.mp h
    exact packs_full hlength
  · intro t u ht hu hvars hbits
    obtain ⟨f, hlength, rfl⟩ := generated_iff.mp ht
    obtain ⟨g, -, rfl⟩ := generated_iff.mp hu
    have hvars' : f.vars = g.vars := hvars
    rw [← hvars'] at hbits ⊢
    refine full_eq_of_results_eq (packed_inj ?_ ?_ hbits)
    · rw [length_results]
      exact size_full_le hlength
    · rw [length_results, length_results, size_full, size_full]

/-- Six variables fill the word: that of a tautology has a one in each of its 64 places. Another
tautology in the same variables has the same word, and so the same table. -/
theorem packs_six_variables :
    let a : Formula := .var ⟨'A', rfl⟩
    let others : List Variable := [⟨'B', rfl⟩, ⟨'C', rfl⟩, ⟨'D', rfl⟩, ⟨'E', rfl⟩, ⟨'F', rfl⟩]
    let f : Formula := others.foldl (fun f v => .binary .or f (.var v)) (.binary .or a (.not a))
    let g : Formula := others.foldl (fun f v => .binary .implies (.var v) f) (.binary .iff a a)
    ∃ t u, ofFormula f = .ok t ∧ ofFormula g = .ok u ∧ t.Packs ∧ t.bits.toNat = 2 ^ 64 - 1 ∧
      ones t.bits = 64 ∧ t = u := by
  intro a others f g
  have hf : ofFormula f = .ok (full f.vars f) := ofFormula_of_le (by decide)
  have hg : ofFormula g = .ok (full g.vars g) := ofFormula_of_le (by decide)
  have hpacks := packs_of_generated.1 _ (.ofFormula hf)
  have hpacks' := packs_of_generated.1 _ (.ofFormula hg)
  have hsize : (full f.vars f).size = 64 := by rw [size_full]; decide
  have hsize' : (full g.vars g).size = 64 := by rw [size_full]; decide
  have hbits := hpacks.tautology.mp (by decide +kernel)
  have hbits' := hpacks'.tautology.mp (by decide +kernel)
  have hcount : (full f.vars f).countTrue = 64 := by decide +kernel
  have hsame := packs_of_generated.2 _ _ (.ofFormula hf) (.ofFormula hg) (by decide)
    (UInt64.toNat_inj.mp (by rw [hbits, hbits', hsize, hsize']))
  exact ⟨_, _, hf, hg, hpacks, hsize ▸ hbits, hpacks.countTrue_eq ▸ hcount, hsame⟩

end Sentential.Table
