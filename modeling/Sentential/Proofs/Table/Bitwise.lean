import Sentential.Proofs.Table.Packing

/-!
# The word of a composed formula

Where two formulas have the same variables, their tables have the same assignments in the same rows,
and so has the table of any formula composed of the two. Row by row its result is that of the
connective, so its word comes from the words of the two digit by digit: `Connective.onWords` is the
connective as an operation on words. Complements are taken within the places that are used, which
may be all of them.
-/

namespace Sentential

/-- The connective as an operation on words of which only the digits in the mask are used. -/
def Connective.onWords (mask : Nat) : Connective → Nat → Nat → Nat
  | .iff, m, n => mask - (m ^^^ n)
  | .implies, m, n => (mask - m) ||| n
  | .or, m, n => m ||| n
  | .xor, m, n => m ^^^ n
  | .and, m, n => m &&& n

namespace Table

/-! ### Words -/

variable {m n w i : Nat}

theorem mask_sub_lt : 2 ^ w - 1 - m < 2 ^ w := by
  have hpos := Nat.two_pow_pos w
  omega

theorem testBit_mask_sub (hm : m < 2 ^ w) (hi : i < w) :
    (2 ^ w - 1 - m).testBit i = !m.testBit i := by
  rw [Nat.sub_sub, Nat.add_comm, Nat.testBit_two_pow_sub_succ hm, decide_eq_true hi, Bool.true_and]

theorem onWords_lt (c : Connective) (hm : m < 2 ^ w) (hn : n < 2 ^ w) :
    c.onWords (2 ^ w - 1) m n < 2 ^ w := by
  cases c with
  | iff => exact mask_sub_lt
  | implies => exact Nat.or_lt_two_pow mask_sub_lt hn
  | or => exact Nat.or_lt_two_pow hm hn
  | xor => exact Nat.xor_lt_two_pow hm hn
  | and => exact Nat.and_lt_two_pow m hn

/-- **On each digit that is used the operation is the connective.** -/
theorem testBit_onWords (c : Connective) (hm : m < 2 ^ w) (hn : n < 2 ^ w) (hi : i < w) :
    (c.onWords (2 ^ w - 1) m n).testBit i = c.apply (m.testBit i) (n.testBit i) := by
  cases c with
  | iff =>
    rw [Connective.onWords, testBit_mask_sub (Nat.xor_lt_two_pow hm hn) hi, Nat.testBit_xor]
    cases m.testBit i <;> cases n.testBit i <;> rfl
  | implies => rw [Connective.onWords, Nat.testBit_or, testBit_mask_sub hm hi]; rfl
  | or => exact Nat.testBit_or ..
  | xor => exact Nat.testBit_xor ..
  | and => exact Nat.testBit_and ..

/-! ### Columns -/

variable {vs : List Variable} {f g : Formula}

theorem bits_full_lt (hlength : vs.length ≤ maxVariables) :
    (full vs f).bits.toNat < 2 ^ 2 ^ vs.length := by
  have h := (packs_full (f := f) hlength).lt
  rwa [size_full] at h

theorem digit_bits_full (hlength : vs.length ≤ maxVariables) {index : Nat}
    (hindex : index < 2 ^ vs.length) :
    (full vs f).bits.toNat.testBit (2 ^ vs.length - 1 - index) = f.eval (valuationAt vs index) := by
  have hrow : index < (full vs f).rows.length := hindex.trans_eq size_full.symm
  have h := (packs_full (f := f) hlength).digit index hrow
  rwa [size_full, getElem_rows_full] at h

theorem toNat_bits_full_eq (hlength : vs.length ≤ maxVariables) (hn : n < 2 ^ 2 ^ vs.length)
    (hdigit : ∀ index < 2 ^ vs.length,
      n.testBit (2 ^ vs.length - 1 - index) = f.eval (valuationAt vs index)) :
    (full vs f).bits.toNat = n := by
  have hsize : (full vs f).results.length = 2 ^ vs.length := by rw [length_results, size_full]
  have hfits : (full vs f).results.length ≤ 64 := (length_results _).trans_le (size_full_le hlength)
  refine (toNat_packed_eq_iff hfits (hsize ▸ hn)).mpr fun index hindex => ?_
  have hvalue : (full vs f).results[index] = f.eval (valuationAt vs index) := by simp [results_full]
  rw [hvalue, hsize, hdigit index (hsize ▸ hindex)]

theorem toNat_bits_not_full (hlength : vs.length ≤ maxVariables) :
    (full vs (.not f)).bits.toNat = 2 ^ 2 ^ vs.length - 1 - (full vs f).bits.toNat := by
  refine toNat_bits_full_eq hlength mask_sub_lt fun index hindex => ?_
  rw [testBit_mask_sub (bits_full_lt hlength) (by omega), digit_bits_full hlength hindex]
  rfl

theorem toNat_bits_binary_full (hlength : vs.length ≤ maxVariables) (c : Connective) :
    (full vs (.binary c f g)).bits.toNat =
      c.onWords (2 ^ 2 ^ vs.length - 1) (full vs f).bits.toNat (full vs g).bits.toNat := by
  have hf := bits_full_lt (f := f) hlength
  have hg := bits_full_lt (f := g) hlength
  refine toNat_bits_full_eq hlength (onWords_lt c hf hg) fun index hindex => ?_
  rw [testBit_onWords c hf hg (by omega), digit_bits_full hlength hindex,
    digit_bits_full hlength hindex]
  rfl

/-! ### Formulas with the same variables -/

theorem vars_binary (h : f.vars = g.vars) (c : Connective) :
    (Formula.binary c f g).vars = f.vars := by
  refine Variable.eq_of_mem_iff id (Formula.binary c f g).pairwise_vars f.pairwise_vars fun v => ?_
  have hmem : v ∈ g.leaves ↔ v ∈ f.leaves := by rw [← Formula.mem_vars, ← h, Formula.mem_vars]
  rw [Formula.mem_vars, Formula.mem_vars, Formula.leaves, List.mem_append, hmem, or_self]

/-- **Words are composed as formulas are.** If two formulas have the same variables, and not too
many, the negation of the first one and each formula composed of the two has a table over these
variables. Its word is the complement of the word of the first one, or the operation of the
connective on their two words, where complements are taken within one place for each row. -/
theorem bits_compose (f g : Formula) (hvars : f.vars = g.vars)
    (hlength : f.vars.length ≤ maxVariables) :
    ∃ t u, ofFormula f = .ok t ∧ ofFormula g = .ok u ∧ t.vars = f.vars ∧ u.vars = f.vars ∧
      (∃ w, ofFormula (.not f) = .ok w ∧ w.vars = f.vars ∧
        w.bits.toNat = 2 ^ 2 ^ f.vars.length - 1 - t.bits.toNat) ∧
      ∀ c : Connective, ∃ w, ofFormula (.binary c f g) = .ok w ∧ w.vars = f.vars ∧
        w.bits.toNat = c.onWords (2 ^ 2 ^ f.vars.length - 1) t.bits.toNat u.bits.toNat := by
  refine ⟨full f.vars f, full f.vars g, ofFormula_of_le hlength, ?_, rfl, rfl, ?_, fun c => ?_⟩
  · rw [hvars]
    exact ofFormula_of_le (hvars ▸ hlength)
  · exact ⟨full f.vars (.not f), ofFormula_of_le hlength, rfl, toNat_bits_not_full hlength⟩
  · have hc := vars_binary hvars c
    have hle : (Formula.binary c f g).vars.length ≤ maxVariables := by rwa [hc]
    refine ⟨full f.vars (.binary c f g), ?_, rfl, toNat_bits_binary_full hlength c⟩
    rw [ofFormula_of_le hle, hc]

/-- Over six variables all places are used. The conjunction is true in the last row alone, the
disjunction everywhere but in the first one, and they agree in these two rows. -/
theorem bits_compose_six_variables :
    let others : List Variable := [⟨'B', rfl⟩, ⟨'C', rfl⟩, ⟨'D', rfl⟩, ⟨'E', rfl⟩, ⟨'F', rfl⟩]
    let joined (c : Connective) : Formula :=
      others.foldl (fun f v => .binary c f (.var v)) (.var ⟨'A', rfl⟩)
    (joined .and).vars = (joined .or).vars ∧ (joined .and).vars.length ≤ maxVariables ∧
      ∃ t u v w, ofFormula (joined .and) = .ok t ∧ ofFormula (joined .or) = .ok u ∧
        ofFormula (.not (joined .and)) = .ok v ∧
        ofFormula (.binary .iff (joined .and) (joined .or)) = .ok w ∧
        t.bits.toNat = 1 ∧ u.bits.toNat = 2 ^ 63 - 1 ∧ v.bits.toNat = 2 ^ 64 - 2 ∧
        w.bits.toNat = 2 ^ 63 + 1 := by
  intro others joined
  have hvars : (joined .and).vars = (joined .or).vars := by decide
  have hsix : (joined .and).vars.length = 6 := by decide
  obtain ⟨t, u, ht, hu, -, -, ⟨v, hv, -, hnot⟩, hbinary⟩ := bits_compose _ _ hvars (hsix ▸ le_rfl)
  obtain ⟨w, hw, -, hiff⟩ := hbinary .iff
  have htbits : t.bits.toNat = 1 := by
    obtain rfl := (ofFormula_eq_ok_iff.mp ht).2
    decide +kernel
  have hubits : u.bits.toNat = 2 ^ 63 - 1 := by
    obtain rfl := (ofFormula_eq_ok_iff.mp hu).2
    decide +kernel
  rw [hsix, htbits] at hnot
  rw [hsix, htbits, hubits] at hiff
  exact ⟨hvars, hsix ▸ le_rfl, t, u, v, w, ht, hu, hv, hw, htbits, hubits, hnot, hiff⟩

end Table

end Sentential
