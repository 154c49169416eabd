import Sentential.Reading.Grammar
import Sentential.Reading.Pending

/-!
# How deep the signs of a derivation nest

`Pending.peak stack ts` is the largest number of signs that are pending at some place in `ts`, where
those of `stack` were pending before; `nesting ts` is the peak from nothing, so a list nests within
`n` just if its nesting is at most `n` (`nestsWithin_iff`). A derived list leaves nothing pending
that it has opened itself (`Derives.foldl_step`), hence its peak from a stack is its own nesting on
top of that stack (`Derives.peak_eq`). The nesting then follows the derivation: `∼` and parentheses
add one, a link takes the larger of its sides.
-/

namespace Sentential

namespace Pending

theorem settle_settle : ∀ stack, settle (settle stack) = settle stack
  | [] => rfl
  | negation :: stack => settle_settle stack
  | paren :: _ => rfl

theorem length_settle_le : ∀ stack, (settle stack).length ≤ stack.length
  | [] => Nat.le_refl _
  | negation :: stack => Nat.le_succ_of_le (length_settle_le stack)
  | paren :: _ => Nat.le_refl _

/-- The largest number of pending signs at a place in the list. -/
def peak (stack : List Pending) : List Token → Nat
  | [] => stack.length
  | t :: ts => max stack.length (peak (step stack t) ts)

theorem length_le_peak (stack : List Pending) (ts : List Token) : stack.length ≤ peak stack ts := by
  cases ts with
  | nil => exact Nat.le_refl _
  | cons t ts => exact Nat.le_max_left ..

theorem peak_append (us : List Token) : ∀ (ts : List Token) (stack : List Pending),
    peak stack (ts ++ us) = max (peak stack ts) (peak (ts.foldl step stack) us)
  | [], stack => by
    have := length_le_peak stack us
    simp only [List.nil_append, peak, List.foldl_nil]
    omega
  | t :: ts, stack => by
    simp only [List.cons_append, peak, List.foldl_cons, peak_append us ts]
    omega

theorem peak_le_iff {n : Nat} : ∀ {ts : List Token} {stack : List Pending},
    peak stack ts ≤ n ↔ ∀ us, us <+: ts → (us.foldl step stack).length ≤ n
  | [], stack => by simp [peak]
  | t :: ts, stack => by
    rw [peak, Nat.max_le, peak_le_iff]
    constructor
    · rintro ⟨h, h'⟩ us hus
      rcases List.prefix_cons_iff.mp hus with rfl | ⟨vs, rfl, hvs⟩
      · exact h
      · exact h' vs hvs
    · intro h
      refine ⟨h [] (List.nil_prefix ..), fun us hus => ?_⟩
      exact h (t :: us) (List.cons_prefix_cons.mpr ⟨rfl, hus⟩)

end Pending

open Pending

/-- How deep `(` and `∼` nest in the list. -/
def nesting (ts : List Token) : Nat := peak [] ts

theorem nestsWithin_iff {n : Nat} {ts : List Token} : NestsWithin n ts ↔ nesting ts ≤ n :=
  peak_le_iff.symm

namespace Derives

variable {cs : List Connective} {ts us : List Token} {f g : Formula}

theorem ne_nil (h : Derives cs ts f) : ts ≠ [] := by
  induction h with
  | var | not | parens => simp
  | operand _ ih => exact ih
  | link => simp

/-- **A derived list is one operand**: all that it opens is finished. -/
theorem foldl_step (h : Derives cs ts f) : ∀ stack, ts.foldl step stack = settle stack := by
  induction h with
  | var v => exact fun stack => rfl
  | not _ ih => exact fun stack => ih (negation :: stack)
  | parens _ ih =>
    intro stack
    rw [List.foldl_cons, List.foldl_append, step, ih]
    rfl
  | operand _ ih => exact ih
  | link _ _ ih₁ ih₂ =>
    intro stack
    rw [List.foldl_append, ih₁, List.foldl_cons, step, ih₂, settle_settle]

/-- **The peak from a stack** is the nesting on top of it. After a link a `∼` below is no longer
pending, so a chain asks for a stack without one on top. -/
theorem peak_eq (h : Derives cs ts f) : ∀ stack, cs = [] ∨ settle stack = stack →
    peak stack ts = stack.length + nesting ts := by
  induction h with
  | var v =>
    intro stack _
    have := length_settle_le stack
    simp only [peak, nesting, step, settle, List.length_nil]
    omega
  | not _ ih =>
    intro stack _
    have h₁ := ih (negation :: stack) (.inl rfl)
    have h₂ := ih [negation] (.inl rfl)
    simp only [peak, nesting, step, List.length_cons, List.length_nil] at h₁ h₂ ⊢
    omega
  | parens h ih =>
    intro stack _
    have h₁ := ih (paren :: stack) (.inr rfl)
    have h₂ := ih [paren] (.inr rfl)
    have := length_settle_le stack
    simp only [peak, nesting, step, peak_append, h.foldl_step, settle, List.length_cons,
      List.length_nil] at h₁ h₂ ⊢
    omega
  | operand _ ih =>
    intro stack hs
    exact ih stack (.inr (hs.resolve_left (List.cons_ne_nil _ _)))
  | link h₁ h₂ ih₁ ih₂ =>
    intro stack hs
    have hs := hs.resolve_left (List.cons_ne_nil _ _)
    have h₁' := ih₁ stack (.inr hs)
    have h₂' := ih₂ stack (.inr hs)
    simp only [peak, nesting, step, peak_append, h₁.foldl_step, hs, settle,
      List.length_nil] at h₁' h₂' ⊢
    omega

/-! ### The nesting of each rule -/

theorem nesting_var (v : Variable) : nesting [.var v] = 0 := rfl

theorem nesting_not (h : Derives [] ts f) : nesting (.not :: ts) = nesting ts + 1 := by
  have := h.peak_eq [negation] (.inl rfl)
  simp only [nesting, peak, step, List.length_cons, List.length_nil] at this ⊢
  omega

theorem nesting_parens (h : Derives Connective.ladder ts f) :
    nesting (.lparen :: (ts ++ [.rparen])) = nesting ts + 1 := by
  have := h.peak_eq [paren] (.inr rfl)
  simp only [nesting, peak, step, peak_append, h.foldl_step, settle, List.length_cons,
    List.length_nil] at this ⊢
  omega

theorem nesting_link {c : Connective} (h : Derives (c :: cs) ts f) :
    nesting (ts ++ .op c :: us) = max (nesting ts) (nesting us) := by
  simp only [nesting, peak_append, peak, step, h.foldl_step, settle, List.length_nil]
  omega

end Derives

end Sentential
