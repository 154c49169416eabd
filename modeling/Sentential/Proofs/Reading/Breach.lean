import Sentential.Proofs.Reading.Extension
import Sentential.Proofs.Reading.Splitting

/-!
# Tokens that break a limit

Tokens break a limit if they leave too many signs pending at some place, or if they end with those
of a formula that is too deep (`BreaksLimit`). No list that parses begins with such tokens
(`not_breaksLimit_of_parse`). For wherever an operand is due in the tokens of a formula, they go on
with another formula, which ends with them or in front of a `)` and is not deeper (`GoesOn`,
`Derives.goesOn`); and if that begins with the tokens of a formula that is too deep, then it does not
parse, since nothing that follows can cure this.
-/

namespace Sentential

/-- The tokens break a limit: they leave too many signs pending at some place, or they end with
those of a formula that is too deep. -/
def BreaksLimit (ts : List Token) : Prop :=
  ¬ NestsWithin maxDepth ts ∨ ∃ us f, us <:+ ts ∧ Denotes us f ∧ maxDepth < f.depth

/-- An operand can begin with the token. -/
def Token.beginsOperand : Token → Bool
  | .var _ => true
  | .not => true
  | .lparen => true
  | _ => false

theorem Derives.head?_any {cs : List Connective} {ts us : List Token} {f : Formula}
    (h : Derives cs ts f) : (ts ++ us).head?.any Token.beginsOperand = true := by
  induction h generalizing us with
  | var | not | parens => rfl
  | operand _ ih => exact ih
  | link _ _ ih _ =>
    rw [List.append_assoc]
    exact ih

theorem head?_any_of_append {us vs : List Token} {t : Token} (ht : t.beginsOperand = false)
    (h : (us ++ t :: vs).head?.any Token.beginsOperand = true) :
    us.head?.any Token.beginsOperand = true := by
  cases us with
  | nil => exact absurd (ht.symm.trans h) Bool.false_ne_true
  | cons => exact h

/-- The tokens begin with those of a formula with these bounds on its depth and its nesting. These
are all of the tokens, and the formula is of the rung with the connectives `cs`, or a `)` follows. -/
inductive GoesOn (cs : List Connective) (d n : Nat) : List Token → Prop
  | toEnd {us : List Token} {f : Formula} : Derives cs us f → f.depth ≤ d → nesting us ≤ n →
      GoesOn cs d n us
  | toParen {us ts : List Token} {f : Formula} : Denotes us f → f.depth ≤ d → nesting us ≤ n →
      GoesOn cs d n (us ++ .rparen :: ts)

namespace GoesOn

variable {c : Connective} {cs : List Connective} {d e m n : Nat} {us vs : List Token} {g : Formula}

theorem mono (h : GoesOn cs d m us) (hd : d ≤ e) (hn : m ≤ n) : GoesOn cs e n us := by
  cases h with
  | toEnd hf hfd hfn => exact .toEnd hf (Nat.le_trans hfd hd) (Nat.le_trans hfn hn)
  | toParen hf hfd hfn => exact .toParen hf (Nat.le_trans hfd hd) (Nat.le_trans hfn hn)

theorem operand (h : GoesOn cs d n us) : GoesOn (c :: cs) d n us := by
  cases h with
  | toEnd hf hfd hfn => exact .toEnd (.operand hf) hfd hfn
  | toParen hf hfd hfn => exact .toParen hf hfd hfn

theorem link (h : GoesOn (c :: cs) d n us) (hg : Derives cs vs g) :
    GoesOn (c :: cs) (max d g.depth + 1) (max n (nesting vs)) (us ++ .op c :: vs) := by
  cases h with
  | @toEnd _ f hf hfd hfn =>
    have hdepth := Formula.depth_binary c f g
    refine .toEnd (.link hf hg) (by omega) ?_
    rw [hf.nesting_link]
    omega
  | toParen hf hfd hfn =>
    rw [List.append_assoc, List.cons_append]
    exact .toParen hf (by omega) (by omega)

theorem close (h : GoesOn Connective.ladder d n us) : GoesOn cs d n (us ++ [.rparen]) := by
  cases h with
  | toEnd hf hfd hfn => exact .toParen hf hfd hfn
  | toParen hf hfd hfn =>
    rw [List.append_assoc, List.cons_append]
    exact .toParen hf hfd hfn

end GoesOn

/-- **Where an operand is due, a formula goes on with another one**, which is not deeper. -/
theorem Derives.goesOn {cs : List Connective} {ts : List Token} {g : Formula}
    (h : Derives cs ts g) : ∀ as us, ts = as ++ us → us.head?.any Token.beginsOperand = true →
      GoesOn cs g.depth (nesting ts) us := by
  induction h with
  | var v =>
    intro as us hts hus
    cases as with
    | nil =>
      obtain rfl : _ = us := hts
      exact .toEnd (.var v) (Nat.le_refl _) (Nat.le_refl _)
    | cons t as =>
      obtain rfl : us = [] := (List.append_eq_nil_iff.mp (List.cons.inj hts).2.symm).2
      cases hus
  | @not ts f hf ih =>
    intro as us hts hus
    cases as with
    | nil =>
      obtain rfl : _ = us := hts
      exact .toEnd (.not hf) (Nat.le_refl _) (Nat.le_refl _)
    | cons t as =>
      rw [hf.nesting_not]
      exact (ih as us (List.cons.inj hts).2 hus).mono (Nat.le_succ _) (Nat.le_succ _)
  | @parens ts f hf ih =>
    intro as us hts hus
    cases as with
    | nil =>
      obtain rfl : _ = us := hts
      exact .toEnd (.parens hf) (Nat.le_refl _) (Nat.le_refl _)
    | cons t as =>
      rw [hf.nesting_parens]
      rcases List.append_eq_append_iff.mp (List.cons.inj hts).2 with ⟨ws, -, hws⟩ | ⟨ws, hinner, rfl⟩
      · -- no operand is due before the last `)`, nor behind it
        cases ws with
        | nil =>
          obtain rfl : _ = us := hws
          cases hus
        | cons t ws =>
          obtain rfl : us = [] := (List.append_eq_nil_iff.mp (List.cons.inj hws).2.symm).2
          cases hus
      · have hgoes := ih as ws hinner (head?_any_of_append rfl hus)
        exact (hgoes.mono (Nat.le_refl _) (Nat.le_succ _)).close
  | operand _ ih => exact fun as us hts hus => (ih as us hts hus).operand
  | @link c cs ls rs f g hf hg ihf ihg =>
    intro as us hts hus
    rw [hf.nesting_link]
    have hdepth := Formula.depth_binary c f g
    rcases List.append_eq_append_iff.mp hts with ⟨ws, -, hws⟩ | ⟨ws, hls, rfl⟩
    · cases ws with
      | nil =>
        obtain rfl : _ = us := hws
        cases hus
      | cons t ws =>
        have hright := ihg ws us (List.cons.inj hws).2 hus
        exact hright.operand.mono (by omega) (Nat.le_max_right ..)
    · exact (ihf as ws hls (head?_any_of_append rfl hus)).link hg

/-- A formula does not go on behind a `)` that it has not opened. -/
theorem Derives.not_append_rparen {cs ds : List Connective} {us vs : List Token} {f g : Formula}
    (h : Derives cs us f) : ¬ Derives ds (us ++ .rparen :: vs) g := by
  intro hg
  have hparens := h.count_parens
  have hclosed := hg.count_take_le (us.length + 1)
  have htake : (us ++ .rparen :: vs).take (us.length + 1) = us ++ [.rparen] := by
    rw [List.take_append, List.take_of_length_le (Nat.le_succ _), Nat.add_sub_cancel_left]
    rfl
  rw [htake, List.count_append, List.count_append, List.count_singleton_self,
    List.count_eq_zero_of_not_mem (by decide : Token.lparen ∉ [Token.rparen])] at hclosed
  omega

/-- **No list that parses begins with tokens that break a limit.** -/
theorem not_breaksLimit_of_parse {us vs : List Token} {g : Formula}
    (h : parse (us ++ vs) = .ok g) : ¬ BreaksLimit us := by
  obtain ⟨hderives, hnesting, hdepth⟩ := parse_eq_ok_iff_fits.mp h
  rintro (hnests | ⟨ws, f, ⟨as, rfl⟩, hf, hdeep⟩)
  · refine hnests fun ws hws => ?_
    exact nestsWithin_iff.mpr hnesting ws (hws.trans (List.prefix_append ..))
  have hws : parse ws = .error (.tooDeep maxDepth) :=
    parse_eq_tooDeep hf fun hfits => Nat.not_le.mpr hdeep hfits.depth_le
  have hgoes := hderives.goesOn as (ws ++ vs) (List.append_assoc ..) hf.head?_any
  generalize hrest : ws ++ vs = rest at hgoes
  cases hgoes with
  | toEnd hk hkd hkn =>
    have hparse := parse_eq_ok_iff_fits.mpr
      ⟨hk, Nat.le_trans hkn hnesting, Nat.le_trans hkd hdepth⟩
    exact parse_append_of_tooDeep hws (hrest ▸ hparse)
  | @toParen ks ts k hk hkd hkn =>
    have hparse := parse_eq_ok_iff_fits.mpr
      ⟨hk, Nat.le_trans hkn hnesting, Nat.le_trans hkd hdepth⟩
    rcases List.append_eq_append_iff.mp hrest with ⟨xs, rfl, -⟩ | ⟨xs, rfl, hxs⟩
    · exact parse_append_of_tooDeep hws hparse
    · cases xs with
      | nil =>
        rw [List.append_nil, hparse] at hws
        cases hws
      | cons t xs =>
        obtain ⟨rfl, -⟩ := List.cons.inj hxs
        exact hk.not_append_rparen hf

end Sentential
