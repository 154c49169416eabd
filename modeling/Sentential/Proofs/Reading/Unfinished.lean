import Sentential.Proofs.Reading.Walk

/-!
# Signs that are not finished

Of the tokens that were consumed, a `(` is finished if its `)` is among them, and a `∼` if the
tokens of its operand are, unless the operand was refused for its depth. `unfinished` counts the
signs that are not finished. A derivation within the limits leaves none behind
(`Derives.unfinished_append`), and where a rule gets stuck, it has opened just as many signs as are
not finished (`Stalls.opened_eq`).
-/

namespace Sentential

/-- The sign `t`, which is followed by `ts`, is finished there. -/
inductive Token.FinishedIn : Token → List Token → Prop
  | not {us ts : List Token} {f : Formula} :
      Derives [] us f → f.depth ≤ maxDepth → FinishedIn .not (us ++ ts)
  | paren {us ts : List Token} {f : Formula} :
      Derives Connective.ladder us f → FinishedIn .lparen (us ++ .rparen :: ts)

/-- The token is a sign that has to be finished. -/
def Token.opens : Token → Bool
  | .not => true
  | .lparen => true
  | _ => false

open Classical in
/-- The number of signs in the list that are not finished in it. -/
noncomputable def unfinished : List Token → Nat
  | [] => 0
  | t :: ts => (if t.opens ∧ ¬ t.FinishedIn ts then 1 else 0) + unfinished ts

section unfinished

variable {t : Token} {us ts : List Token}

theorem unfinished_cons_of_not_opens (h : t.opens = false) :
    unfinished (t :: ts) = unfinished ts := by
  rw [unfinished, if_neg fun ht => ?_, Nat.zero_add]
  rw [h] at ht
  exact Bool.false_ne_true ht.1

theorem unfinished_cons_of_finishedIn (h : t.FinishedIn ts) :
    unfinished (t :: ts) = unfinished ts := by
  rw [unfinished, if_neg fun ht => ht.2 h, Nat.zero_add]

theorem unfinished_cons_of_open (ht : t.opens = true) (h : ¬ t.FinishedIn ts) :
    unfinished (t :: ts) = unfinished ts + 1 := by
  rw [unfinished, if_pos ⟨ht, h⟩, Nat.add_comm]

theorem unfinished_le_length : ∀ ts : List Token, unfinished ts ≤ ts.length
  | [] => Nat.le_refl _
  | t :: ts => by
    have := unfinished_le_length ts
    rw [unfinished, List.length_cons]
    split <;> omega

end unfinished

theorem Token.not_finishedIn_nil {t : Token} : ¬ t.FinishedIn [] := by
  intro h
  generalize hts : ([] : List Token) = ts at h
  cases h with
  | not h => exact h.ne_nil (List.append_eq_nil_iff.mp hts.symm).1
  | paren => exact List.append_ne_nil_of_right_ne_nil _ (List.cons_ne_nil _ _) hts.symm

theorem Derives.finishedIn {t : Token} {us ts : List Token} {f : Formula} (h : Derives [] us f)
    (hd : f.depth ≤ maxDepth) (hus : us <+: t :: ts) (ht : t.opens = true) : t.FinishedIn ts := by
  cases h with
  | var v =>
    obtain ⟨rfl, -⟩ := List.cons_prefix_cons.mp hus
    cases ht
  | not h =>
    obtain ⟨rfl, vs, rfl⟩ := List.cons_prefix_cons.mp hus
    exact .not h (Nat.le_of_succ_le hd)
  | parens h =>
    obtain ⟨rfl, vs, rfl⟩ := List.cons_prefix_cons.mp hus
    rw [List.append_assoc]
    exact .paren h

/-- **A derivation within the limits leaves nothing unfinished.** -/
theorem Derives.unfinished_append {cs : List Connective} {us : List Token} {f : Formula}
    (h : Derives cs us f) (hd : f.depth ≤ maxDepth) :
    ∀ ts, unfinished (us ++ ts) = unfinished ts := by
  induction h with
  | var v => exact fun ts => unfinished_cons_of_not_opens rfl
  | not h ih =>
    intro ts
    have hd : _ ≤ maxDepth := Nat.le_of_succ_le hd
    rw [List.cons_append, unfinished_cons_of_finishedIn (.not h hd), ih hd]
  | parens h ih =>
    intro ts
    rw [List.cons_append, List.append_assoc, List.singleton_append,
      unfinished_cons_of_finishedIn (.paren h), ih hd, unfinished_cons_of_not_opens rfl]
  | operand _ ih => exact ih hd
  | @link c cs us vs f g _ _ ih₁ ih₂ =>
    intro ts
    rw [Formula.depth] at hd
    rw [List.append_assoc, ih₁ (by omega), List.cons_append, unfinished_cons_of_not_opens rfl,
      ih₂ (by omega)]

/-- **An operand does not begin with another one**, if neither is too deep: a rule reads both. -/
theorem Derives.operand_unique {us ts : List Token} {f g : Formula} (h : Derives [] (us ++ ts) f)
    (hf : f.depth ≤ maxDepth) (h' : Derives [] us g) (hg : g.depth ≤ maxDepth) : g = f := by
  let budget := max (nesting (us ++ ts)) (nesting us)
  have hstops : ∀ rest, Stops [] rest := fun rest c hc => nomatch hc
  have hread := (Rule.exact_operand budget).complete ⟨h, Nat.le_max_left .., hf⟩ (hstops [])
  have hread' := (Rule.exact_operand budget).complete ⟨h', Nat.le_max_right .., hg⟩ (hstops ts)
  rw [List.append_nil, hread'] at hread
  exact (Reading.read.inj hread).1

theorem Derives.not_finishedIn {us : List Token} {f : Formula}
    (h : Derives Connective.ladder us f) : ¬ Token.FinishedIn .lparen us := by
  intro hfinished
  have hwalk := walk_of_derives h
  cases hfinished with
  | paren h' =>
    rw [walk_of_left h' (.rparen _ _)] at hwalk
    exact nomatch (Prod.mk.inj hwalk).2

namespace Stalls

variable {budget n : Nat} {cs : List Connective} {us ts : List Token} {cause : ParseError}

theorem not_finishedIn_paren (h : Stalls budget Connective.ladder us ts cause n) :
    ¬ Token.FinishedIn .lparen us := by
  intro hfinished
  have hle := h.length_le_walk
  cases hfinished with
  | @paren vs ws f h' =>
    rw [List.append_assoc, List.cons_append, walk_of_left h' (.rparen _ _), List.length_append,
      List.length_cons] at hle
    dsimp only at hle
    omega

/-- Where an operand got stuck, it was not complete: it does not begin with a complete one. -/
theorem not_prefix (h : Stalls budget cs us ts cause n) (hcs : cs = []) {vs : List Token}
    {f : Formula} (hf : Derives [] vs f) (hd : f.depth ≤ maxDepth) : ¬ vs <+: us := by
  intro hvs
  induction h generalizing vs f with
  | atEnd | atConnective | atParen => exact hf.ne_nil (List.prefix_nil.mp hvs)
  | enterNot => exact Token.not_finishedIn_nil (hf.finishedIn hd hvs rfl)
  | enterParen => exact Token.not_finishedIn_nil (hf.finishedIn hd hvs rfl)
  | underNot _ ih =>
    cases hf.finishedIn hd hvs rfl with
    | not hf hd => exact ih rfl hf hd (List.prefix_append ..)
  | underParen h => exact h.not_finishedIn_paren (hf.finishedIn hd hvs rfl)
  | @deepNot _ us _ g hg hdeep =>
    -- the operand is complete here, and what is not is the negation
    cases hf with
    | not hf =>
      obtain ⟨ws, rfl⟩ := (List.cons_prefix_cons.mp hvs).2
      rw [← hg.derives.operand_unique hg.depth_le hf (Nat.le_of_succ_le hd)] at hdeep
      exact hdeep hd
    | var | parens => exact nomatch (List.cons_prefix_cons.mp hvs).1
  | unlike hg | unclosed hg => exact hg.derives.not_finishedIn (hf.finishedIn hd hvs rfl)
  | first | later | deepLink => cases hcs

theorem not_finishedIn_not (h : Stalls budget [] us ts cause n) : ¬ Token.FinishedIn .not us := by
  intro hfinished
  cases hfinished with
  | not hf hd => exact h.not_prefix rfl hf hd (List.prefix_append ..)

/-- **The signs that a rule has opened when it gets stuck** are those that are not finished. -/
theorem opened_eq (h : Stalls budget cs us ts cause n) : n = unfinished us := by
  induction h with
  | atEnd | atConnective | atParen => rfl
  | enterNot => rw [unfinished_cons_of_open rfl Token.not_finishedIn_nil, unfinished]
  | enterParen => rw [unfinished_cons_of_open rfl Token.not_finishedIn_nil, unfinished]
  | underNot h ih => rw [unfinished_cons_of_open rfl (h.not_finishedIn_not), ← ih]
  | underParen h ih => rw [unfinished_cons_of_open rfl h.not_finishedIn_paren, ← ih]
  | @deepNot _ us _ _ hf =>
    have hus := hf.derives.unfinished_append hf.depth_le []
    have hfinished : Token.not.FinishedIn (us ++ []) := .not hf.derives hf.depth_le
    rw [List.append_nil] at hus hfinished
    rw [unfinished_cons_of_finishedIn hfinished, hus]
    rfl
  | unlike hf | unclosed hf =>
    have hus := hf.derives.unfinished_append hf.depth_le []
    rw [List.append_nil] at hus
    rw [unfinished_cons_of_open rfl hf.derives.not_finishedIn, hus]
    rfl
  | first _ ih => exact ih
  | later hf _ ih =>
    rw [hf.derives.unfinished_append hf.depth_le, unfinished_cons_of_not_opens rfl, ih]
  | deepLink hf hg =>
    have hus := hg.derives.unfinished_append hg.depth_le []
    rw [List.append_nil] at hus
    rw [hf.derives.unfinished_append hf.depth_le, unfinished_cons_of_not_opens rfl, hus]
    rfl

end Stalls

end Sentential
