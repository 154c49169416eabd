import Sentential.Proofs.Reading.Parse

/-!
# Where a list of tokens splits

The tokens of a formula show its root without being read from left to right. Among the connectives
outside all parentheses look for those that bind most loosely, and of these for the last one
(`SplitsAt`): it is the root, and what stands before it and behind it are the tokens of its operands
(`parse_splits`). The grammar says so rung by rung. On the rung of the connectives `cs` only these
can stand outside of parentheses (`Derives.mem_of_outsideAt`), so behind the last link of a chain
its own connective does not come again, and before it none that binds more loosely.
-/

namespace Sentential

/-- The place of the connective on the ladder, counted from the one that binds most loosely. -/
def Connective.rank (c : Connective) : Nat := ladder.idxOf c

theorem Connective.pairwise_rank : ladder.Pairwise fun c d => c.rank < d.rank := by decide

theorem Connective.rank_injective {c d : Connective} (h : c.rank = d.rank) : c = d := by
  revert h; cases c <;> cases d <;> decide

/-- The connective stands at place `p` of the list, and before it as many parentheses are closed as
are opened. -/
def OutsideAt (ts : List Token) (p : Nat) (c : Connective) : Prop :=
  ts[p]? = some (.op c) ∧ (ts.take p).count .lparen = (ts.take p).count .rparen

/-- The connective at place `p` is outside all parentheses, no other one there binds more loosely,
and it does not stand there again further on. -/
structure SplitsAt (ts : List Token) (p : Nat) (c : Connective) : Prop where
  outside : OutsideAt ts p c
  loosest : ∀ q d, OutsideAt ts q d → c.rank ≤ d.rank
  last : ∀ q, OutsideAt ts q c → q ≤ p

variable {c d : Connective} {cs ds : List Connective} {t : Token} {ts us vs : List Token}
  {f g k : Formula} {p q : Nat}

theorem SplitsAt.unique (h : SplitsAt ts p c) (h' : SplitsAt ts q d) : p = q ∧ c = d := by
  have hle := h.loosest q d h'.outside
  have hge := h'.loosest p c h.outside
  obtain rfl : c = d := Connective.rank_injective (Nat.le_antisymm hle hge)
  exact ⟨Nat.le_antisymm (h'.last p h.outside) (h.last q h'.outside), rfl⟩

theorem OutsideAt.lt_length (h : OutsideAt ts p c) : p < ts.length :=
  (List.getElem?_eq_some_iff.mp h.1).1

instance : Decidable (OutsideAt ts p c) := inferInstanceAs (Decidable (_ ∧ _))

theorem splitsAt_iff : SplitsAt ts p c ↔ OutsideAt ts p c ∧
    ∀ q < ts.length, ∀ d ∈ Connective.ladder, OutsideAt ts q d →
      c.rank ≤ d.rank ∧ (d = c → q ≤ p) := by
  constructor
  · rintro ⟨houtside, hloosest, hlast⟩
    refine ⟨houtside, fun q _ d _ hq => ⟨hloosest q d hq, ?_⟩⟩
    rintro rfl
    exact hlast q hq
  · rintro ⟨houtside, hall⟩
    have hall : ∀ q d, OutsideAt ts q d → c.rank ≤ d.rank ∧ (d = c → q ≤ p) := fun q d hq =>
      hall q hq.lt_length d d.mem_ladder hq
    exact ⟨houtside, fun q d hq => (hall q d hq).1, fun q hq => (hall q c hq).2 rfl⟩

instance : Decidable (SplitsAt ts p c) := decidable_of_iff _ splitsAt_iff.symm

/-! ### Connectives outside of parentheses -/

theorem outsideAt_zero_iff : OutsideAt (t :: ts) 0 c ↔ t = .op c := by
  simp [OutsideAt]

theorem outsideAt_succ_iff (ht : t.isParen = false) :
    OutsideAt (t :: ts) (p + 1) c ↔ OutsideAt ts p c := by
  have hl : t ≠ .lparen := by
    rintro rfl
    cases ht
  have hr : t ≠ .rparen := by
    rintro rfl
    cases ht
  simp [OutsideAt, List.count_cons_of_ne hl, List.count_cons_of_ne hr]

theorem outsideAt_append_left (hp : p < ts.length) :
    OutsideAt (ts ++ us) p c ↔ OutsideAt ts p c := by
  unfold OutsideAt
  rw [List.getElem?_append_left hp, List.take_append_of_le_length (Nat.le_of_lt hp)]

theorem outsideAt_append_right (hts : ts.count .lparen = ts.count .rparen) :
    OutsideAt (ts ++ us) (ts.length + p) c ↔ OutsideAt us p c := by
  unfold OutsideAt
  rw [List.getElem?_append_right (Nat.le_add_right ..), Nat.add_sub_cancel_left,
    List.take_length_add_append, List.count_append, List.count_append, hts, Nat.add_left_cancel_iff]

theorem OutsideAt.of_link (h : OutsideAt (ts ++ .op c :: us) p d)
    (hts : ts.count .lparen = ts.count .rparen) :
    p < ts.length ∧ OutsideAt ts p d ∨ p = ts.length ∧ d = c ∨
      ∃ q, p = ts.length + (q + 1) ∧ OutsideAt us q d := by
  rcases Nat.lt_or_ge p ts.length with hp | hp
  · exact .inl ⟨hp, (outsideAt_append_left hp).mp h⟩
  · obtain ⟨q, rfl⟩ := Nat.exists_eq_add_of_le hp
    rw [outsideAt_append_right hts] at h
    cases q with
    | zero =>
      obtain ⟨⟩ := outsideAt_zero_iff.mp h
      exact .inr (.inl ⟨rfl, rfl⟩)
    | succ q => exact .inr (.inr ⟨q, rfl, (outsideAt_succ_iff rfl).mp h⟩)

namespace Derives

theorem count_parens (h : Derives cs ts f) : ts.count .lparen = ts.count .rparen := by
  induction h with
  | var v => rfl
  | not _ ih => simpa using ih
  | parens _ ih => simp [ih]
  | operand _ ih => exact ih
  | link _ _ ih₁ ih₂ => simp [ih₁, ih₂]

/-- At no place has a derived list closed more parentheses than it has opened. -/
theorem count_take_le (h : Derives cs ts f) :
    ∀ p, (ts.take p).count .rparen ≤ (ts.take p).count .lparen := by
  induction h with
  | var v =>
    intro p
    cases p <;> simp
  | not _ ih =>
    intro p
    cases p with
    | zero => simp
    | succ p => simpa using ih p
  | @parens ts f _ ih =>
    intro p
    cases p with
    | zero => simp
    | succ p =>
      have hend : (List.take (p - ts.length) [Token.rparen]).count .rparen ≤ 1 :=
        Nat.le_trans (List.count_le_length ..) (List.length_take_le' ..)
      have := ih p
      rw [List.take_succ_cons, List.take_append, List.count_cons_self,
        List.count_cons_of_ne (by decide), List.count_append, List.count_append]
      omega
  | operand _ ih => exact ih
  | @link c cs ts us f g _ _ ih₁ ih₂ =>
    intro p
    rw [List.take_append, List.count_append, List.count_append]
    refine Nat.add_le_add (ih₁ p) ?_
    cases p - ts.length with
    | zero => simp
    | succ q => simpa using ih₂ q

/-- **Only the connectives of a rung stand outside of parentheses** in a list of the rung. -/
theorem mem_of_outsideAt (h : Derives cs ts f) : ∀ {p}, OutsideAt ts p d → d ∈ cs := by
  induction h with
  | var v =>
    intro p hp
    cases p with
    | zero => cases outsideAt_zero_iff.mp hp
    | succ p => cases ((outsideAt_succ_iff rfl).mp hp).1
  | not _ ih =>
    intro p hp
    cases p with
    | zero => cases outsideAt_zero_iff.mp hp
    | succ p => exact ih ((outsideAt_succ_iff rfl).mp hp)
  | @parens ts f h _ =>
    intro p hp
    cases p with
    | zero => cases outsideAt_zero_iff.mp hp
    | succ p =>
      -- the first parenthesis is still open at all places of `ts`
      obtain ⟨hget, hcount⟩ := hp
      rw [List.getElem?_cons_succ] at hget
      rcases Nat.lt_or_ge p ts.length with hlt | hge
      · have hle := h.count_take_le p
        rw [List.take_succ_cons, List.take_append_of_le_length (Nat.le_of_lt hlt),
          List.count_cons_self, List.count_cons_of_ne (by decide)] at hcount
        omega
      · rw [List.getElem?_append_right hge] at hget
        cases hq : p - ts.length <;> simp [hq] at hget
  | operand _ ih => exact fun hp => List.mem_cons_of_mem _ (ih hp)
  | link h₁ h₂ ih₁ ih₂ =>
    intro p hp
    rcases hp.of_link h₁.count_parens with ⟨-, h⟩ | ⟨-, rfl⟩ | ⟨q, -, h⟩
    · exact ih₁ h
    · exact List.mem_cons_self ..
    · exact List.mem_cons_of_mem _ (ih₂ h)

/-- **A link is where the list splits**, if its connective binds more loosely than those of the
rungs below. -/
theorem splitsAt_link (h₁ : Derives (c :: cs) us f) (h₂ : Derives cs vs g)
    (hcs : ∀ d ∈ cs, c.rank < d.rank) : SplitsAt (us ++ .op c :: vs) us.length c where
  outside := by
    have hfirst : OutsideAt (.op c :: vs) 0 c := outsideAt_zero_iff.mpr rfl
    exact (outsideAt_append_right h₁.count_parens).mpr hfirst
  loosest q d hq := by
    rcases List.mem_cons.mp ((Derives.link h₁ h₂).mem_of_outsideAt hq) with rfl | hd
    · exact Nat.le_refl _
    · exact Nat.le_of_lt (hcs d hd)
  last q hq := by
    rcases hq.of_link h₁.count_parens with ⟨hlt, -⟩ | ⟨rfl, -⟩ | ⟨r, -, hr⟩
    · exact Nat.le_of_lt hlt
    · exact Nat.le_refl _
    · exact absurd (hcs c (h₂.mem_of_outsideAt hr)) (Nat.lt_irrefl _)

/-- A list of a rung is one operand, or it is a link on this rung or on one below. -/
theorem operand_or_link (h : Derives cs ts f) : Derives [] ts f ∨
    ∃ c ds us vs g k, c :: ds <:+ cs ∧ ts = us ++ .op c :: vs ∧ f = .binary c g k ∧
      Derives (c :: ds) us g ∧ Derives ds vs k := by
  induction h with
  | var v => exact .inl (.var v)
  | not h _ => exact .inl (.not h)
  | parens h _ => exact .inl (.parens h)
  | operand _ ih =>
    refine ih.imp_right ?_
    rintro ⟨c, ds, us, vs, g, k, hsuffix, h⟩
    exact ⟨c, ds, us, vs, g, k, hsuffix.trans (List.suffix_cons ..), h⟩
  | link h₁ h₂ _ _ => exact .inr ⟨_, _, _, _, _, _, List.suffix_refl _, rfl, rfl, h₁, h₂⟩

end Derives

/-! ### The parser -/

theorem parse_of_fits_suffix (h : Fits maxDepth ds ts f) (hds : ds <:+ Connective.ladder) :
    parse ts = .ok f :=
  parse_eq_ok_iff_fits.mpr ⟨h.derives.of_suffix hds, h.nesting_le, h.depth_le⟩

theorem parse_operand (h : Fits maxDepth [] ts f) :
    (∀ us, ts = .not :: us → ∃ g, parse us = .ok g ∧ f = .not g) ∧
    (∀ us, ts = .lparen :: us → ∃ vs, us = vs ++ [.rparen] ∧ parse vs = .ok f) ∧
    (ts.head? ≠ some .not → ts.head? ≠ some .lparen → ∃ v, ts = [.var v] ∧ f = .var v) := by
  obtain ⟨hderives, hnesting, hdepth⟩ := h
  cases hderives with
  | var v => exact ⟨fun _ h => (nomatch h), fun _ h => (nomatch h), fun _ _ => ⟨v, rfl, rfl⟩⟩
  | @not us g h =>
    have hfits : Fits maxDepth [] us g := by
      rw [h.nesting_not] at hnesting
      exact ⟨h, Nat.le_of_succ_le hnesting, Nat.le_of_succ_le hdepth⟩
    refine ⟨?_, fun _ h => (nomatch h), fun hhead => absurd rfl hhead⟩
    rintro _ ⟨⟩
    exact ⟨g, parse_of_fits_suffix hfits (List.nil_suffix ..), rfl⟩
  | @parens us g h =>
    have hfits : Fits maxDepth Connective.ladder us f := by
      rw [h.nesting_parens] at hnesting
      exact ⟨h, Nat.le_of_succ_le hnesting, hdepth⟩
    refine ⟨fun _ h => (nomatch h), ?_, fun _ hhead => absurd rfl hhead⟩
    rintro _ ⟨⟩
    exact ⟨us, rfl, parse_eq_ok_iff_fits.mpr hfits⟩

/-- **Parsing splits at the last of the loosest connectives** outside of parentheses: this is the
root, and the tokens on its sides parse to its operands. There is such a place if there is a
connective outside of parentheses. If there is none, the first token decides: a `∼` negates what the
tokens behind it parse to, a `(` has its `)` at the end and the tokens between them parse to the
same formula, and with any other token the list is a single variable. -/
theorem parse_splits (ts : List Token) (f : Formula) (h : parse ts = .ok f) :
    (∀ p c, SplitsAt ts p c → ∃ l r, parse (ts.take p) = .ok l ∧ parse (ts.drop (p + 1)) = .ok r ∧
      f = .binary c l r) ∧
    ((∃ q d, OutsideAt ts q d) → ∃ p c, SplitsAt ts p c) ∧
    ((¬ ∃ q d, OutsideAt ts q d) →
      (∀ us, ts = .not :: us → ∃ g, parse us = .ok g ∧ f = .not g) ∧
      (∀ us, ts = .lparen :: us → ∃ vs, us = vs ++ [.rparen] ∧ parse vs = .ok f) ∧
      (ts.head? ≠ some .not → ts.head? ≠ some .lparen → ∃ v, ts = [.var v] ∧ f = .var v)) := by
  have hfits := parse_eq_ok_iff_fits.mp h
  rcases hfits.derives.operand_or_link with
    hoperand | ⟨c, ds, us, vs, l, r, hsuffix, rfl, rfl, h₁, h₂⟩
  · have hnone : ∀ q d, ¬ OutsideAt ts q d := fun q d hq => nomatch hoperand.mem_of_outsideAt hq
    refine ⟨fun p c hp => absurd hp.outside (hnone p c), ?_, fun _ => ?_⟩
    · rintro ⟨q, d, hq⟩
      exact absurd hq (hnone q d)
    · exact parse_operand ⟨hoperand, hfits.nesting_le, hfits.depth_le⟩
  · have hrank := Connective.pairwise_rank.sublist hsuffix.sublist
    have hsplits := h₁.splitsAt_link h₂ (List.pairwise_cons.mp hrank).1
    refine ⟨fun p d hp => ?_, fun _ => ⟨_, _, hsplits⟩, fun hnone => ?_⟩
    · obtain ⟨rfl, rfl⟩ := hp.unique hsplits
      have hlink : Fits maxDepth (d :: ds) _ _ := ⟨.link h₁ h₂, hfits.nesting_le, hfits.depth_le⟩
      obtain ⟨hl, hr, -⟩ := (Fits.link_iff h₁ h₂).mp hlink
      refine ⟨l, r, ?_, ?_, rfl⟩
      · rw [List.take_left]
        exact parse_of_fits_suffix hl hsuffix
      · rw [List.drop_length_add_append]
        exact parse_of_fits_suffix hr ((List.suffix_cons ..).trans hsuffix)
    · exact absurd ⟨_, _, hsplits.outside⟩ hnone

/-- `A → (B ↔ C) → ∼D ∧ E` splits at its second arrow, although `↔` binds more loosely, and
`∼(D ∨ E)` does not split at all. -/
theorem parse_splits_implications :
    let a : Formula := .var ⟨'A', rfl⟩
    let bc : Formula := .binary .iff (.var ⟨'B', rfl⟩) (.var ⟨'C', rfl⟩)
    let ts : List Token := [.var ⟨'A', rfl⟩, .op .implies, .lparen, .var ⟨'B', rfl⟩, .op .iff,
      .var ⟨'C', rfl⟩, .rparen, .op .implies, .not, .var ⟨'D', rfl⟩, .op .and, .var ⟨'E', rfl⟩]
    let us : List Token := [.lparen, .var ⟨'D', rfl⟩, .op .or, .var ⟨'E', rfl⟩, .rparen]
    (∃ f, parse ts = .ok f ∧ SplitsAt ts 7 .implies ∧
      ∃ r, f = .binary .implies (.binary .implies a bc) r ∧
        parse (ts.take 7) = .ok (.binary .implies a bc) ∧ parse (ts.drop 8) = .ok r) ∧
    ∃ f, parse (.not :: us) = .ok f ∧ (¬ ∃ q d, OutsideAt (.not :: us) q d) ∧
      ∃ g, parse us = .ok g ∧ f = .not g := by
  intro a bc ts us
  have hrun : (Rule.formula maxDepth).run ts = .read (.binary .implies (.binary .implies a bc)
      (.binary .and (.not (.var ⟨'D', rfl⟩)) (.var ⟨'E', rfl⟩))) 3 [] := by decide +kernel
  have hrun' : (Rule.formula maxDepth).run (.not :: us) =
      .read (.not (.binary .or (.var ⟨'D', rfl⟩) (.var ⟨'E', rfl⟩))) 2 [] := by decide +kernel
  have hts := parse_of_read hrun
  have hus := parse_of_read hrun'
  have hsplits : SplitsAt ts 7 .implies := by decide
  have hnone : ¬ ∃ q d, OutsideAt (.not :: us) q d := by
    have hall : ∀ q < 6, ∀ d ∈ Connective.ladder, ¬ OutsideAt (.not :: us) q d := by decide
    rintro ⟨q, d, hq⟩
    exact hall q hq.lt_length d d.mem_ladder hq
  obtain ⟨l, r, hl, hr, hf⟩ := (parse_splits ts _ hts).1 7 .implies hsplits
  cases hf
  exact ⟨⟨_, hts, hsplits, _, rfl, hl, hr⟩, _, hus, hnone,
    ((parse_splits _ _ hus).2.2 hnone).1 us rfl⟩

end Sentential
