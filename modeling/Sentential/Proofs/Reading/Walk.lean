import Sentential.Proofs.Reading.Breach
import Sentential.Reading.Walk

/-!
# Errors are those of a walk

The walk knows neither how tightly connectives bind nor that negations nest, and still it ends where
reading ends and finds the same error, as long as no limit is passed. What is derived takes the walk
from where an operand is due to where an operator is due (`Derives.walkFrom_append`), and where
reading gets stuck the walk is still going on, and ends with the same cause (`Stalls.walkFrom`). If
a limit is passed, it is the tokens read so far that break it (`Stalls.breaksLimit`), and no list
that parses begins with such tokens (`not_breaksLimit_of_parse`).
-/

namespace Sentential

open Pending

theorem le_walkFrom (due : Due) (opened k : Nat) (ts : List Token) :
    k ≤ (walkFrom due opened k ts).1 := by
  fun_induction walkFrom due opened k ts with
  | case1 | case5 | case6 | case9 => exact Nat.le_refl _
  | case2 _ _ _ _ ih | case3 _ _ _ ih | case4 _ _ _ ih | case7 _ _ _ _ ih | case8 _ _ _ _ _ _ ih =>
    exact Nat.le_of_succ_le ih

theorem walkFrom_leftOver {t : Token} {opened : Nat} (hop : ∀ c, t ≠ .op c)
    (hclose : ¬ (t = .rparen ∧ 0 < opened)) (k : Nat) (ts : List Token) :
    walkFrom .operator opened k (t :: ts) = (k, some (leftOver opened k t)) := by
  rw [walkFrom, if_neg hclose]
  exact hop

theorem add_length_cons (k : Nat) (t : Token) (us : List Token) :
    k + (t :: us).length = k + 1 + us.length := by
  rw [List.length_cons]
  omega

theorem add_length_append_cons (k : Nat) (t : Token) (us vs : List Token) :
    k + (us ++ t :: vs).length = k + us.length + 1 + vs.length := by
  rw [List.length_append, List.length_cons]
  omega

/-- **What is derived takes the walk to the next operator**, whatever parentheses are open. -/
theorem Derives.walkFrom_append {cs : List Connective} {us : List Token} {f : Formula}
    (h : Derives cs us f) : ∀ (opened k : Nat) (ts : List Token),
      walkFrom .operand opened k (us ++ ts) = walkFrom .operator opened (k + us.length) ts := by
  induction h with
  | var v => exact fun _ _ _ => rfl
  | not _ ih =>
    intro opened k ts
    rw [add_length_cons]
    exact ih opened (k + 1) ts
  | parens _ ih =>
    intro opened k ts
    rw [add_length_cons, add_length_append_cons, List.cons_append, List.append_assoc]
    exact ih (opened + 1) (k + 1) (.rparen :: ts)
  | operand _ ih => exact ih
  | @link _ _ us _ _ _ _ _ ih₁ ih₂ =>
    intro opened k ts
    rw [add_length_append_cons, List.append_assoc, ih₁]
    exact ih₂ opened (k + us.length + 1) ts

namespace Stalls

variable {budget n : Nat} {cs : List Connective} {us ts : List Token} {cause : ParseError}

/-- **Where a rule gets stuck, the walk is still going on**, and unless a limit is to blame it ends
there, with the same cause. Only at the very beginning the walk would say that there are no tokens
where the rule finds them to be incomplete. -/
theorem walkFrom (h : Stalls budget cs us ts cause n) : ∀ opened k, ∃ due opened',
    walkFrom .operand opened k (us ++ ts) = walkFrom due opened' (k + us.length) ts ∧
      (cause ≠ .tooDeep maxDepth → (k = 0 → us ++ ts ≠ []) →
        Sentential.walkFrom due opened' (k + us.length) ts = (k + us.length, some cause)) := by
  induction h with
  | atEnd =>
    intro opened k
    refine ⟨.operand, opened, rfl, fun _ hk => ?_⟩
    -- at the beginning there would be no tokens at all
    have hk : ¬ k = 0 := fun h => hk h rfl
    simp [Sentential.walkFrom, hk]
  | atConnective => exact fun opened k => ⟨.operand, opened, rfl, fun _ _ => rfl⟩
  | atParen => exact fun opened k => ⟨.operand, opened, rfl, fun _ _ => rfl⟩
  | enterNot => exact fun opened k => ⟨.operand, opened, rfl, fun h => absurd rfl h⟩
  | enterParen => exact fun opened k => ⟨.operand, opened + 1, rfl, fun h => absurd rfl h⟩
  | underNot _ ih =>
    intro opened k
    obtain ⟨due, opened', hwalk, hend⟩ := ih opened (k + 1)
    rw [add_length_cons]
    exact ⟨due, opened', hwalk, fun he _ => hend he fun hk => absurd hk (Nat.succ_ne_zero k)⟩
  | underParen _ ih =>
    intro opened k
    obtain ⟨due, opened', hwalk, hend⟩ := ih (opened + 1) (k + 1)
    rw [add_length_cons]
    exact ⟨due, opened', hwalk, fun he _ => hend he fun hk => absurd hk (Nat.succ_ne_zero k)⟩
  | @deepNot _ us ts _ hf =>
    intro opened k
    rw [add_length_cons]
    exact ⟨.operator, opened, hf.derives.walkFrom_append opened (k + 1) ts,
      fun h => absurd rfl h⟩
  | @unlike _ us ts _ t hf hstops ht =>
    -- the parenthesis that cannot be closed is one of those that the walk counts as open
    intro opened k
    rw [add_length_cons]
    refine ⟨.operator, opened + 1, hf.derives.walkFrom_append (opened + 1) (k + 1) (t :: ts),
      fun _ _ => ?_⟩
    have hop : ∀ c, t ≠ .op c := fun c h => hstops c c.mem_ladder (by rw [h]; rfl)
    rw [walkFrom_leftOver hop fun h => ht h.1, leftOver, if_pos (Nat.succ_pos opened)]
  | @unclosed _ us _ hf =>
    intro opened k
    rw [add_length_cons]
    refine ⟨.operator, opened + 1, hf.derives.walkFrom_append (opened + 1) (k + 1) [],
      fun _ _ => ?_⟩
    rw [Sentential.walkFrom, if_pos (Nat.succ_pos opened)]
  | first _ ih => exact ih
  | @later _ _ _ _ vs us ts _ _ hf _ ih =>
    intro opened k
    obtain ⟨due, opened', hwalk, hend⟩ := ih opened (k + vs.length + 1)
    rw [add_length_append_cons, List.append_assoc, hf.derives.walkFrom_append]
    exact ⟨due, opened', hwalk, fun he _ => hend he fun hk => absurd hk (Nat.succ_ne_zero _)⟩
  | @deepLink _ _ _ vs us ts _ _ hf hg _ =>
    intro opened k
    rw [add_length_append_cons, List.append_assoc, hf.derives.walkFrom_append]
    exact ⟨.operator, opened, hg.derives.walkFrom_append opened (k + vs.length + 1) ts,
      fun h => absurd rfl h⟩

theorem length_le_walk (h : Stalls budget cs us ts cause n) : us.length ≤ (walk (us ++ ts)).1 := by
  obtain ⟨due, opened, hwalk, -⟩ := h.walkFrom 0 0
  have := le_walkFrom due opened (0 + us.length) ts
  rw [walk, hwalk]
  omega

theorem walk_eq (h : Stalls budget cs us ts cause n) (hcause : cause ≠ .tooDeep maxDepth)
    (hts : us ++ ts ≠ []) : walk (us ++ ts) = (us.length, some cause) := by
  obtain ⟨due, opened, hwalk, hend⟩ := h.walkFrom 0 0
  rw [walk, hwalk, hend hcause fun _ => hts, Nat.zero_add]

/-- **A limit is passed because the budget is used up or a formula is too deep.** In the first case
one more sign is pending than the budget allows, on top of those that were pending before. -/
theorem exceeds (h : Stalls budget cs us ts cause n) (hcs : cs <:+ Connective.ladder)
    (hcause : cause = .tooDeep maxDepth) :
    (∀ stack, cs = [] ∨ settle stack = stack →
      (us.foldl step stack).length = stack.length + budget + 1) ∨
    ∃ vs f, vs <:+ us ∧ Denotes vs f ∧ maxDepth < f.depth := by
  induction h with
  | atEnd | atConnective | atParen | unlike | unclosed => cases hcause
  | enterNot => exact .inl fun stack _ => rfl
  | enterParen => exact .inl fun stack _ => rfl
  | @underNot b n us ts e _ ih =>
    refine (ih hcs hcause).imp (fun h stack _ => ?_) ?_
    · rw [List.foldl_cons, step, h _ (.inl rfl), List.length_cons]
      omega
    · rintro ⟨vs, f, hvs, hf, hd⟩
      exact ⟨vs, f, hvs.trans (List.suffix_cons ..), hf, hd⟩
  | underParen _ ih =>
    refine (ih (List.suffix_refl _) hcause).imp (fun h stack _ => ?_) ?_
    · rw [List.foldl_cons, step, h _ (.inr rfl), List.length_cons]
      omega
    · rintro ⟨vs, f, hvs, hf, hd⟩
      exact ⟨vs, f, hvs.trans (List.suffix_cons ..), hf, hd⟩
  | deepNot hf hd =>
    have hnot := (Derives.not hf.derives).of_suffix hcs
    exact .inr ⟨_, _, List.suffix_refl _, hnot, Nat.not_le.mp hd⟩
  | first _ ih =>
    refine (ih ((List.suffix_cons ..).trans hcs) hcause).imp_left fun h stack hs => ?_
    exact h stack (.inr (hs.resolve_left (List.cons_ne_nil _ _)))
  | later hf _ ih =>
    refine (ih ((List.suffix_cons ..).trans hcs) hcause).imp (fun h stack hs => ?_) ?_
    · have hs := hs.resolve_left (List.cons_ne_nil _ _)
      rw [List.foldl_append, hf.derives.foldl_step, hs, List.foldl_cons, step, h _ (.inr hs)]
    · rintro ⟨vs, f, hvs, hf, hd⟩
      exact ⟨vs, f, hvs.trans ((List.suffix_cons ..).trans (List.suffix_append ..)), hf, hd⟩
  | deepLink hf hg hd =>
    have hlink := (Derives.link hf.derives hg.derives).of_suffix hcs
    exact .inr ⟨_, _, List.suffix_refl _, hlink, Nat.not_le.mp hd⟩

theorem max_eq (h : Stalls budget cs us ts cause n) {m : Nat} (hcause : cause = .tooDeep m) :
    m = maxDepth := by
  induction h with
  | underNot _ ih | underParen _ ih | first _ ih | later _ _ ih => exact ih hcause
  | atEnd | atConnective | atParen | unlike | unclosed => cases hcause
  | enterNot | enterParen | deepNot | deepLink => exact (ParseError.tooDeep.inj hcause).symm

theorem breaksLimit (h : Stalls maxDepth Connective.ladder us ts cause n)
    (hcause : cause = .tooDeep maxDepth) : BreaksLimit us := by
  refine (h.exceeds (List.suffix_refl _) hcause).imp_left fun hpending hnests => ?_
  have hlength := hnests us (List.prefix_refl us)
  rw [after, hpending [] (.inr rfl), List.length_nil] at hlength
  omega

end Stalls

/-! ### The walk and the parser -/

section walk

variable {ts us : List Token} {f : Formula} {t : Token} {r : Reader} {e : ParseError}

theorem walk_of_derives (h : Derives Connective.ladder us f) : walk us = (us.length, none) := by
  have hwalk := h.walkFrom_append 0 0 []
  rw [List.append_nil, Nat.zero_add] at hwalk
  rw [walk, hwalk]
  rfl

theorem walk_of_left (h : Derives Connective.ladder us f)
    (hstops : Stops Connective.ladder (t :: ts)) :
    walk (us ++ t :: ts) = (us.length, some (.trailing t us.length)) := by
  have hop : ∀ c, t ≠ .op c := fun c hc => hstops c c.mem_ladder (by rw [hc]; rfl)
  rw [walk, h.walkFrom_append, walkFrom_leftOver hop fun h => Nat.lt_irrefl 0 h.2, leftOver,
    if_neg (Nat.lt_irrefl 0), Nat.zero_add]

theorem walk_of_next_error (h : ({ tokens := ts } : Reader).next = (.error e, r))
    (he : e ≠ .tooDeep maxDepth) : walk ts = (r.position, some e) := by
  rcases Reader.next_error h with ⟨hts, rfl, rfl⟩ | ⟨hts, us, opened, rest, hrest, hstalls, rfl⟩
  · subst hts
    rfl
  · have hpos : (({ tokens := ts } : Reader).advance rest).position = us.length := by
      rw [Reader.position_advance hrest, Nat.zero_add]
    change ts = us ++ rest at hrest
    subst hrest
    rw [hstalls.walk_eq he hts]
    exact congrArg (·, some e) hpos.symm

theorem walk_of_parse_error (h : parse ts = .error e) (he : e ≠ .tooDeep maxDepth) :
    (walk ts).2 = some e := by
  rcases parse_eq_error h with ⟨r, hnext⟩ | ⟨f, r, t, vs, hnext, hleft, rfl⟩
  · rw [walk_of_next_error hnext he]
  · obtain ⟨us, rest, hrest, hf, hstops, rfl⟩ := Reader.next_ok hnext
    rw [Reader.rest_advance _ ⟨us, hrest.symm⟩] at hleft
    rw [Reader.position_advance hrest, Nat.zero_add]
    change ts = us ++ rest at hrest
    subst hrest hleft
    rw [walk_of_left hf.derives hstops]

theorem walk_of_parse (h : parse ts = .ok f) : (walk ts).2 = none := by
  rw [walk_of_derives (parse_eq_ok_iff_fits.mp h).derives]

/-- **Where a limit stops the reader**, the walk is still going on, and the tokens up to there break
the limit. -/
theorem breaksLimit_of_next_tooDeep {n : Nat}
    (h : ({ tokens := ts } : Reader).next = (.error (.tooDeep n), r)) :
    n = maxDepth ∧ r.position ≤ (walk ts).1 ∧ BreaksLimit (ts.take r.position) := by
  rcases Reader.next_error h with ⟨-, he, -⟩ | ⟨-, us, opened, rest, hrest, hstalls, rfl⟩
  · cases he
  · obtain rfl := hstalls.max_eq rfl
    have hpos : (({ tokens := ts } : Reader).advance rest).position = us.length := by
      rw [Reader.position_advance hrest, Nat.zero_add]
    change ts = us ++ rest at hrest
    subst hrest
    change _ ∧ (({ tokens := us ++ rest } : Reader).advance rest).position ≤ _ ∧
      BreaksLimit ((us ++ rest).take (({ tokens := us ++ rest } : Reader).advance rest).position)
    rw [hpos, List.take_left]
    exact ⟨rfl, hstalls.length_le_walk, hstalls.breaksLimit rfl⟩

/-- **Parsing and the walk agree.** Unless parsing is stopped by a limit, it fails just where the
walk does and with the same error; if it is the reading that fails, and not tokens that are left
over, the reader has come as far as the walk. If a limit stops it, the reader has not come further
than the walk, and the tokens that it has read break the limit. What parses does not begin with such
tokens. -/
theorem parse_eq_error_iff_walk (ts : List Token) :
    ((∀ n, parse ts ≠ .error (.tooDeep n)) →
      (∀ e, parse ts = .error e ↔ (walk ts).2 = some e) ∧
        ∀ e r, ({ tokens := ts } : Reader).next = (.error e, r) → r.position = (walk ts).1) ∧
    (∀ n, parse ts = .error (.tooDeep n) → n = maxDepth ∧
      ({ tokens := ts } : Reader).next.2.position ≤ (walk ts).1 ∧
        BreaksLimit (ts.take ({ tokens := ts } : Reader).next.2.position)) ∧
    ∀ k f, parse ts = .ok f → ¬ BreaksLimit (ts.take k) := by
  refine ⟨fun hlimit => ?_, fun n h => ?_, fun k f h => ?_⟩
  · have hne : ∀ e, parse ts = .error e → e ≠ .tooDeep maxDepth := by
      rintro _ h rfl
      exact hlimit _ h
    refine ⟨fun e => ⟨fun h => walk_of_parse_error h (hne e h), fun h => ?_⟩, fun e r h => ?_⟩
    · cases hparse : parse ts with
      | ok f =>
        rw [walk_of_parse hparse] at h
        cases h
      | error e' =>
        rw [walk_of_parse_error hparse (hne e' hparse)] at h
        rw [Option.some.inj h]
    · have hparse : parse ts = .error e := by rw [parse, h]
      rw [walk_of_next_error h (hne e hparse)]
  · rcases parse_eq_error h with ⟨r, hnext⟩ | ⟨_, _, _, _, _, _, he⟩
    · rw [hnext]
      exact breaksLimit_of_next_tooDeep hnext
    · cases he
  · rw [← ts.take_append_drop k] at h
    exact not_breaksLimit_of_parse h

/-- In `(∼A ∧ B C` a `)` is due behind `B`, and 257 negations are one too many, while 130 disjunctions
and 130 conjunctions after each other do not make a formula that is too deep. -/
theorem parse_eq_error_walk_group :
    let a : Token := .var ⟨'A', rfl⟩
    let group : List Token := [.lparen, .not, a, .op .and, .var ⟨'B', rfl⟩, .var ⟨'C', rfl⟩]
    let nots : List Token := .replicate 257 .not
    let mixed : List Token :=
      a :: (List.replicate 130 [.op .or, a] ++ List.replicate 130 [.op .and, a]).flatten
    (∀ n, parse group ≠ .error (.tooDeep n)) ∧
      parse group = .error (.expected .rparen (.var ⟨'C', rfl⟩)) ∧
      parse nots = .error (.tooDeep 256) ∧
      BreaksLimit (nots.take ({ tokens := nots } : Reader).next.2.position) ∧
      (parse mixed).isOk = true ∧ ∀ k, ¬ BreaksLimit (mixed.take k) := by
  intro a group nots mixed
  have hgroup : (Rule.formula maxDepth).run group =
      .stuck (.expected .rparen (.var ⟨'C', rfl⟩)) 1 [.var ⟨'C', rfl⟩] := by decide +kernel
  have hrun : (Rule.formula maxDepth).run nots = .tooDeep 257 [] := by decide +kernel
  have hdeep : parse nots = .error (.tooDeep 256) := parse_of_stuck (List.cons_ne_nil _ _) hrun
  have hmixed : (parse mixed).isOk = true := by decide +kernel
  have hlimit : ∀ n, parse group ≠ .error (.tooDeep n) := by
    intro n
    rw [parse_of_stuck (List.cons_ne_nil _ _) hgroup]
    exact fun h => nomatch h
  obtain ⟨herror, -, -⟩ := parse_eq_error_iff_walk group
  obtain ⟨-, hbreaks, -⟩ := parse_eq_error_iff_walk nots
  obtain ⟨-, -, hok⟩ := parse_eq_error_iff_walk mixed
  refine ⟨hlimit, ((herror hlimit).1 _).mpr rfl, hdeep, (hbreaks _ hdeep).2.2, hmixed, fun k => ?_⟩
  cases hparse : parse mixed with
  | ok f => exact hok k f hparse
  | error e =>
    rw [hparse] at hmixed
    cases hmixed

end walk

end Sentential
