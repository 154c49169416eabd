import Sentential.Proofs.Reading.Parse

/-!
# What more tokens change

A rule looks no further than the first token that it leaves. So if it leaves one, it does the same
when more tokens follow, and the refusal of a token stands whatever comes after it. If it leaves
none, then more tokens can matter, in few ways: a formula that was read can only grow, and what was
refused as too deep is not read any more (`Reading.Grows`). A rule is steady if it keeps to this
(`Rule.Steady`); each step by which rules are built keeps them steady, and so the rule for formulas
is.

What ended too early can be completed, on the other hand. `Stalls.completion` finds the tokens that
are missing, from the signs that are open and the operand that is due.
-/

namespace Sentential

namespace ParseError

/-- The tokens end where more of them are needed. -/
def isEarlyEnd : ParseError → Bool
  | noTokens | incomplete | unclosed => true
  | _ => false

/-- There is a token that must not stand where it stands. -/
def blamesToken : ParseError → Bool
  | expected .. | unexpected _ | trailing .. => true
  | _ => false

end ParseError

/-! ### Readings of a list and of one that goes on -/

namespace Reading

/-- The same reading, with more tokens after those that are left. -/
def followedBy (us : List Token) : Reading → Reading
  | read f d rest => read f d (rest ++ us)
  | stuck cause opened rest => stuck cause opened (rest ++ us)

/-- How the reading of a list (the first one) and of the list followed by `us` belong together. -/
inductive Grows (us : List Token) : Reading → Reading → Prop
  /-- A token was left, so nothing is changed. -/
  | unchanged {x : Reading} : x.rest ≠ [] → Grows us x (x.followedBy us)
  /-- All tokens were consumed, and it gets stuck later on. -/
  | fails {x : Reading} {cause : ParseError} {n : Nat} {rest : List Token} :
      x.rest = [] → Grows us x (stuck cause n rest)
  /-- All tokens were those of a formula, and a formula is read that is no less deep. -/
  | deepens {f g : Formula} {d e : Nat} {rest : List Token} :
      d ≤ e → Grows us (read f d []) (read g e rest)
  /-- The tokens ended too early, and now a formula is read. -/
  | cured {cause : ParseError} {n : Nat} {g : Formula} {e : Nat} {rest : List Token} :
      cause.isEarlyEnd = true → Grows us (stuck cause n []) (read g e rest)

variable {us rest : List Token} {x y : Reading} {f : Formula} {d n : Nat} {cause : ParseError}

theorem Grows.read (us : List Token) (f : Formula) (d : Nat) (rest : List Token) :
    Grows us (read f d rest) (read f d (rest ++ us)) := by
  by_cases hrest : rest = []
  · subst hrest
    exact deepens (Nat.le_refl _)
  · exact unchanged (x := .read f d rest) hrest

theorem Grows.stuck (us : List Token) (cause : ParseError) (n : Nat) (rest : List Token) :
    Grows us (stuck cause n rest) (stuck cause n (rest ++ us)) := by
  by_cases hrest : rest = []
  · exact fails hrest
  · exact unchanged (x := .stuck cause n rest) hrest

/-- Where the tokens ended too early, everything may happen. -/
theorem Grows.of_isEarlyEnd (us : List Token) (y : Reading) (n : Nat)
    (h : cause.isEarlyEnd = true) : Grows us (.stuck cause n []) y := by
  cases y with
  | read => exact cured h
  | stuck => exact fails rfl

theorem Grows.of_le (h : ∀ g e rest, y = .read g e rest → d ≤ e) : Grows us (.read f d []) y := by
  cases y with
  | read g e rest => exact deepens (h g e rest rfl)
  | stuck => exact fails rfl

/-! ### Signs -/

theorem rest_bounded (f : Formula) (d : Nat) (rest : List Token) :
    (bounded f d rest).rest = rest := by
  unfold bounded
  split <;> rfl

theorem rest_negated (x : Reading) : x.negated.rest = x.rest := by
  cases x with
  | read => exact rest_bounded ..
  | stuck => rfl

theorem bounded_append (f : Formula) (d : Nat) (rest us : List Token) :
    bounded f d (rest ++ us) = (bounded f d rest).followedBy us := by
  unfold bounded
  split <;> rfl

theorem negated_followedBy (x : Reading) (us : List Token) :
    (x.followedBy us).negated = x.negated.followedBy us := by
  cases x with
  | read => exact bounded_append ..
  | stuck => rfl

theorem Grows.negated (h : Grows us x y) : Grows us x.negated y.negated := by
  cases h with
  | unchanged hrest =>
    rw [negated_followedBy]
    exact unchanged (by rwa [rest_negated])
  | fails hrest => exact fails (by rwa [rest_negated])
  | @deepens f g d e rest hde =>
    by_cases he : e + 1 ≤ maxDepth
    · have hd : d + 1 ≤ maxDepth := by omega
      have hx : (Reading.read f d []).negated = .read (.not f) (d + 1) [] := if_pos hd
      have hy : (Reading.read g e rest).negated = .read (.not g) (e + 1) rest := if_pos he
      rw [hx, hy]
      exact deepens (by omega)
    · have hy : (Reading.read g e rest).negated = tooDeep 0 rest := if_neg he
      rw [hy]
      exact fails (rest_negated _)
  | cured hcause => exact of_isEarlyEnd _ _ _ hcause

theorem Grows.closed (h : Grows us x y) : Grows us x.closed y.closed := by
  cases h with
  | @unchanged x hrest =>
    cases x with
    | stuck cause n rest => exact stuck ..
    | read f d rest =>
      obtain ⟨t, ts, rfl⟩ := List.exists_cons_of_ne_nil hrest
      by_cases ht : t = .rparen
      · subst ht
        exact read ..
      · have hy : (Reading.read f d (t :: (ts ++ us))).closed = _ := closed_of_ne ht
        rw [followedBy, List.cons_append, closed_of_ne ht, hy]
        exact stuck ..
  | @fails x cause n rest hrest =>
    cases x with
    | stuck => exact fails hrest
    | read f d rest =>
      have hrest : rest = [] := hrest
      subst hrest
      exact fails rfl
  | deepens => exact of_isEarlyEnd _ _ _ rfl
  | cured hcause => exact of_isEarlyEnd _ _ _ hcause

end Reading

namespace Rule

open Reading

/-- Whatever follows the tokens, the reading changes in the listed ways only. -/
def Steady (rule : Rule) : Prop := ∀ ts us, Grows us (rule.run ts) (rule.run (ts ++ us))

theorem Steady.run_append {rule : Rule} {ts : List Token} {x : Reading} (h : rule.Steady)
    (hx : rule.run ts = x) (us : List Token) :
    ∃ y, rule.run (ts ++ us) = y ∧ Grows us x y := by
  have hgrows := h ts us
  rw [hx] at hgrows
  exact ⟨_, rfl, hgrows⟩

/-! ### Chains -/

section chains

variable {operand : Rule} {c : Connective} {f g : Formula} {d e : Nat} {ts us rest : List Token}

theorem le_of_links (h : links operand c f d ts = .read g e rest) : d ≤ e := by
  fun_induction links operand c f d ts with
  | case1 f d ts g' e' ts' hr hm ih =>
    have := ih h
    omega
  | case2 | case3 => cases h
  | case4 | case5 =>
    cases h
    exact Nat.le_refl _

theorem links_nil : links operand c f d [] = .read f d [] := links_stop fun h => nomatch h

theorem grows_links_nil (us : List Token) (h : d ≤ e) :
    Grows us (.read f d []) (links operand c g e ts) :=
  .of_le fun _ _ _ hread => Nat.le_trans h (le_of_links hread)

/-- **The links of a chain**, where what has been read of the chain is the same on both sides. The
induction is on the links of the shorter list; it stops where an operand takes all that is left, and
there the chain is no less deep in the longer list, if it is read. -/
theorem Steady.links (ho : operand.Steady) (c : Connective) (f : Formula) (d : Nat)
    (ts us : List Token) :
    Grows us (links operand c f d ts) (links operand c f d (ts ++ us)) := by
  fun_induction Rule.links operand c f d ts with
  | case1 f d ts g e rest hrun hd ih =>
    obtain ⟨y, hy, hgrows⟩ := ho.run_append hrun us
    cases hgrows with
    | unchanged =>
      rw [List.cons_append, links_read hy, if_pos hd]
      exact ih
    | fails hrest =>
      have hrest : rest = [] := hrest
      subst hrest
      rw [links_nil, List.cons_append, links_stuck hy]
      exact .fails rfl
    | deepens hde =>
      -- the operand is another one in the longer list, and more links may follow it
      rw [links_nil, List.cons_append, links_read hy]
      split
      · exact grows_links_nil us (by omega)
      · exact .fails rfl
  | case2 f d ts g e rest hrun hd =>
    obtain ⟨y, hy, hgrows⟩ := ho.run_append hrun us
    cases hgrows with
    | unchanged =>
      rw [List.cons_append, links_read hy, if_neg hd]
      exact .stuck ..
    | fails hrest =>
      rw [List.cons_append, links_stuck hy]
      exact .fails hrest
    | @deepens _ g' _ e' _ hde =>
      have hd' : ¬ max d e' + 1 ≤ maxDepth := by omega
      rw [List.cons_append, links_read hy, if_neg hd']
      exact .fails rfl
  | case3 f d ts cause opened rest hrun =>
    obtain ⟨y, hy, hgrows⟩ := ho.run_append hrun us
    cases hgrows with
    | unchanged =>
      rw [List.cons_append, links_stuck hy]
      exact .stuck ..
    | fails hrest =>
      rw [List.cons_append, links_stuck hy]
      exact .fails hrest
    | cured hcause => exact .of_isEarlyEnd _ _ _ hcause
  | case4 f d c' ts hc =>
    have hstop : (.op c' :: (ts ++ us)).head? ≠ some (Token.op c) := by
      intro h
      cases h
      exact hc rfl
    rw [List.cons_append, links_stop hstop]
    exact .read ..
  | case5 f d ts hts =>
    cases ts with
    | nil => exact grows_links_nil us (Nat.le_refl d)
    | cons t ts =>
      have hstop : (t :: (ts ++ us)).head? ≠ some (.op c) := by
        intro h
        cases h
        exact hts c ts rfl
      rw [List.cons_append, links_stop hstop]
      exact .read ..

theorem Steady.chain (ho : operand.Steady) (c : Connective) : (operand.chain c).Steady := by
  intro ts us
  have hgrows := ho ts us
  simp only [Rule.chain]
  generalize hx : operand.run ts = x at hgrows
  generalize hy : operand.run (ts ++ us) = y at hgrows
  cases hgrows with
  | @unchanged x hrest =>
    cases x with
    | read f d rest => exact ho.links c f d rest us
    | stuck => exact .stuck ..
  | @fails x cause n rest hrest =>
    cases x with
    | read f d rest =>
      have hrest : rest = [] := hrest
      subst hrest
      dsimp only
      rw [links_nil]
      exact .fails rfl
    | stuck => exact .fails hrest
  | deepens hde =>
    dsimp only
    rw [links_nil]
    exact grows_links_nil us hde
  | cured hcause => exact .of_isEarlyEnd _ _ _ hcause

theorem Steady.joined (ho : operand.Steady) : ∀ cs : List Connective, (operand.joined cs).Steady
  | [] => ho
  | c :: cs => (ho.joined cs).chain c

end chains

/-! ### Operands -/

theorem Steady.operandWith {inner : Option Rule} (hi : ∀ rule ∈ inner, rule.Steady)
    (ts us : List Token) : Grows us (operandWith inner ts) (operandWith inner (ts ++ us)) := by
  cases ts with
  | nil => exact .of_isEarlyEnd _ _ _ rfl
  | cons t ts =>
    cases t with
    | var v => exact .read ..
    | op | rparen => exact .stuck ..
    | not =>
      cases inner with
      | none => exact .stuck ..
      | some rule => exact (hi rule rfl ts us).negated
    | lparen =>
      cases inner with
      | none => exact .stuck ..
      | some rule => exact ((hi rule rfl).joined _ ts us).closed

theorem steady_operand (budget : Nat) : (operand budget).Steady := by
  induction budget with
  | zero =>
    have hnone : ∀ rule ∈ (none : Option Rule), rule.Steady := fun _ h => nomatch h
    exact .operandWith hnone
  | succ budget ih =>
    have hsome : ∀ rule ∈ some (operand budget), rule.Steady := by
      rintro _ ⟨⟩
      exact ih
    exact .operandWith hsome

theorem steady_rung (budget level : Nat) : (rung budget level).Steady :=
  (steady_operand budget).joined _

end Rule

/-! ### Causes -/

namespace Stalls

variable {budget n : Nat} {cs : List Connective} {us ts : List Token} {cause : ParseError}

theorem rest_ne_nil (h : Stalls budget cs us ts cause n) (hcause : cause.blamesToken = true) :
    ts ≠ [] := by
  induction h with
  | atConnective | atParen | unlike => exact List.cons_ne_nil _ _
  | underNot _ ih | underParen _ ih | first _ ih | later _ _ ih => exact ih hcause
  | atEnd | enterNot | enterParen | deepNot | unclosed | deepLink => cases hcause

/-- **What ended too early can be completed**: each parenthesis that is open gets its `)`, after the
operand that was due. -/
theorem completion (h : Stalls budget cs us ts cause n) (hcause : cause.isEarlyEnd = true) :
    ts = [] ∧ ∃ vs f, Derives cs (us ++ vs) f := by
  induction h with
  | atEnd => exact ⟨rfl, [.var ⟨'A', rfl⟩], _, .var _⟩
  | underNot _ ih =>
    obtain ⟨hts, vs, f, hf⟩ := ih hcause
    exact ⟨hts, vs, _, .not hf⟩
  | @underParen _ _ us _ _ _ ih =>
    obtain ⟨hts, vs, f, hf⟩ := ih hcause
    have hparens := hf.parens
    rw [List.append_assoc] at hparens
    exact ⟨hts, vs ++ [.rparen], f, hparens⟩
  | unclosed hf => exact ⟨rfl, [.rparen], _, .parens hf.derives⟩
  | first _ ih =>
    obtain ⟨hts, vs, f, hf⟩ := ih hcause
    exact ⟨hts, vs, f, .operand hf⟩
  | later hf _ ih =>
    obtain ⟨hts, vs, g, hg⟩ := ih hcause
    have hlink := hf.derives.link hg
    rw [← List.cons_append, ← List.append_assoc] at hlink
    exact ⟨hts, vs, _, hlink⟩
  | atConnective | atParen | enterNot | enterParen | deepNot | unlike | deepLink => cases hcause

end Stalls

/-! ### The parser -/

section parse

variable {ts us : List Token} {e : ParseError} {f : Formula}

theorem steady_formula : (Rule.formula maxDepth).Steady := Rule.steady_rung maxDepth 0

theorem parse_append_of_blamesToken (he : e.blamesToken = true) (h : parse ts = .error e)
    (us : List Token) : parse (ts ++ us) = .error e := by
  rcases parse_error_cases h with ⟨-, rfl⟩ | ⟨opened, rest, hne, hrun⟩ | ⟨f, d, t, vs, hrun, rfl⟩
  · cases he
  · have hne' : ts ++ us ≠ [] := List.append_ne_nil_of_left_ne_nil hne us
    obtain ⟨ws, -, hstalls⟩ := (Rule.greedy_formula maxDepth).stalls hrun
    have hrest := hstalls.rest_ne_nil he
    obtain ⟨y, hrun', hgrows⟩ := steady_formula.run_append hrun us
    cases hgrows with
    | unchanged => exact parse_of_stuck hne' hrun'
    | fails hnil => exact absurd hnil hrest
    | cured => exact absurd rfl hrest
  · obtain ⟨y, hrun', hgrows⟩ := steady_formula.run_append hrun us
    cases hgrows with
    | unchanged =>
      have hleft : (Rule.formula maxDepth).run (ts ++ us) = .read f d (t :: (vs ++ us)) := hrun'
      have hplace : (ts ++ us).length - ((vs ++ us).length + 1) =
          ts.length - (vs.length + 1) := by
        rw [List.length_append, List.length_append]
        omega
      rw [parse_of_left hleft, hplace]
    | fails hnil => exact absurd hnil (List.cons_ne_nil t vs)

/-- **What is too deep stays so**, or another token is refused before that is found out. -/
theorem parse_append_of_tooDeep {n : Nat} (h : parse ts = .error (.tooDeep n)) :
    parse (ts ++ us) ≠ .ok f := by
  intro hok
  obtain ⟨d, hrun'⟩ := parse_eq_ok_iff_run.mp hok
  rcases parse_error_cases h with ⟨-, he⟩ | ⟨opened, rest, -, hrun⟩ | ⟨_, _, _, _, -, he⟩
  · cases he
  · obtain ⟨y, hy, hgrows⟩ := steady_formula.run_append hrun us
    rw [hrun'] at hy
    subst hy
    cases hgrows with
    | cured hcause => cases hcause
  · cases he

theorem denotes_append_of_isEarlyEnd (he : e.isEarlyEnd = true) (h : parse ts = .error e) :
    ∃ us f, Denotes (ts ++ us) f := by
  rcases parse_error_cases h with ⟨rfl, -⟩ | ⟨opened, rest, -, hrun⟩ | ⟨_, _, _, _, -, rfl⟩
  · exact ⟨[.var ⟨'A', rfl⟩], _, denotes_negations ⟨'A', rfl⟩ 0⟩
  · obtain ⟨vs, rfl, hstalls⟩ := (Rule.greedy_formula maxDepth).stalls hrun
    obtain ⟨rfl, us, f, hf⟩ := hstalls.completion he
    rw [List.append_nil]
    exact ⟨us, f, hf⟩
  · cases he

/-- **Which refusals more tokens can cure.** Where a token is to blame, the same refusal is given
whatever follows. Where the list is too deep, it does not parse whatever follows. Where it ended too
early, there are tokens that make it denote a formula, which parses unless it breaks a limit. -/
theorem parse_append (ts : List Token) :
    (∀ e, e.blamesToken = true → parse ts = .error e → ∀ us, parse (ts ++ us) = .error e) ∧
    (∀ n, parse ts = .error (.tooDeep n) → ∀ us f, parse (ts ++ us) ≠ .ok f) ∧
    ∀ e, e.isEarlyEnd = true → parse ts = .error e → ∃ us f, Denotes (ts ++ us) f ∧
      (parse (ts ++ us) = .ok f ∨ parse (ts ++ us) = .error (.tooDeep maxDepth)) := by
  refine ⟨fun e => parse_append_of_blamesToken, fun n h us f => parse_append_of_tooDeep h, ?_⟩
  intro e he h
  obtain ⟨us, f, hf⟩ := denotes_append_of_isEarlyEnd he h
  refine ⟨us, f, hf, ?_⟩
  by_cases hfits : Fits maxDepth Connective.ladder (ts ++ us) f
  · exact .inl (parse_eq_ok_iff_fits.mpr hfits)
  · exact .inr (parse_eq_tooDeep hf hfits)

/-- After `A B` nothing helps, nor after too many `∼`, while `(A` lacks a `)`. -/
theorem parse_append_group :
    let extra : List Token := [.var ⟨'A', rfl⟩, .var ⟨'B', rfl⟩]
    let deep : List Token := .replicate 257 .not
    let group : List Token := [.lparen, .var ⟨'A', rfl⟩]
    parse extra = .error (.trailing (.var ⟨'B', rfl⟩) 1) ∧
      parse (extra ++ [.rparen]) = .error (.trailing (.var ⟨'B', rfl⟩) 1) ∧
      parse deep = .error (.tooDeep 256) ∧
      parse (deep ++ [.var ⟨'A', rfl⟩]) ≠ .ok (.var ⟨'A', rfl⟩) ∧
      parse group = .error .unclosed ∧
      ∃ us f, Denotes (group ++ us) f := by
  intro extra deep group
  have hextra : parse extra = .error (.trailing (.var ⟨'B', rfl⟩) 1) := by
    have hrun : (Rule.formula maxDepth).run extra =
        .read (.var ⟨'A', rfl⟩) 0 [.var ⟨'B', rfl⟩] := by decide +kernel
    exact parse_of_left hrun
  have hdeep : parse deep = .error (.tooDeep 256) := by
    have hrun : (Rule.formula maxDepth).run deep = .stuck (.tooDeep 256) 257 [] := by
      decide +kernel
    exact parse_of_stuck (by decide) hrun
  have hgroup : parse group = .error .unclosed := by
    have hrun : (Rule.formula maxDepth).run group = .stuck .unclosed 1 [] := by decide +kernel
    exact parse_of_stuck (List.cons_ne_nil _ _) hrun
  obtain ⟨us, f, hf, -⟩ := (parse_append group).2.2 _ rfl hgroup
  exact ⟨hextra, (parse_append extra).1 _ rfl hextra [.rparen], hdeep,
    (parse_append deep).2.1 _ hdeep _ _, hgroup, us, f, hf⟩

end parse

end Sentential
