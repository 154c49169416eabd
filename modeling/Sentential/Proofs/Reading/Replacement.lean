import Mathlib.Logic.Function.Basic
import Sentential.Formula.Substitution
import Sentential.Proofs.Reading.Parse
import Sentential.Proofs.Table.Equivalence

/-!
# A group in the place of a variable

In a list of tokens a variable may give its place to the tokens of any formula, if these come in
parentheses: whatever surrounds it, a group is one operand, as the variable is (`Derives.replace`).
So the new list denotes the formula with the other formula in the place of that variable, and only
the limits can keep it from being parsed. The value is the one that the first formula has where the
variable is bound to the value of the second one (`Formula.evalIn_replace`).
-/

namespace Sentential

/-- The second environment has the values of the first one, but this value for the variable `x`. -/
def Environment.Rebinds {ε ε' : Type} [Environment ε] [Environment ε'] (values : ε) (x : Variable)
    (b : Bool) (values' : ε') : Prop :=
  ∀ v, value? values' v = if v = x then some b else value? values v

theorem Environment.rebinds_update (env : Variable → Bool) (x : Variable) (b : Bool) :
    Rebinds env x b (Function.update env x b) := by
  intro v
  change some (Function.update env x b v) = if v = x then some b else some (env v)
  rw [Function.update_apply, apply_ite some]

namespace Token

variable {x : Variable} {ss : List Token}

/-- Puts a group of the tokens `ss` in the place of one variable. -/
def replace (x : Variable) (ss ts : List Token) : List Token :=
  ts.flatMap fun t => if t = .var x then .lparen :: (ss ++ [.rparen]) else [t]

theorem replace_append (ts us : List Token) :
    replace x ss (ts ++ us) = replace x ss ts ++ replace x ss us :=
  List.flatMap_append

theorem replace_var_self : replace x ss [.var x] = .lparen :: (ss ++ [.rparen]) := by
  rw [replace, List.flatMap_singleton, if_pos rfl]

theorem replace_cons_of_ne {t : Token} {ts : List Token} (h : t ≠ .var x) :
    replace x ss (t :: ts) = t :: replace x ss ts := by
  rw [replace, List.flatMap_cons, if_neg h]
  rfl

end Token

/-- **A group may stand wherever a variable does.** Each rule of the grammar passes over to the new
tokens, and a variable that gives its place becomes an operand in parentheses. -/
theorem Derives.replace {cs : List Connective} {ts ss : List Token} {f g : Formula}
    (hf : Derives cs ts f) (hg : Denotes ss g) (x : Variable) :
    Derives cs (Token.replace x ss ts) (f.replace x g) := by
  induction hf with
  | var v =>
    by_cases hv : v = x
    · subst hv
      rw [Token.replace_var_self, Formula.replace_var_self]
      exact .parens hg
    · have hvar : Token.var v ≠ .var x := fun h => hv (Token.var.inj h)
      rw [Token.replace_cons_of_ne hvar, Formula.replace_var_of_ne hv]
      exact .var v
  | not _ ih =>
    have hnot : Token.not ≠ .var x := nofun
    rw [Token.replace_cons_of_ne hnot]
    exact .not ih
  | parens _ ih =>
    have hlparen : Token.lparen ≠ .var x := nofun
    have hrparen : Token.rparen ≠ .var x := nofun
    rw [Token.replace_cons_of_ne hlparen, Token.replace_append, Token.replace_cons_of_ne hrparen]
    exact .parens ih
  | operand _ ih => exact .operand ih
  | @link c _ _ _ _ _ _ _ ih₁ ih₂ =>
    have hop : Token.op c ≠ .var x := nofun
    rw [Token.replace_append, Token.replace_cons_of_ne hop]
    exact .link ih₁ ih₂

theorem Formula.evalIn_replace {ε ε' : Type} [Environment ε] [Environment ε'] {values : ε}
    {values' : ε'} {x : Variable} {b : Bool} {f g : Formula} (hg : g.evalIn values = .ok b)
    (hrebinds : Environment.Rebinds values x b values') :
    (f.replace x g).evalIn values = f.evalIn values' := by
  have hvalue (v : Variable) :
      (if v = x then g else var v).evalIn values = Environment.value values' v := by
    unfold Environment.value
    rw [hrebinds v]
    split
    · exact hg
    · rfl
  unfold evalIn replace
  rw [evalM_subst]
  exact congrArg (f.evalM ·) (funext hvalue)

/-- **A group in the place of a variable is safe.** If the tokens of a formula stand in parentheses
in the place of a variable, the new list parses to the formula with that formula in the place of the
variable, or it is too deep. The latter is so just if it nests more signs than the limit or its
formula is too deep. If it parses, then wherever all variables have values it has the value of the
first formula where the variable is bound to the value of the second one. -/
theorem parse_replace (ts ss : List Token) (f g : Formula) (x : Variable) (hf : parse ts = .ok f)
    (hg : parse ss = .ok g) :
    (parse (Token.replace x ss ts) = .ok (f.replace x g) ∨
      parse (Token.replace x ss ts) = .error (.tooDeep maxDepth)) ∧
    (parse (Token.replace x ss ts) = .error (.tooDeep maxDepth) ↔
      ¬ NestsWithin maxDepth (Token.replace x ss ts) ∨ maxDepth < (f.replace x g).depth) ∧
    ∀ k, parse (Token.replace x ss ts) = .ok k →
      ∀ (ε : Type) [Environment ε] (values : ε), Environment.Total values →
        ∃ b b', g.evalIn values = .ok b ∧ k.evalIn values = .ok b' ∧
          ∀ (ε' : Type) [Environment ε'] (values' : ε'),
            Environment.Rebinds values x b values' → f.evalIn values' = .ok b' := by
  have hdenotes : Denotes (Token.replace x ss ts) (f.replace x g) :=
    (parse_eq_ok_iff_fits.mp hf).derives.replace (parse_eq_ok_iff_fits.mp hg).derives x
  rcases parse_of_denotes hdenotes with ⟨⟨hnests, hdepth⟩, hok⟩ | ⟨hlimits, herror⟩
  · rw [hok]
    refine ⟨.inl rfl, ⟨nofun, ?_⟩, ?_⟩
    · rintro (h | h)
      · exact absurd hnests h
      · exact absurd hdepth (Nat.not_le.mpr h)
    · rintro _ ⟨⟩ ε _ values htotal
      obtain ⟨env, henv⟩ := Formula.exists_valuation htotal
      refine ⟨g.eval env, (f.replace x g).eval env, henv g, henv _, fun ε' _ values' hrebinds => ?_⟩
      rw [← Formula.evalIn_replace (henv g) hrebinds]
      exact henv _
  · rw [herror]
    exact ⟨.inr rfl, ⟨fun _ => hlimits, fun _ => rfl⟩, nofun⟩

/-- `∼A ∧ B` with `(B ∨ C)` in the place of `A` stays a conjunction, and where only `B` is true it
has the value of `∼A ∧ B` with `A` true as well. Two formulas of 200 negations are too deep
together. -/
theorem parse_replace_negation :
    let a : Variable := ⟨'A', rfl⟩
    let b : Variable := ⟨'B', rfl⟩
    let ts : List Token := [.not, .var a, .op .and, .var b]
    let ss : List Token := [.var b, .op .or, .var ⟨'C', rfl⟩]
    let f : Formula := .binary .and (.not (.var a)) (.var b)
    let g : Formula := .binary .or (.var b) (.var ⟨'C', rfl⟩)
    let k : Formula := .binary .and (.not g) (.var b)
    let env : Variable → Bool := fun v => v = b
    let negations (v : Variable) : List Token := List.replicate 200 .not ++ [.var v]
    parse ts = .ok f ∧ parse ss = .ok g ∧
      parse (Token.replace a ss ts) = .ok k ∧ Environment.Total env ∧
      k.evalIn env = f.evalIn (Function.update env a true) ∧
      parse (Token.replace a (negations b) (negations a)) = .error (.tooDeep maxDepth) := by
  intro a b ts ss f g k env negations
  have hrun : (Rule.formula maxDepth).run ts = .read f 2 [] := by decide +kernel
  have hrun' : (Rule.formula maxDepth).run ss = .read g 1 [] := by decide +kernel
  have hdeep : (Rule.formula maxDepth).run (negations a) =
      .read (Nat.repeat .not 200 (.var a)) 200 [] := by decide +kernel
  have hdeep' : (Rule.formula maxDepth).run (negations b) =
      .read (Nat.repeat .not 200 (.var b)) 200 [] := by decide +kernel
  have hf := parse_of_read hrun
  have hg := parse_of_read hrun'
  have htotal : Environment.Total env := fun _ => rfl
  obtain ⟨hok, hlimits, hvalue⟩ := parse_replace ts ss f g a hf hg
  have hk : parse (Token.replace a ss ts) = .ok k := by
    refine hok.resolve_right fun h => ?_
    rw [hlimits, nestsWithin_iff] at h
    revert h
    decide
  refine ⟨hf, hg, hk, htotal, ?_, ?_⟩
  · obtain ⟨b', b'', hb', hb'', hsame⟩ := hvalue k hk _ env htotal
    obtain rfl : true = b' := Except.ok.inj hb'
    rw [hb'', hsame _ _ (Environment.rebinds_update env a true)]
  · have hlimits := (parse_replace _ _ _ _ a (parse_of_read hdeep) (parse_of_read hdeep')).2.1
    exact hlimits.mpr (.inr (by decide +kernel))

end Sentential
