import Sentential.Formula.Basic
import Sentential.Limits
import Sentential.Rejection

/-!
# Reading a formula off a list of tokens

A formula is a chain of operands, joined by the connectives of the ladder: the loosest connective
joins formulas of the next rung, and so on down to the operands proper. A chain is folded to the
left. An operand is a variable, a negated operand or a formula in parentheses.

A `Rule` reads one formula from the front of the tokens. It succeeds with the formula, its depth and
the tokens that are left, or it gets stuck, with the cause, the tokens from the place where it
stopped and the number of `(` and `∼` that it had opened and not finished. A rule that succeeds has
consumed a token, which is why chains end. `operand` has a budget for the nesting of `(` and `∼`;
one more of them than the budget allows is refused as soon as it is read.
-/

namespace Sentential

/-- What a rule makes of a list of tokens. -/
inductive Reading
  | read (f : Formula) (depth : Nat) (rest : List Token)
  | stuck (cause : ParseError) (opened : Nat) (rest : List Token)
deriving DecidableEq

/-- A way to read one formula from the front of a list of tokens. -/
structure Rule where
  run : List Token → Reading
  consumes : ∀ {ts f d rest}, run ts = .read f d rest → rest.length < ts.length

namespace Reading

/-- The refusal of what is nested, or grows, too deep. -/
def tooDeep (opened : Nat) (rest : List Token) : Reading :=
  .stuck (.tooDeep maxDepth) opened rest

/-- The formula `f` with `d` as its depth, if it is not too deep. -/
def bounded (f : Formula) (d : Nat) (rest : List Token) : Reading :=
  if d ≤ maxDepth then .read f d rest else tooDeep 0 rest

theorem bounded_eq_read_iff {f g : Formula} {d e : Nat} {ts rest : List Token} :
    bounded f d ts = .read g e rest ↔ d ≤ maxDepth ∧ f = g ∧ d = e ∧ ts = rest := by
  unfold bounded
  split <;> simp [tooDeep, *]

/-- What follows a `∼`, taken together with it. -/
def negated : Reading → Reading
  | read f d rest => bounded (.not f) (d + 1) rest
  | stuck cause opened rest => stuck cause (opened + 1) rest

/-- What follows a `(`, taken together with it and with the `)` that has to come next. -/
def closed : Reading → Reading
  | read f d (.rparen :: rest) => read f d rest
  | read _ _ (t :: rest) => stuck (.expected .rparen t) 1 (t :: rest)
  | read _ _ [] => stuck .unclosed 1 []
  | stuck cause opened rest => stuck cause (opened + 1) rest

theorem negated_eq_read_iff {r : Reading} {g : Formula} {e : Nat} {rest : List Token} :
    r.negated = .read g e rest ↔
      ∃ f d, r = .read f d rest ∧ d + 1 ≤ maxDepth ∧ g = .not f ∧ e = d + 1 := by
  cases r with
  | read f d ts =>
    simp only [negated, bounded_eq_read_iff, read.injEq]
    constructor
    · rintro ⟨h, rfl, rfl, rfl⟩; exact ⟨f, d, ⟨rfl, rfl, rfl⟩, h, rfl, rfl⟩
    · rintro ⟨f', d', ⟨rfl, rfl, rfl⟩, h, rfl, rfl⟩; exact ⟨h, rfl, rfl, rfl⟩
  | stuck => simp [negated]

theorem closed_eq_read_iff {r : Reading} {f : Formula} {d : Nat} {rest : List Token} :
    r.closed = .read f d rest ↔ r = .read f d (.rparen :: rest) := by
  fun_cases closed r with
  | case1 => simp
  | case2 _ _ t _ ht =>
    simp only [reduceCtorEq, read.injEq, List.cons.injEq, false_iff]
    exact fun h => ht h.2.2.1
  | case3 => simp
  | case4 => simp

end Reading

namespace Rule

/-! ### Chains -/

/-- Reads the links of a chain that so far is `f`, of depth `d`. -/
def links (operand : Rule) (c : Connective) (f : Formula) (d : Nat) (ts : List Token) : Reading :=
  match ts with
  | .op c' :: rest =>
    if c' = c then
      match h : operand.run rest with
      | .read g e rest' =>
        if max d e + 1 ≤ maxDepth then links operand c (.binary c f g) (max d e + 1) rest'
        else .tooDeep 0 rest'
      | .stuck cause opened rest' => .stuck cause opened rest'
    else .read f d ts
  | _ => .read f d ts
termination_by ts.length
decreasing_by
  have := operand.consumes h
  simp only [List.length_cons]
  omega

theorem length_le_of_links {operand : Rule} {c : Connective} {f g : Formula} {d e : Nat}
    {ts rest : List Token} (h : links operand c f d ts = .read g e rest) :
    rest.length ≤ ts.length := by
  fun_induction links operand c f d ts with
  | case1 f d ts g' e' ts' hr hd ih =>
    have := operand.consumes hr
    have := ih h
    simp only [List.length_cons]
    omega
  | case2 => simp [Reading.tooDeep] at h
  | case3 => simp at h
  | case4 => cases h; exact Nat.le_refl _
  | case5 => cases h; exact Nat.le_refl _

/-- One or more operands, joined by the connective. -/
def chain (operand : Rule) (c : Connective) : Rule where
  run ts :=
    match operand.run ts with
    | .read f d rest => links operand c f d rest
    | .stuck cause opened rest => .stuck cause opened rest
  consumes {ts f d rest} h := by
    split at h
    · next hr => exact Nat.lt_of_le_of_lt (length_le_of_links h) (operand.consumes hr)
    · cases h

/-- Operands joined by these connectives, the loosest one first. -/
def joined (operand : Rule) (cs : List Connective) : Rule :=
  cs.foldr (fun c rule => rule.chain c) operand

/-! ### Operands -/

/-- Reads one operand, where `inner` reads the operands that stand under one more `(` or `∼`; there
is no such rule where nothing may stand. -/
def operandWith (inner : Option Rule) : List Token → Reading
  | [] => .stuck .incomplete 0 []
  | .var v :: ts => .read (.var v) 0 ts
  | .not :: ts =>
    match inner with
    | none => .tooDeep 1 ts
    | some rule => (rule.run ts).negated
  | .lparen :: ts =>
    match inner with
    | none => .tooDeep 1 ts
    | some rule => ((rule.joined Connective.ladder).run ts).closed
  | t :: ts => .stuck (.unexpected t) 0 (t :: ts)

theorem length_lt_of_operandWith {inner : Option Rule} {ts rest : List Token} {f : Formula}
    {d : Nat} (h : operandWith inner ts = .read f d rest) : rest.length < ts.length := by
  fun_cases operandWith inner ts with
  | case1 => cases h
  | case2 => cases h; simp
  | case3 => cases h
  | case4 ts rule =>
    obtain ⟨f', d', hr, -⟩ := Reading.negated_eq_read_iff.mp h
    have := rule.consumes hr
    simp only [List.length_cons]
    omega
  | case5 => cases h
  | case6 ts rule =>
    have := (rule.joined Connective.ladder).consumes (Reading.closed_eq_read_iff.mp h)
    simp only [List.length_cons] at this ⊢
    omega
  | case7 t ts h₁ h₂ h₃ => rw [operandWith] at h <;> simp_all

/-- Reads one operand in which `(` and `∼` nest at most `budget` deep. -/
def operand : (budget : Nat) → Rule
  | 0 => ⟨operandWith none, length_lt_of_operandWith⟩
  | budget + 1 => ⟨operandWith (some (operand budget)), length_lt_of_operandWith⟩

/-- Reads a formula of the lower rungs: operands joined by the connectives from rung `level` of the
ladder on. -/
def rung (budget level : Nat) : Rule :=
  (operand budget).joined (Connective.ladder.drop level)

/-- Reads a formula in which `(` and `∼` nest at most `budget` deep. -/
def formula (budget : Nat) : Rule := rung budget 0

end Rule

end Sentential
