import Sentential.Alphabet

/-!
# Options

Which letters a text may use as variables, and how many different ones.
-/

namespace Sentential

/-- What a text has to keep to. -/
structure Options where
  alphabet : Alphabet := .full
  limit : Nat := maxVariables
deriving DecidableEq

namespace Options

/-- Every letter, and as many variables as a table can have. -/
def standard : Options := {}

/-- The letters from A to D. -/
def classic : Options := { alphabet := .classic }

instance : Inhabited Options := ⟨standard⟩

/-- The options with this alphabet and this limit, which has to be one that a table can use. -/
def ofLimit (a : Alphabet) (limit : Nat) : Except Misuse Options :=
  if limit = 0 then .error .zeroLimit
  else if maxVariables < limit then .error (.largeLimit limit)
  else .ok ⟨a, limit⟩

/-- How many variables a text may have: never more than a table can have, whatever the limit. -/
def maxVariables (o : Options) : Nat := min o.limit Sentential.maxVariables

theorem ofLimit_eq_ok_iff {a : Alphabet} {limit : Nat} {o : Options} :
    ofLimit a limit = .ok o ↔ 0 < limit ∧ limit ≤ Sentential.maxVariables ∧ o = ⟨a, limit⟩ := by
  unfold ofLimit
  constructor
  · intro h
    split at h
    · cases h
    · next hzero =>
      split at h
      · cases h
      · next hlarge =>
        exact ⟨Nat.pos_of_ne_zero hzero, Nat.not_lt.mp hlarge, (Except.ok.inj h).symm⟩
  · rintro ⟨hpos, hle, rfl⟩
    rw [if_neg (Nat.ne_of_gt hpos), if_neg (Nat.not_lt.mpr hle)]

end Options

end Sentential
