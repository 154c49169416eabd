import Sentential.Misuse

/-!
# Alphabets

An alphabet is a range of uppercase letters: those that a text may use as variables.
-/

namespace Sentential

/-- The letters from `first` to `last`, both included. -/
structure Alphabet where
  first : Variable
  last : Variable
  nonempty : ¬ last < first
deriving DecidableEq

namespace Alphabet

/-- Every uppercase letter. -/
def full : Alphabet := ⟨⟨'A', rfl⟩, ⟨'Z', rfl⟩, by decide⟩

/-- The four letters from A to D. -/
def classic : Alphabet := ⟨⟨'A', rfl⟩, ⟨'D', rfl⟩, by decide⟩

instance : Inhabited Alphabet := ⟨full⟩

/-- The alphabet with these bounds. Both have to be letters before their order is looked at. -/
def ofBounds (first last : Char) : Except Misuse Alphabet :=
  match Variable.ofChar? first, Variable.ofChar? last with
  | some v, some w => if h : w < v then .error (.emptyAlphabet v w) else .ok ⟨v, w, h⟩
  | _, _ => .error .badBounds

/-- The character is a letter of the alphabet. -/
def contains (a : Alphabet) (c : Char) : Bool :=
  decide (a.first.name ≤ c ∧ c ≤ a.last.name)

theorem contains_iff {a : Alphabet} {c : Char} :
    a.contains c = true ↔ a.first.name.toNat ≤ c.toNat ∧ c.toNat ≤ a.last.name.toNat := by
  rw [contains, decide_eq_true_eq, Char.le_def, Char.le_def, UInt32.le_iff_toNat_le,
    UInt32.le_iff_toNat_le]
  exact Iff.rfl

theorem isUpper_of_contains {a : Alphabet} {c : Char} (h : a.contains c = true) :
    c.isUpper = true := by
  have h₁ := Text.isUpper_iff.mp a.first.isUpper
  have h₂ := Text.isUpper_iff.mp a.last.isUpper
  obtain ⟨h₃, h₄⟩ := contains_iff.mp h
  exact Text.isUpper_iff.mpr ⟨by omega, by omega⟩

/-- The variable named by the character, when it is a letter of the alphabet. -/
def letter? (a : Alphabet) (c : Char) : Option Variable :=
  if h : a.contains c = true then some ⟨c, isUpper_of_contains h⟩ else none

theorem letter?_eq_some_iff {a : Alphabet} {c : Char} {v : Variable} :
    a.letter? c = some v ↔ a.contains c = true ∧ v.name = c := by
  unfold letter?
  split
  · next h =>
    simp only [h, Option.some.injEq, true_and]
    exact ⟨fun e => by rw [← e], fun e => Variable.ext_name e.symm⟩
  · next h => simp [h]

theorem letter?_eq_none_iff {a : Alphabet} {c : Char} :
    a.letter? c = none ↔ a.contains c = false := by
  simp [letter?]

theorem contains_full {c : Char} : full.contains c = c.isUpper := by
  rw [Bool.eq_iff_iff, contains_iff, Text.isUpper_iff]
  exact Iff.rfl

end Alphabet

end Sentential
