/-!
# Variables

A propositional variable is named by one uppercase letter, and variables are ordered as their
letters are. `Variable.ascending` puts the variables of a list in order and keeps each of them once
(`pairwise_ascending`, `mem_ascending`).
-/

namespace Sentential

/-- A propositional variable: an uppercase letter of the Latin alphabet. -/
structure Variable where
  name : Char
  isUpper : name.isUpper = true
deriving DecidableEq

namespace Variable

instance : Repr Variable := ⟨fun v _ => repr v.name⟩

instance : ToString Variable := ⟨fun v => v.name.toString⟩

instance : Hashable Variable := ⟨fun v => hash v.name.toNat⟩

instance : Ord Variable := ⟨fun v w => compare v.name w.name⟩

instance : LT Variable := ⟨fun v w => v.name < w.name⟩

instance : DecidableLT Variable := fun v w => inferInstanceAs (Decidable (v.name < w.name))

/-- The variable of that name, when the name is an uppercase letter. -/
def ofChar? (c : Char) : Option Variable :=
  if h : c.isUpper = true then some ⟨c, h⟩ else none

theorem ext_name {v w : Variable} (h : v.name = w.name) : v = w := by
  cases v; cases w; cases h; rfl

theorem name_ne (v : Variable) {c : Char} (hc : c.isUpper = false) : v.name ≠ c := by
  rintro rfl
  exact absurd v.isUpper (Bool.eq_false_iff.mp hc)

theorem lt_irrefl (v : Variable) : ¬ v < v := Char.lt_irrefl v.name

theorem lt_trans {u v w : Variable} (h : u < v) (h' : v < w) : u < w := Char.lt_trans h h'

theorem lt_asymm {v w : Variable} (h : v < w) : ¬ w < v := fun h' => lt_irrefl v (lt_trans h h')

theorem eq_of_not_lt {v w : Variable} (h : ¬ v < w) (h' : ¬ w < v) : v = w :=
  ext_name (Char.le_antisymm (Char.not_lt.mp h') (Char.not_lt.mp h))

/-! ### Lists in ascending order -/

/-- Puts a variable in its place in an ascending list, unless it is there already. -/
def insert (v : Variable) : List Variable → List Variable
  | [] => [v]
  | w :: ws => if v < w then v :: w :: ws else if v = w then w :: ws else w :: insert v ws

/-- The variables of the list in ascending order, each of them once. -/
def ascending (vs : List Variable) : List Variable := vs.foldr insert []

/-- The variables of the list in ascending order, each as often as the list has it. -/
def sorted (vs : List Variable) : List Variable := vs.mergeSort fun v w => decide (¬ w < v)

theorem mem_insert {v x : Variable} {ws : List Variable} : x ∈ insert v ws ↔ x = v ∨ x ∈ ws := by
  induction ws with
  | nil => simp [insert]
  | cons w ws ih =>
    rw [insert]
    split
    · simp
    · split
      · next h => subst h; simp
      · simp only [List.mem_cons, ih]
        constructor
        · rintro (h | h | h) <;> simp [h]
        · rintro (h | h | h) <;> simp [h]

theorem pairwise_insert {v : Variable} {ws : List Variable} (h : ws.Pairwise (· < ·)) :
    (insert v ws).Pairwise (· < ·) := by
  induction ws with
  | nil => simp [insert]
  | cons w ws ih =>
    obtain ⟨hw, hws⟩ := List.pairwise_cons.mp h
    rw [insert]
    split
    · next hv =>
      refine List.pairwise_cons.mpr ⟨fun x hx => ?_, h⟩
      rcases List.mem_cons.mp hx with rfl | hx
      · exact hv
      · exact lt_trans hv (hw x hx)
    · next hv =>
      split
      · exact h
      · next hne =>
        refine List.pairwise_cons.mpr ⟨fun x hx => ?_, ih hws⟩
        rcases mem_insert.mp hx with rfl | hx
        · exact Decidable.byContradiction fun hw' => hne (eq_of_not_lt hv hw')
        · exact hw x hx

@[simp]
theorem mem_ascending {x : Variable} {vs : List Variable} : x ∈ ascending vs ↔ x ∈ vs := by
  induction vs with
  | nil => simp [ascending]
  | cons v vs ih =>
    simp only [ascending, List.foldr_cons, mem_insert, List.mem_cons] at ih ⊢
    rw [ih]

theorem pairwise_ascending (vs : List Variable) : (ascending vs).Pairwise (· < ·) := by
  induction vs with
  | nil => simp [ascending]
  | cons v vs ih => exact pairwise_insert ih

theorem nodup_of_pairwise {vs : List Variable} (h : vs.Pairwise (· < ·)) : vs.Nodup := by
  refine h.imp ?_
  rintro v _ hlt rfl
  exact lt_irrefl v hlt

theorem nodup_ascending (vs : List Variable) : (ascending vs).Nodup :=
  nodup_of_pairwise (pairwise_ascending vs)

end Variable

end Sentential
