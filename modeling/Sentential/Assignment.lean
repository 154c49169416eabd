import Sentential.Formula.Value

/-!
# Assignments

An assignment gives values to finitely many variables. It is a list of bindings in ascending order
of the variables, so two assignments with the same values are equal.

`Assignment.ofIndex` numbers the assignments to a list of variables: the index is read in binary,
the first variable takes its highest digit and the last one its lowest.
-/

namespace Sentential

/-- Finitely many variables with their values, in ascending order. -/
structure Assignment where
  bindings : List (Variable × Bool)
  ascending : bindings.Pairwise (·.1 < ·.1)
deriving DecidableEq

namespace Assignment

/-- Puts a binding in its place among bindings in ascending order; it replaces one of the same
variable. -/
def insertBinding (v : Variable) (b : Bool) : List (Variable × Bool) → List (Variable × Bool)
  | [] => [(v, b)]
  | (w, c) :: rest =>
    if v < w then (v, b) :: (w, c) :: rest
    else if v = w then (v, b) :: rest
    else (w, c) :: insertBinding v b rest

theorem fst_mem_insertBinding {v : Variable} {b : Bool} {x : Variable × Bool} :
    ∀ {l : List (Variable × Bool)}, x ∈ insertBinding v b l → x.1 = v ∨ x ∈ l
  | [], h => by simp_all [insertBinding]
  | (w, c) :: rest, h => by
    rw [insertBinding] at h
    split at h
    · rcases List.mem_cons.mp h with rfl | h
      · exact .inl rfl
      · exact .inr h
    · split at h
      · rcases List.mem_cons.mp h with rfl | h
        · exact .inl rfl
        · exact .inr (List.mem_cons_of_mem _ h)
      · rcases List.mem_cons.mp h with rfl | h
        · exact .inr (List.mem_cons_self ..)
        · exact (fst_mem_insertBinding h).imp_right (List.mem_cons_of_mem _)

theorem pairwise_insertBinding (v : Variable) (b : Bool) :
    ∀ {l : List (Variable × Bool)}, l.Pairwise (·.1 < ·.1) →
      (insertBinding v b l).Pairwise (·.1 < ·.1)
  | [], _ => by simp [insertBinding]
  | (w, c) :: rest, h => by
    obtain ⟨hw, hrest⟩ := List.pairwise_cons.mp h
    rw [insertBinding]
    split
    · next hv =>
      refine List.pairwise_cons.mpr ⟨fun x hx => ?_, h⟩
      rcases List.mem_cons.mp hx with rfl | hx
      · exact hv
      · exact Variable.lt_trans hv (hw x hx)
    · next hv =>
      split
      · next he =>
        subst he
        exact List.pairwise_cons.mpr ⟨hw, hrest⟩
      · next hne =>
        refine List.pairwise_cons.mpr ⟨fun x hx => ?_, pairwise_insertBinding v b hrest⟩
        rcases fst_mem_insertBinding hx with he | hx
        · rw [he]
          exact Decidable.byContradiction fun hw' => hne (Variable.eq_of_not_lt hv hw')
        · exact hw x hx

theorem lookup_cons_ite (w : Variable) (c : Bool) (rest : List (Variable × Bool)) (x : Variable) :
    ((w, c) :: rest).lookup x = if x = w then some c else rest.lookup x := by
  by_cases h : x = w
  · simp [h]
  · rw [List.lookup_cons, beq_eq_false_iff_ne.mpr h, if_neg h]

theorem lookup_insertBinding (v : Variable) (b : Bool) (x : Variable) :
    ∀ l : List (Variable × Bool),
      (insertBinding v b l).lookup x = if x = v then some b else l.lookup x
  | [] => lookup_cons_ite v b [] x
  | (w, c) :: rest => by
    rw [insertBinding]
    split
    · rw [lookup_cons_ite]
    · split
      · next he =>
        subst he
        rw [lookup_cons_ite, lookup_cons_ite]
        split <;> rfl
      · next hne =>
        rw [lookup_cons_ite, lookup_cons_ite, lookup_insertBinding v b x rest]
        split
        · next hw => rw [if_neg fun hv => hne (hv.symm.trans hw)]
        · rfl

/-- The assignment that binds nothing. -/
def empty : Assignment := ⟨[], .nil⟩

instance : Inhabited Assignment := ⟨empty⟩

/-- Binds a variable, or gives it another value. -/
def insert (a : Assignment) (v : Variable) (b : Bool) : Assignment :=
  ⟨insertBinding v b a.bindings, pairwise_insertBinding v b a.ascending⟩

/-- The assignment with these bindings; of two bindings of one variable the later one counts. -/
def ofList (bindings : List (Variable × Bool)) : Assignment :=
  bindings.foldl (fun a x => a.insert x.1 x.2) empty

/-- The bindings in ascending order of the variables. -/
def toList (a : Assignment) : List (Variable × Bool) := a.bindings

/-- The value of a variable, if it has one. -/
def get? (a : Assignment) (v : Variable) : Option Bool := a.bindings.lookup v

instance : Environment Assignment := ⟨get?⟩

/-- The value of a variable that has to have one. -/
def get (a : Assignment) (v : Variable) : Except Misuse Bool :=
  match a.get? v with
  | some b => .ok b
  | none => .error (.unbound v)

@[simp]
theorem get?_insert (a : Assignment) (v x : Variable) (b : Bool) :
    (a.insert v b).get? x = if x = v then some b else a.get? x :=
  lookup_insertBinding v b x a.bindings

/-- The assignment of that index to the variables. -/
def ofIndex (vs : List Variable) (index : Nat) : Except Misuse Assignment :=
  let n := vs.length
  if maxVariables < n then .error (.wideRow n)
  else if rowCount n ≤ index then .error (.noSuchRow index n)
  else .ok (ofList (vs.zipIdx.map fun (v, k) => (v, index.testBit (n - 1 - k))))

end Assignment

end Sentential
