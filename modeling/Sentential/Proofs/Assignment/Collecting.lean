import Mathlib.Logic.Relation
import Sentential.Proofs.Assignment.Bindings

/-!
# Collecting bindings

An assignment that is collected from a list lists each variable once, in ascending order, with the
value that the list binds it to last (`Assignment.BindsLast`, `Assignment.mem_ofList_iff`). As an
assignment is known from its values, collecting its own bindings gives it back
(`Assignment.ofList_toList`).

Two lists can be collected into the same assignment for two reasons only: neighbours that bind
different variables have changed places, or a binding is missing that a later one of its variable
replaces (`Rearrangement`). Such steps lead from every list to the bindings of its assignment, since
inserting a binding is to move it from the end of the list to its place
(`Rearranged.insertBinding`); so lists have the same assignment just if steps lead from one to the
other (`Assignment.ofList_eq_iff`).
-/

namespace Sentential

/-! ### Lists that bind alike -/

/-- What can be done to a list of bindings: neighbours of different variables change places, or a
binding is left out that a later one of its variable replaces. -/
inductive Rearrangement : List (Variable × Bool) → List (Variable × Bool) → Prop
  | swap {v w : Variable} (b c : Bool) (before after : List (Variable × Bool)) : v ≠ w →
      Rearrangement (before ++ (v, b) :: (w, c) :: after) (before ++ (w, c) :: (v, b) :: after)
  | drop (v : Variable) (b c : Bool) (before between after : List (Variable × Bool)) :
      Rearrangement (before ++ (v, b) :: (between ++ (v, c) :: after))
        (before ++ (between ++ (v, c) :: after))

/-- The lists are joined by such steps, in either direction. -/
def Rearranged : List (Variable × Bool) → List (Variable × Bool) → Prop :=
  Relation.EqvGen Rearrangement

variable {l l' l'' m : List (Variable × Bool)} {v : Variable} {b : Bool}

theorem Rearrangement.around (h : Rearrangement l l') (m m' : List (Variable × Bool)) :
    Rearrangement (m ++ l ++ m') (m ++ l' ++ m') := by
  rcases h with ⟨b, c, before, after, hne⟩ | ⟨v, b, c, before, between, after⟩
  · have h := swap b c (m ++ before) (after ++ m') hne
    simpa using h
  · have h := drop v b c (m ++ before) between (after ++ m')
    simpa using h

namespace Rearranged

theorem refl (l : List (Variable × Bool)) : Rearranged l l := Relation.EqvGen.refl l

theorem symm (h : Rearranged l l') : Rearranged l' l := Relation.EqvGen.symm _ _ h

theorem trans (h : Rearranged l l') (h' : Rearranged l' l'') : Rearranged l l'' :=
  Relation.EqvGen.trans _ _ _ h h'

theorem of_step (h : Rearrangement l l') : Rearranged l l' := Relation.EqvGen.rel _ _ h

theorem around (h : Rearranged l l') (m m' : List (Variable × Bool)) :
    Rearranged (m ++ l ++ m') (m ++ l' ++ m') := by
  induction h with
  | rel _ _ h => exact of_step (h.around m m')
  | refl _ => exact refl _
  | symm _ _ _ ih => exact ih.symm
  | trans _ _ _ _ _ ih ih' => exact ih.trans ih'

theorem cons (x : Variable × Bool) (h : Rearranged l l') : Rearranged (x :: l) (x :: l') := by
  simpa using h.around [x] []

theorem append_right (h : Rearranged l l') (m : List (Variable × Bool)) :
    Rearranged (l ++ m) (l' ++ m) := h.around [] m

theorem to_front : ∀ {l : List (Variable × Bool)}, (∀ x ∈ l, x.1 ≠ v) →
    Rearranged (l ++ [(v, b)]) ((v, b) :: l)
  | [], _ => refl _
  | (w, c) :: rest, h => by
    obtain ⟨hne, hrest⟩ := List.forall_mem_cons.mp h
    have hpass : Rearranged ((w, c) :: (v, b) :: rest) ((v, b) :: (w, c) :: rest) :=
      of_step (.swap c b [] rest hne)
    exact ((to_front hrest).cons (w, c)).trans hpass

/-- **To insert a binding is to move it from the end to its place**, where it replaces one of its
variable. -/
theorem insertBinding (v : Variable) (b : Bool) : ∀ {l : List (Variable × Bool)},
    l.Pairwise (·.1 < ·.1) → Rearranged (l ++ [(v, b)]) (Assignment.insertBinding v b l)
  | [], _ => refl _
  | (w, c) :: rest, h => by
    obtain ⟨hw, hrest⟩ := List.pairwise_cons.mp h
    have hne_of_lt {x : Variable × Bool} (hx : v < x.1) : x.1 ≠ v := by
      intro he
      exact Variable.lt_irrefl v (he ▸ hx)
    rw [Assignment.insertBinding]
    split
    · next hv =>
      refine to_front fun x hx => hne_of_lt ?_
      rcases List.mem_cons.mp hx with rfl | hx
      · exact hv
      · exact Variable.lt_trans hv (hw x hx)
    · split
      · next he =>
        subst he
        have hdrop : Rearranged ((v, c) :: (rest ++ [(v, b)])) (rest ++ [(v, b)]) :=
          of_step (.drop v c b [] rest [])
        exact hdrop.trans (to_front fun x hx => hne_of_lt (hw x hx))
      · exact (insertBinding v b hrest).cons (w, c)

end Rearranged

namespace Assignment

variable {a : Assignment}

/-! ### What is bound last -/

/-- The list binds the variable to the value and does not bind it again later. -/
def BindsLast (bindings : List (Variable × Bool)) (v : Variable) (b : Bool) : Prop :=
  ∃ before after, bindings = before ++ (v, b) :: after ∧ ∀ x ∈ after, x.1 ≠ v

theorem lastValue?_eq_some_iff : lastValue? l v = some b ↔ BindsLast l v b := by
  unfold lastValue? BindsLast
  rw [List.lookup_eq_some_iff]
  constructor
  · rintro ⟨after, before, he, hafter⟩
    refine ⟨before.reverse, after.reverse, ?_, fun x hx => ?_⟩
    · simpa using congrArg List.reverse he
    · exact (bne_iff_ne.mp (hafter x (List.mem_reverse.mp hx))).symm
  · rintro ⟨before, after, rfl, hafter⟩
    refine ⟨after.reverse, before.reverse, by simp, fun x hx => ?_⟩
    exact bne_iff_ne.mpr (hafter x (List.mem_reverse.mp hx)).symm

theorem bindsLast_iff_mem (h : l.Pairwise (·.1 < ·.1)) : BindsLast l v b ↔ (v, b) ∈ l := by
  constructor
  · rintro ⟨before, after, rfl, -⟩
    simp
  · intro hm
    obtain ⟨before, after, rfl⟩ := List.append_of_mem hm
    refine ⟨before, after, rfl, fun x hx he => ?_⟩
    obtain ⟨-, hafter, -⟩ := List.pairwise_append.mp h
    have hlt : v < x.1 := (List.pairwise_cons.mp hafter).1 x hx
    exact Variable.lt_irrefl v (he ▸ hlt)

theorem mem_ofList_iff : (v, b) ∈ (ofList l).toList ↔ BindsLast l v b := by
  rw [toList, mem_bindings_iff, get?_ofList, lastValue?_eq_some_iff]

theorem binds_ofList (l : List (Variable × Bool)) : (ofList l).Binds (l.map (·.1)) := by
  intro v
  rw [get?_ofList, lastValue?, List.lookup_isSome_iff]
  simp

theorem map_fst_ofList (l : List (Variable × Bool)) :
    (ofList l).toList.map (·.1) = Variable.ascending (l.map (·.1)) :=
  (binds_ofList l).map_fst_ascending

theorem ofList_toList (a : Assignment) : ofList a.toList = a := by
  refine ext_get? fun v => Option.ext fun b => ?_
  have hlast : BindsLast a.toList v b ↔ (v, b) ∈ a.toList := bindsLast_iff_mem a.ascending
  rw [get?_ofList, lastValue?_eq_some_iff, hlast]
  exact mem_bindings_iff

theorem eq_iff_get? {a b : Assignment} : a = b ↔ ∀ v, a.get? v = b.get? v := by
  constructor
  · rintro rfl v
    rfl
  · exact ext_get?

/-! ### Lists with the same assignment -/

theorem lastValue?_append : lastValue? (l ++ m) v = (lastValue? m v).or (lastValue? l v) := by
  unfold lastValue?
  rw [List.reverse_append, List.lookup_append]

theorem lastValue?_cons (x : Variable × Bool) :
    lastValue? (x :: l) v = (lastValue? l v).or (if v = x.1 then some x.2 else none) := by
  have hone : lastValue? [x] v = if v = x.1 then some x.2 else none :=
    lookup_cons_ite x.1 x.2 [] v
  rw [← List.singleton_append, lastValue?_append, hone]

theorem lastValue?_swap {w : Variable} (b c : Bool) (after : List (Variable × Bool)) (hne : v ≠ w)
    (x : Variable) :
    lastValue? ((v, b) :: (w, c) :: after) x = lastValue? ((w, c) :: (v, b) :: after) x := by
  simp only [lastValue?_cons, Option.or_assoc]
  by_cases hv : x = v
  · have hw : x ≠ w := fun hw => hne (hv.symm.trans hw)
    rw [if_pos hv, if_neg hw, Option.none_or, Option.or_none]
  · rw [if_neg hv, Option.none_or, Option.or_none]

theorem ofList_eq_of_step (h : Rearrangement l l') : ofList l = ofList l' := by
  refine ext_get? fun x => ?_
  rw [get?_ofList, get?_ofList]
  rcases h with ⟨b, c, before, after, hne⟩ | ⟨v, b, c, before, between, after⟩
  · rw [lastValue?_append, lastValue?_append, lastValue?_swap b c after hne]
  · -- if `x` is the variable of the binding that is left out, the later one has its value
    simp only [lastValue?_append, lastValue?_cons, Option.or_assoc]
    split_ifs <;> simp

theorem ofList_eq_of_rearranged (h : Rearranged l l') : ofList l = ofList l' := by
  induction h with
  | rel _ _ h => exact ofList_eq_of_step h
  | refl _ => rfl
  | symm _ _ _ ih => exact ih.symm
  | trans _ _ _ _ _ ih ih' => exact ih.trans ih'

theorem rearranged_toList (l : List (Variable × Bool)) : Rearranged l (ofList l).toList := by
  induction l using List.reverseRecOn with
  | nil => exact .refl _
  | append_singleton l x ih =>
    rw [ofList_append_singleton]
    exact (ih.append_right [x]).trans (.insertBinding x.1 x.2 (ofList l).ascending)

/-- **Lists have the same assignment just if steps lead from one to the other.** -/
theorem ofList_eq_iff : ofList l = ofList l' ↔ Rearranged l l' := by
  constructor
  · intro h
    have hl := rearranged_toList l
    rw [h] at hl
    exact hl.trans (rearranged_toList l').symm
  · exact ofList_eq_of_rearranged

/-! ### Asking for a value -/

theorem get_eq_ok_iff : a.get v = .ok b ↔ a.get? v = some b := by
  unfold get
  split <;> simp [*]

theorem get_eq_error_iff {m : Misuse} :
    a.get v = .error m ↔ a.get? v = none ∧ m = .unbound v := by
  unfold get
  split <;> simp [*, eq_comm]

/-- **Assignments are finite maps, listed in one way only.** What is collected from a list of
bindings has each of its variables once, in ascending order, with the value that comes last. A value
that is asked for in either way is the one that is found, and a variable without one is named.
Collecting the bindings of an assignment gives it back; equal assignments are those with the same
values; and lists are collected into equal assignments just if they differ by the order of bindings
of different variables and by bindings that are replaced later. -/
theorem ofList_canonical :
    (∀ l : List (Variable × Bool),
      ((ofList l).toList.map (·.1)).Pairwise (· < ·) ∧
      (ofList l).toList.map (·.1) = Variable.ascending (l.map (·.1)) ∧
      ∀ v b, ((v, b) ∈ (ofList l).toList ↔ BindsLast l v b) ∧
        ((ofList l).get? v = some b ↔ BindsLast l v b)) ∧
    (∀ (a : Assignment) (v : Variable),
      a.get v = Environment.value a v ∧
      (∀ b, a.get v = .ok b ↔ a.get? v = some b) ∧
      ((∃ m, a.get v = .error m ∧ m.message = s!"Variable {v} is not bound") ↔ a.get? v = none)) ∧
    (∀ a : Assignment, ofList a.toList = a) ∧
    (∀ a b : Assignment, a = b ↔ ∀ v, a.get? v = b.get? v) ∧
    ∀ l l' : List (Variable × Bool), ofList l = ofList l' ↔ Rearranged l l' := by
  refine ⟨fun l => ⟨?_, map_fst_ofList l, fun v b => ⟨mem_ofList_iff, ?_⟩⟩,
    fun a v => ⟨rfl, fun b => get_eq_ok_iff, ?_⟩, ofList_toList, fun a b => eq_iff_get?,
    fun l l' => ofList_eq_iff⟩
  · rw [map_fst_ofList]
    exact Variable.pairwise_ascending _
  · rw [get?_ofList, lastValue?_eq_some_iff]
  · simp only [get_eq_error_iff]
    constructor
    · rintro ⟨m, ⟨h, -⟩, -⟩
      exact h
    · intro h
      exact ⟨_, ⟨h, rfl⟩, rfl⟩

end Assignment

end Sentential
