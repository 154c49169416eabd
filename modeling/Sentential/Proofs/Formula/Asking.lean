import Sentential.Assignment

/-!
# What evaluation asks for

Apart from its result, evaluation does what it takes to ask for each leaf in turn, from left to
right, and nothing else (`Formula.evalM_effect`). This holds in whatever monad the questions are
answered. So whoever answers is asked for the leaves, each as often as it occurs, and no answer
makes a difference to the questions that follow (`Formula.asked_evalM`). And where some variables
have no value, the first leaf without one is reported (`Formula.evalIn_eq_error_iff`), even if the
operands before it settle the value.
-/

namespace Sentential

/-- The variable is the first one of the list without a value. -/
def Environment.FirstUnbound {ε : Type} [Environment ε] (values : ε) (vs : List Variable)
    (v : Variable) : Prop :=
  ∃ before after, vs = before ++ v :: after ∧ value? values v = none ∧
    ∀ w ∈ before, (value? values w).isSome = true

namespace Formula

/-- **Evaluation asks for each leaf** and does nothing else besides. -/
theorem evalM_effect {μ : Type → Type} [Monad μ] [LawfulMonad μ] (ask : Variable → μ Bool)
    (f : Formula) :
    (fun _ => ()) <$> f.evalM ask = forM f.leaves fun v => (fun _ => ()) <$> ask v := by
  induction f with
  | var v => simp [evalM, leaves]
  | not f ih => simp [evalM, leaves, ← ih]
  | binary c l r ihl ihr => simp [evalM, leaves, ← ihl, ← ihr]

/-! ### Questions that are noted -/

/-- Answers from all that was asked before, and notes the question, the last one in front. -/
def askRecalling (answer : List Variable → Variable → Bool) (v : Variable) :
    StateM (List Variable) Bool := do
  let asked ← get
  set (v :: asked)
  return answer asked v

variable {answer : List Variable → Variable → Bool} {f : Formula}

/-- A valuation answers without recalling what was asked before. -/
theorem ask_eq (env : Variable → Bool) : ask env = askRecalling fun _ => env := rfl

theorem forM_askRecalling (vs asked : List Variable) :
    (forM vs fun v => (fun _ => ()) <$> askRecalling answer v).run asked =
      ((), vs.reverse ++ asked) := by
  induction vs generalizing asked with
  | nil => rfl
  | cons v vs ih =>
    rw [List.forM_cons, List.reverse_cons, List.append_assoc]
    exact ih (v :: asked)

theorem asked_evalM (answer : List Variable → Variable → Bool) (f : Formula) :
    ((f.evalM (askRecalling answer)).run []).2.reverse = f.leaves := by
  have heffect := congrArg (fun x : StateM (List Variable) Unit => (x.run []).2)
    (evalM_effect (askRecalling answer) f)
  have hasked : ((f.evalM (askRecalling answer)).run []).2 = f.leaves.reverse ++ [] :=
    heffect.trans (congrArg Prod.snd (forM_askRecalling f.leaves []))
  rw [hasked, List.append_nil, List.reverse_reverse]

theorem asked_evalAsking (env : Variable → Bool) (f : Formula) :
    (f.evalAsking env).2 = f.leaves := by
  unfold evalAsking
  rw [ask_eq]
  exact asked_evalM (fun _ => env) f

/-! ### Variables without values -/

variable {ε : Type} [Environment ε] {values : ε} {m : Misuse}

theorem forM_value (vs : List Variable) :
    (forM vs fun v => (fun _ => ()) <$> Environment.value values v) =
      match vs.find? fun v => (Environment.value? values v).isNone with
      | some v => .error (.unbound v)
      | none => .ok () := by
  induction vs with
  | nil => rfl
  | cons v vs ih =>
    rw [List.forM_cons, ih, List.find?_cons]
    cases h : Environment.value? values v with
    | none =>
      simp only [Environment.value, h]
      rfl
    | some b =>
      simp only [Environment.value, h]
      rfl

theorem firstUnbound_iff {vs : List Variable} {v : Variable} :
    Environment.FirstUnbound values vs v ↔
      vs.find? (fun v => (Environment.value? values v).isNone) = some v := by
  rw [List.find?_eq_some_iff_append]
  simp only [Environment.FirstUnbound, Option.isNone_iff_eq_none, Bool.not_eq_true',
    Option.isNone_eq_false_iff]
  constructor
  · rintro ⟨before, after, hvs, hv, hbefore⟩
    exact ⟨hv, before, after, hvs, hbefore⟩
  · rintro ⟨hv, before, after, hvs, hbefore⟩
    exact ⟨before, after, hvs, hv, hbefore⟩

/-- **The first leaf without a value is reported.** -/
theorem evalIn_eq_error_iff :
    f.evalIn values = .error m ↔
      ∃ v, m = .unbound v ∧ Environment.FirstUnbound values f.leaves v := by
  have heffect : (fun _ => ()) <$> f.evalIn values = _ :=
    (evalM_effect (Environment.value values) f).trans (forM_value f.leaves)
  have herror : f.evalIn values = .error m ↔ (fun _ => ()) <$> f.evalIn values = .error m := by
    cases f.evalIn values with
    | error _ => simp [Functor.map, Except.map]
    | ok _ => simp [Functor.map, Except.map]
  rw [herror, heffect]
  simp only [firstUnbound_iff]
  cases f.leaves.find? fun v => (Environment.value? values v).isNone with
  | none => simp
  | some v => simp [eq_comm]

theorem exists_evalIn_eq_error_iff :
    (∃ m, f.evalIn values = .error m) ↔ ∃ v ∈ f.vars, Environment.value? values v = none := by
  simp only [evalIn_eq_error_iff, firstUnbound_iff, mem_vars]
  constructor
  · rintro ⟨_, v, -, hv⟩
    exact ⟨v, List.mem_of_find?_eq_some hv, by simpa using List.find?_some hv⟩
  · rintro ⟨v, hv, hnone⟩
    have hsome := (List.find?_isSome (p := fun v => (Environment.value? values v).isNone)).mpr
      ⟨v, hv, Option.isNone_iff_eq_none.mpr hnone⟩
    obtain ⟨w, hw⟩ := Option.isSome_iff_exists.mp hsome
    exact ⟨_, w, rfl, hw⟩

/-- **Evaluation asks for every leaf once**, from left to right, and it never stops early. Whatever
is answered, and even if answers depend on earlier questions, the questions are the leaves in their
order. So in an environment evaluation fails just if some variable of the formula has no value, and
then the leftmost leaf without one is named. -/
theorem asks_each_leaf :
    (∀ (f : Formula) (answer : List Variable → Variable → Bool),
      ((f.evalM (askRecalling answer)).run []).2.reverse = f.leaves) ∧
    (∀ (f : Formula) (env : Variable → Bool), (f.evalAsking env).2 = f.leaves) ∧
    ∀ (ε : Type) [Environment ε] (values : ε) (f : Formula),
      ((∃ m, f.evalIn values = .error m) ↔ ∃ v ∈ f.vars, Environment.value? values v = none) ∧
      ∀ m, f.evalIn values = .error m ↔
        ∃ v, m = .unbound v ∧ Environment.FirstUnbound values f.leaves v := by
  refine ⟨fun f answer => asked_evalM answer f, fun f env => asked_evalAsking env f,
    fun ε _ values f => ⟨?_, ?_⟩⟩
  · exact exists_evalIn_eq_error_iff
  · exact fun _ => evalIn_eq_error_iff

/-- In `A ∧ (B ∧ C)` the value false of `A` settles the value, but `C` is asked for, and `B` is
reported if there is no value for it. -/
theorem asks_each_leaf_conjunction :
    let a : Variable := ⟨'A', rfl⟩
    let b : Variable := ⟨'B', rfl⟩
    let c : Variable := ⟨'C', rfl⟩
    let f : Formula := .binary .and (.var a) (.binary .and (.var b) (.var c))
    (f.evalAsking fun _ => false).2 = [a, b, c] ∧
      f.evalIn (Std.HashMap.ofList [(a, false)]) = .error (.unbound b) ∧
      f.evalIn (Std.TreeMap.ofList [(a, false)]) = .error (.unbound b) ∧
      f.evalIn (Assignment.ofList [(a, false)]) = .error (.unbound b) := by
  intro a b c f
  have hreported {ε : Type} [Environment ε] (values : ε)
      (ha : (Environment.value? values a).isSome = true) (hb : Environment.value? values b = none) :
      f.evalIn values = .error (.unbound b) :=
    ((asks_each_leaf.2.2 ε values f).2 _).mpr ⟨b, rfl, [a], [c], rfl, hb, by simpa using ha⟩
  refine ⟨asks_each_leaf.2.1 f _, hreported _ ?_ ?_, hreported _ ?_ ?_, hreported _ ?_ ?_⟩
  · simp [Environment.value?, Std.HashMap.ofList_singleton]
  · simp [Environment.value?, Std.HashMap.ofList_singleton, a, b]
  · decide +kernel
  · decide +kernel
  · decide
  · decide

end Formula

end Sentential
