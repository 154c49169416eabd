import Mathlib.Data.List.Sort
import Sentential.Proofs.Table.Valuation

/-!
# What an assignment binds

An assignment is known from the values that it gives (`Assignment.ext_get?`), since there is only
one way to list its bindings in ascending order. So an assignment that binds the variables of a list
and no others is that of a valuation (`Assignment.binds_iff`), and it is known from its number
(`Assignment.number`), which reads the values along the list in binary.
-/

namespace Sentential

theorem Variable.eq_of_mem_iff {α : Type} (key : α → Variable) {l l' : List α}
    (hl : l.Pairwise fun x y => key x < key y) (hl' : l'.Pairwise fun x y => key x < key y)
    (h : ∀ x, x ∈ l ↔ x ∈ l') : l = l' := by
  have : Std.Irrefl fun x y : α => key x < key y := ⟨fun x => lt_irrefl (key x)⟩
  have : Std.Antisymm fun x y : α => key x < key y :=
    ⟨fun _ _ hlt hgt => absurd hgt (lt_asymm hlt)⟩
  exact hl.eq_of_mem_iff hl' h

namespace Assignment

variable {a b : Assignment} {vs : List Variable} {env : Variable → Bool}

/-! ### Assignments with the same values -/

theorem lookup_of_mem {v : Variable} {c : Bool} : ∀ {l : List (Variable × Bool)},
    l.Pairwise (·.1 < ·.1) → (v, c) ∈ l → l.lookup v = some c
  | (w, d) :: rest, h, hm => by
    obtain ⟨hw, hrest⟩ := List.pairwise_cons.mp h
    rw [lookup_cons_ite]
    rcases List.mem_cons.mp hm with he | hm
    · cases he
      exact if_pos rfl
    · have hlt : w < v := hw _ hm
      have hne : v ≠ w := by
        rintro rfl
        exact Variable.lt_irrefl v hlt
      rw [if_neg hne]
      exact lookup_of_mem hrest hm

theorem mem_bindings_iff {v : Variable} {c : Bool} : (v, c) ∈ a.bindings ↔ a.get? v = some c := by
  constructor
  · exact lookup_of_mem a.ascending
  · intro h
    obtain ⟨l₁, l₂, he, -⟩ := List.lookup_eq_some_iff.mp h
    rw [he]
    simp

theorem ext_get? (h : ∀ v, a.get? v = b.get? v) : a = b := by
  have hmem : ∀ x, x ∈ a.bindings ↔ x ∈ b.bindings := by
    rintro ⟨v, c⟩
    rw [mem_bindings_iff, mem_bindings_iff, h v]
  have hbindings : a.bindings = b.bindings :=
    Variable.eq_of_mem_iff Prod.fst a.ascending b.ascending hmem
  obtain ⟨l, hl⟩ := a
  obtain ⟨l', hl'⟩ := b
  simp only at hbindings
  subst hbindings
  rfl

/-! ### Assignments to a list of variables -/

/-- The assignment gives values to the variables of the list and to no others. -/
def Binds (a : Assignment) (vs : List Variable) : Prop :=
  ∀ v, (a.get? v).isSome = true ↔ v ∈ vs

/-- The values along the list as a number in binary, the first one in the highest place. -/
def number (vs : List Variable) (a : Assignment) : Nat :=
  valuationIndex vs fun v => a.get? v == some true

theorem binds_ofValuation (vs : List Variable) (env : Variable → Bool) :
    (ofValuation vs env).Binds vs := by
  intro v
  rw [get?_ofValuation]
  split <;> simp_all

/-- **What binds the variables of a list is the assignment of a valuation.** -/
theorem binds_iff : a.Binds vs ↔ ∃ env, a = ofValuation vs env := by
  constructor
  · intro h
    refine ⟨fun v => (a.get? v).getD false, ext_get? fun v => ?_⟩
    rw [get?_ofValuation]
    by_cases hv : v ∈ vs
    · obtain ⟨c, hc⟩ := Option.isSome_iff_exists.mp ((h v).mpr hv)
      rw [if_pos hv, hc]
      rfl
    · rw [if_neg hv, ← Option.not_isSome_iff_eq_none, h v]
      exact hv
  · rintro ⟨env, rfl⟩
    exact binds_ofValuation vs env

theorem Binds.map_fst (h : a.Binds vs) (hvs : vs.Pairwise (· < ·)) : a.toList.map (·.1) = vs := by
  have hmem : ∀ v, v ∈ a.toList.map (·.1) ↔ v ∈ vs := by
    intro v
    rw [← h v, Option.isSome_iff_exists, List.mem_map]
    constructor
    · rintro ⟨⟨w, c⟩, hw, rfl⟩
      exact ⟨c, mem_bindings_iff.mp hw⟩
    · rintro ⟨c, hc⟩
      exact ⟨(v, c), mem_bindings_iff.mpr hc, rfl⟩
  exact Variable.eq_of_mem_iff id (List.pairwise_map.mpr a.ascending) hvs hmem

theorem Binds.map_fst_ascending (h : a.Binds vs) : a.toList.map (·.1) = Variable.ascending vs := by
  have hsame : a.Binds (Variable.ascending vs) := fun v => (h v).trans Variable.mem_ascending.symm
  exact hsame.map_fst (Variable.pairwise_ascending vs)

theorem toList_ofValuation (hvs : vs.Pairwise (· < ·)) :
    (ofValuation vs env).toList = vs.map fun v => (v, env v) := by
  have hmem : ∀ x, x ∈ (ofValuation vs env).toList ↔ x ∈ vs.map fun v => (v, env v) := by
    rintro ⟨v, c⟩
    rw [toList, mem_bindings_iff, get?_ofValuation, List.mem_map]
    split
    · next hv =>
      constructor
      · rintro ⟨⟩
        exact ⟨v, hv, rfl⟩
      · rintro ⟨_, -, ⟨⟩⟩
        rfl
    · next hv =>
      constructor
      · intro h
        cases h
      · rintro ⟨_, hw, ⟨⟩⟩
        exact absurd hw hv
  exact Variable.eq_of_mem_iff Prod.fst (ofValuation vs env).ascending
    (List.pairwise_map.mpr hvs) hmem

theorem ofValuation_eq_of_mem_iff {ws : List Variable} (h : ∀ v, v ∈ vs ↔ v ∈ ws) :
    ofValuation vs env = ofValuation ws env := by
  refine ext_get? fun v => ?_
  simp only [get?_ofValuation, h v]

theorem number_ofValuation (vs : List Variable) (env : Variable → Bool) :
    (ofValuation vs env).number vs = valuationIndex vs env := by
  refine valuationIndex_congr fun v hv => ?_
  rw [get?_ofValuation, if_pos hv]
  simp

theorem number_ofValuation_valuationAt (hvs : vs.Nodup) {index : Nat}
    (hindex : index < 2 ^ vs.length) :
    (ofValuation vs (valuationAt vs index)).number vs = index := by
  rw [number_ofValuation, valuationIndex_valuationAt hvs hindex]

theorem nodup_of_pairwise_number {l : List Assignment}
    (h : l.Pairwise fun a b => a.number vs < b.number vs) : l.Nodup :=
  h.imp fun hlt he => absurd (congrArg (number vs) he) (Nat.ne_of_lt hlt)

end Assignment

end Sentential
