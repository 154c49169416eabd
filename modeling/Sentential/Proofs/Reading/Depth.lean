import Sentential.Proofs.Reading.CallDepth

/-!
# The depth that is tracked

A course passes each formula on together with a number. What it reads off the tokens fits them
(`Course.Reads.fits`), and the number is the depth of the formula, whichever of the rungs and
operands the formula was read as. So a node is refused before it is made just if it would be too
deep (`Course.links_of_reads`, `Course.unary_of_reads`), and a pair of parentheses passes on what
stands in it as it is (`Course.primary_of_reads`).
-/

namespace Sentential

namespace Course

/-- From `r` on, the course reads a formula and says that it has this depth, and leaves the reader
at `r'`. -/
def Reads (n : Course (Formula × Nat)) (r : Reader) (f : Formula) (d : Nat) (r' : Reader) : Prop :=
  n r = .some (.ok (f, d), r')

variable {r r' : Reader} {f : Formula} {d l : Nat} {c : Connective} {ts us : List Token}

/-! ### What is read -/

theorem Reads.read_of_outcome {n : Course (Formula × Nat)} {x : Reading} (h : Reads n r f d r')
    (hn : n r = .some (result (x.outcome r))) :
    ∃ rest, x = .read f d rest ∧ r' = r.advance rest := by
  have h : result (x.outcome r) = (.ok (f, d), r') := Part.some_inj.mp (hn.symm.trans h)
  cases x with
  | read g e rest =>
    cases h
    exact ⟨rest, rfl, rfl⟩
  | stuck cause opened rest => cases h

theorem Reads.fits {n : Course (Formula × Nat)} {rule : Rule} {budget : Nat} {cs : List Connective}
    (h : Reads n r f d r') (hrule : rule.Exact budget cs)
    (hn : n r = .some (result ((rule.run r.rest).outcome r))) :
    ∃ us rest, r.rest = us ++ rest ∧ r' = r.advance rest ∧ Fits budget cs us f ∧ d = f.depth := by
  obtain ⟨rest, hrun, hr'⟩ := h.read_of_outcome hn
  obtain ⟨us, hrest, hfits, hd⟩ := hrule.sound hrun
  exact ⟨us, rest, hrest, hr', hfits, hd⟩

theorem fits_of_reads_level (h : Reads (run (.level l)) r f d r') :
    ∃ us rest, r.rest = us ++ rest ∧ r' = r.advance rest ∧
      Fits (r.limit - r.nesting) (Connective.ladder.drop l) us f ∧ d = f.depth :=
  h.fits (Rule.exact_rung _ l) (level_eq l r)

theorem fits_of_reads_unary (h : Reads (run .unary) r f d r') :
    ∃ us rest, r.rest = us ++ rest ∧ r' = r.advance rest ∧
      Fits (r.limit - r.nesting) [] us f ∧ d = f.depth :=
  h.fits (Rule.exact_operand _) (unary_eq r)

theorem fits_of_reads_primary (h : Reads (run .primary) r f d r') :
    ∃ us rest, r.rest = us ++ rest ∧ r' = r.advance rest ∧
      Fits (r.limit - r.nesting) [] us f ∧ d = f.depth := by
  have hprimary := primary_eq r
  unfold Rule.unsigned at hprimary
  split at hprimary
  · obtain ⟨rest, hread, -⟩ := h.read_of_outcome hprimary
    cases hread
  · exact h.fits (Rule.exact_operand _) hprimary

/-! ### Which nodes are refused -/

theorem bound_bind {α : Type} (d : Nat) (k : Nat → Course α) (r : Reader) :
    ((liftM (Descent.bound d) : Course Nat) >>= k) r =
      if d ≤ maxDepth then k d r else .some (.error (.refused (.tooDeep maxDepth)), r) := by
  split
  · next h => exact bind_of_ok (lift_of_ok (Descent.bound_of_le h))
  · next h => exact bind_of_error (lift_of_error (Descent.bound_of_lt h))

theorem level_of_reads (hc : Connective.ladder[l]? = some c)
    (h : Reads (run (.level (l + 1))) r f d r') :
    run (.level l) r = run (.links l c f d) r' := by
  rw [run_eq, steps, hc]
  exact bind_of_ok h

/-- **A link is refused if its node is too deep**, and otherwise the chain goes on with the node and
the depth of the node. -/
theorem links_of_reads (g : Formula) (hrest : r.rest = .op c :: ts)
    (h : Reads (run (.level (l + 1))) (r.advance ts) f d r') :
    run (.links l c g g.depth) r =
      if (Formula.binary c g f).depth ≤ maxDepth then
        run (.links l c (.binary c g f) (Formula.binary c g f).depth) r'
      else .some (.error (.refused (.tooDeep maxDepth)), r') := by
  obtain ⟨-, -, -, -, -, rfl⟩ := fits_of_reads_level h
  have hdepth : (Formula.binary c g f).depth = 1 + max g.depth f.depth := Nat.add_comm ..
  have heat := Descent.eat_of_cons hrest
  rw [run_eq, steps, bind_of_ok (lift_of_ok heat), if_pos rfl, bind_of_ok h, hdepth]
  exact bound_bind ..

/-- **A negation is refused if it is too deep**, and otherwise it is read with its depth. Its sign
counts as finished in both cases. -/
theorem unary_of_reads (hrest : r.rest = .not :: ts) (hlimit : r.nesting < r.limit)
    (h : Reads (run .unary) (r.advance ts).opened f d r') :
    run .unary r =
      if (Formula.not f).depth ≤ maxDepth then
        .some (.ok (.not f, (Formula.not f).depth), { r' with nesting := r.nesting })
      else .some (.error (.refused (.tooDeep maxDepth)), { r' with nesting := r.nesting }) := by
  obtain ⟨-, rest, -, rfl, -, rfl⟩ := fits_of_reads_unary h
  have heat := Descent.eat_of_cons hrest
  have henter := Descent.enter_of_lt (r := r.advance ts) hlimit
  have hleave := Descent.leave_eq ((r.advance ts).advance rest)
  rw [run_eq, steps, bind_of_ok (lift_of_ok heat), if_pos rfl, bind_of_ok (lift_of_ok henter),
    bind_of_ok h]
  exact (bind_of_ok (lift_of_ok hleave)).trans (bound_bind ..)

/-- **Parentheses add nothing**: with the `)` the formula is passed on, with the same depth. -/
theorem primary_of_reads (hrest : r.rest = .lparen :: ts) (hlimit : r.nesting < r.limit)
    (h : Reads (run (.level 0)) (r.advance ts).opened f d r') (hclose : r'.rest = .rparen :: us) :
    Reads (run .primary) r f d { r'.advance us with nesting := r.nesting } := by
  obtain ⟨-, rest, -, rfl, -, -⟩ := fits_of_reads_level h
  have henter := Descent.enter_of_lt (r := r.advance ts) hlimit
  have hpeek := Descent.peek_eq r
  have hclosed := Descent.close_of_cons hclose
  have hleave := Descent.leave_eq (((r.advance ts).advance rest).advance us)
  rw [hrest] at hpeek
  unfold Reads
  rw [run_eq, steps, bind_of_ok (lift_of_ok hpeek)]
  dsimp only [List.head?_cons]
  rw [bind_of_ok (lift_of_ok (Descent.skip_eq hrest)), bind_of_ok (lift_of_ok henter), bind_of_ok h,
    bind_of_ok (lift_of_ok hclosed)]
  exact bind_of_ok (lift_of_ok hleave)

/-- **The depth that is tracked is the depth.** Wherever a reader stands and whatever it has left
open, a formula that is read, for a rung, as an operand or as an operand without a sign, comes with
its own depth, which is within the limit. A chain begins with its first operand and goes on with
each node and the depth of the node, unless this is beyond the limit; that, and nothing else, is why
a link or a negation is refused once its operands are read. Parentheses leave formula and depth as
they are. -/
theorem tracks_depth (r r' : Reader) (f : Formula) (d : Nat) :
    (∀ l, Reads (run (.level l)) r f d r' → d = f.depth ∧ d ≤ maxDepth) ∧
    (Reads (run .unary) r f d r' → d = f.depth ∧ d ≤ maxDepth) ∧
    (Reads (run .primary) r f d r' → d = f.depth ∧ d ≤ maxDepth) ∧
    (∀ l c, Connective.ladder[l]? = some c → Reads (run (.level (l + 1))) r f d r' →
      run (.level l) r = run (.links l c f f.depth) r') ∧
    (∀ l c g ts, r.rest = .op c :: ts → Reads (run (.level (l + 1))) (r.advance ts) f d r' →
      run (.links l c g g.depth) r =
        if (Formula.binary c g f).depth ≤ maxDepth then
          run (.links l c (.binary c g f) (Formula.binary c g f).depth) r'
        else .some (.error (.refused (.tooDeep maxDepth)), r')) ∧
    (∀ ts, r.rest = .not :: ts → r.nesting < r.limit →
      Reads (run .unary) (r.advance ts).opened f d r' →
      run .unary r =
        if (Formula.not f).depth ≤ maxDepth then
          .some (.ok (.not f, (Formula.not f).depth), { r' with nesting := r.nesting })
        else .some (.error (.refused (.tooDeep maxDepth)), { r' with nesting := r.nesting })) ∧
    ∀ ts us, r.rest = .lparen :: ts → r.nesting < r.limit →
      Reads (run (.level 0)) (r.advance ts).opened f d r' → r'.rest = .rparen :: us →
      Reads (run .primary) r f d { r'.advance us with nesting := r.nesting } := by
  refine ⟨fun l h => ?_, fun h => ?_, fun h => ?_, fun l c hc h => ?_,
    fun l c g ts => links_of_reads g, fun ts => unary_of_reads, fun ts us => primary_of_reads⟩
  · obtain ⟨_, _, -, -, hfits, rfl⟩ := fits_of_reads_level h
    exact ⟨rfl, hfits.depth_le⟩
  · obtain ⟨_, _, -, -, hfits, rfl⟩ := fits_of_reads_unary h
    exact ⟨rfl, hfits.depth_le⟩
  · obtain ⟨_, _, -, -, hfits, rfl⟩ := fits_of_reads_primary h
    exact ⟨rfl, hfits.depth_le⟩
  · obtain ⟨-, -, -, -, -, rfl⟩ := fits_of_reads_level h
    exact level_of_reads hc h

/-- To 256 negations of `A`, the most there may be, no `(∼B)` can be joined. Read for itself it has
the depth of the negation in the parentheses. -/
theorem tracks_depth_conjunction :
    let f : Formula := .not (.var ⟨'B', rfl⟩)
    let g : Formula := Nat.repeat .not 256 (.var ⟨'A', rfl⟩)
    let r : Reader := { tokens := [.op .and, .lparen, .not, .var ⟨'B', rfl⟩, .rparen] }
    let r' : Reader := { r with position := 5 }
    run .unary { r with position := 2 } = .some (.ok (f, 1), { r with position := 4 }) ∧
      Reads (run .primary) { r with position := 1 } f 1 r' ∧ 1 = f.depth ∧
      Reads (run (.level 5)) { r with position := 1 } f 1 r' ∧
      run (.links 4 .and g g.depth) r = .some (.error (.refused (.tooDeep 256)), r') := by
  intro f g r r'
  let q : Reader := { r with position := 1 }
  have hrun₀ : (Rule.operand 255).run [.var ⟨'B', rfl⟩, .rparen] =
      .read (.var ⟨'B', rfl⟩) 0 [.rparen] := by decide +kernel
  have hrun₁ : (Rule.rung 255 0).run [.not, .var ⟨'B', rfl⟩, .rparen] = .read f 1 [.rparen] := by
    decide +kernel
  have hrun₂ : (Rule.rung 256 5).run q.rest = .read f 1 [] := by decide +kernel
  have houtcome (s : Reader) {x y : Reading} (h : x = y) :
      Part.some (result (x.outcome s)) = .some (result (y.outcome s)) := by rw [h]
  -- `B` below the negation, the negation in the parentheses, and the parentheses as an operand
  have hvar : Reads (run .unary) { r with position := 3, nesting := 1 } (.var ⟨'B', rfl⟩) 0
      { r with position := 4, nesting := 1 } := (unary_eq _).trans (houtcome _ hrun₀)
  have hinner : Reads (run (.level 0)) { r with position := 2, nesting := 1 } f 1
      { r with position := 4, nesting := 1 } := (level_eq 0 _).trans (houtcome _ hrun₁)
  have hoperand : Reads (run (.level 5)) q f 1 r' := (level_eq 5 q).trans (houtcome q hrun₂)
  obtain ⟨-, -, -, -, -, hnot, -⟩ :=
    tracks_depth { r with position := 2 } { r with position := 4, nesting := 1 } (.var ⟨'B', rfl⟩) 0
  obtain ⟨-, -, -, -, -, -, hparens⟩ :=
    tracks_depth q { r with position := 4, nesting := 1 } f 1
  obtain ⟨-, -, hdepth, -, -, -, -⟩ := tracks_depth q r' f 1
  obtain ⟨-, -, -, -, hlink, -, -⟩ := tracks_depth r r' f 1
  have hprimary := hparens _ [] rfl (by decide) hinner rfl
  have hg : g.depth = 256 := depth_negations _ 256
  refine ⟨(hnot _ rfl (by decide) hvar).trans (if_pos (by decide)), hprimary, (hdepth hprimary).1,
    hoperand, (hlink 4 .and g _ rfl hoperand).trans (if_neg ?_)⟩
  rw [Formula.depth, hg]
  decide

end Course

end Sentential
