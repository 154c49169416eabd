import Sentential.Proofs.Reading.Unfinished

/-!
# What a reader keeps over a whole session

A session is a list of calls to one reader, which goes on after failures. Whatever the calls were,
no more signs are open than tokens have been consumed, and the position stays within the list
(`Reader.InBounds`); each call keeps this (`Reader.InBounds.call`), and so does a session
(`Reader.InBounds.after`). What a single call does to position and nesting is the same at any point
of a session: success gives back all that was opened, and failure leaves behind just the signs that
are not finished in the tokens that it has consumed (`Reader.moves_of_error`).
-/

namespace Sentential.Reader

/-- What can be asked of a reader. -/
inductive Call
  | next
  | finish
deriving DecidableEq

/-- The answer to a call, and the reader afterwards. -/
def call (r : Reader) : Call → Except ParseError (Option Formula) × Reader
  | .next => (r.next.1.map some, r.next.2)
  | .finish => (r.finish.map fun _ => none, r)

/-- The reader after the calls. -/
def after (r : Reader) (calls : List Call) : Reader := calls.foldl (fun r c => (r.call c).2) r

/-- The tokens that were consumed between two places. -/
def consumed (r r' : Reader) : List Token := r.rest.take (r'.position - r.position)

/-- The position is in the list, and no more signs are open than stand before it. -/
structure InBounds (r : Reader) : Prop where
  nesting_le : r.nesting ≤ r.position
  position_le : r.position ≤ r.tokens.length

/-! ### One call -/

variable {r r' : Reader} {f : Formula} {cause : ParseError}

theorem consumed_advance {us rest : List Token} (h : r.rest = us ++ rest) :
    r.consumed (r.advance rest) = us := by
  unfold consumed
  rw [position_advance h, Nat.add_sub_cancel_left, h, List.take_left]

/-- **A formula takes tokens and gives back all that it opened.** -/
theorem moves_of_ok (h : r.next = (.ok f, r')) :
    r'.tokens = r.tokens ∧ r.position < r'.position ∧
      r'.position ≤ max r.position r.tokens.length ∧ r'.nesting = r.nesting := by
  obtain ⟨us, rest, hrest, hf, -, rfl⟩ := next_ok h
  have hlength := congrArg List.length hrest
  have hpos := List.length_pos_iff.mpr hf.derives.ne_nil
  rw [length_rest, List.length_append] at hlength
  refine ⟨rfl, ?_, ?_, rfl⟩
  · rw [position_advance hrest]
    omega
  · rw [position_advance hrest]
    omega

/-- **A failure leaves behind the signs that are not finished.** -/
theorem moves_of_error (h : r.next = (.error cause, r')) :
    r'.tokens = r.tokens ∧ r.position ≤ r'.position ∧
      r'.position ≤ max r.position r.tokens.length ∧
      r'.nesting = r.nesting + unfinished (r.consumed r') := by
  rcases next_error h with ⟨-, -, rfl⟩ | ⟨-, us, opened, rest, hrest, hstalls, rfl⟩
  · unfold consumed
    rw [Nat.sub_self, List.take_zero]
    exact ⟨rfl, Nat.le_refl _, Nat.le_max_left .., rfl⟩
  · have hlength := congrArg List.length hrest
    rw [length_rest, List.length_append] at hlength
    have hconsumed : r.consumed { r.advance rest with nesting := r.nesting + opened } = us :=
      consumed_advance hrest
    rw [hconsumed, ← hstalls.opened_eq]
    dsimp only
    rw [position_advance hrest]
    refine ⟨rfl, Nat.le_add_right .., ?_, rfl⟩
    omega

theorem length_consumed_le (r r' : Reader) :
    (r.consumed r').length ≤ r'.position - r.position := List.length_take_le ..

theorem moves_of_call (r : Reader) (c : Call) :
    (r.call c).2.tokens = r.tokens ∧ r.position ≤ (r.call c).2.position ∧
      (r.call c).2.position ≤ max r.position r.tokens.length ∧
      (r.call c).2.nesting ≤ r.nesting + ((r.call c).2.position - r.position) := by
  cases c with
  | finish => exact ⟨rfl, Nat.le_refl _, Nat.le_max_left .., Nat.le_add_right ..⟩
  | next =>
    unfold call
    dsimp only
    cases h : r.next with
    | mk answer r' =>
      cases answer with
      | ok f =>
        obtain ⟨htokens, hlt, hle, hnesting⟩ := moves_of_ok h
        refine ⟨htokens, Nat.le_of_lt hlt, hle, ?_⟩
        dsimp only
        omega
      | error cause =>
        obtain ⟨htokens, hle, hle', hnesting⟩ := moves_of_error h
        have h₁ := unfinished_le_length (r.consumed r')
        have h₂ := length_consumed_le r r'
        refine ⟨htokens, hle, hle', ?_⟩
        dsimp only
        omega

theorem InBounds.call (h : r.InBounds) (c : Call) : (r.call c).2.InBounds := by
  obtain ⟨htokens, hle, hle', hnesting⟩ := r.moves_of_call c
  have h₁ := h.nesting_le
  have h₂ := h.position_le
  refine ⟨by omega, ?_⟩
  rw [htokens]
  omega

theorem finish_eq_ok_iff (h : r.InBounds) : r.finish = .ok () ↔ r.position = r.tokens.length := by
  have hlength := r.length_rest
  have hle := h.position_le
  unfold finish
  cases hrest : r.rest with
  | nil =>
    rw [hrest, List.length_nil] at hlength
    exact ⟨fun _ => by omega, fun _ => rfl⟩
  | cons t us =>
    rw [hrest, List.length_cons] at hlength
    refine ⟨fun h => (nomatch h), fun h => ?_⟩
    omega

/-! ### A session -/

theorem InBounds.after (h : r.InBounds) (calls : List Call) : (r.after calls).InBounds := by
  induction calls generalizing r with
  | nil => exact h
  | cons c calls ih => exact ih (h.call c)

theorem tokens_after (r : Reader) (calls : List Call) : (r.after calls).tokens = r.tokens := by
  induction calls generalizing r with
  | nil => rfl
  | cons c calls ih =>
    rw [after, List.foldl_cons]
    exact (ih _).trans (r.moves_of_call c).1

theorem position_le_after (r : Reader) (calls : List Call) :
    r.position ≤ (r.after calls).position := by
  induction calls generalizing r with
  | nil => exact Nat.le_refl _
  | cons c calls ih => exact Nat.le_trans (r.moves_of_call c).2.1 (ih _)

theorem inBounds_start (ts : List Token) : ({ tokens := ts } : Reader).InBounds :=
  ⟨Nat.le_refl _, Nat.zero_le _⟩

/-- **What holds at each point of each session.** -/
theorem session_keeps (ts : List Token) (before : List Call) :
    let r := ({ tokens := ts } : Reader).after before
    r.nesting ≤ r.position ∧ r.position ≤ ts.length ∧
      (∀ calls, r.position ≤ (r.after calls).position) ∧
      (r.call .finish).2 = r ∧ (r.finish = .ok () ↔ r.position = ts.length) ∧
      (∀ f r', r.next = (.ok f, r') → r.position < r'.position ∧ r'.nesting = r.nesting) ∧
      ∀ cause r', r.next = (.error cause, r') →
        r'.nesting = r.nesting + unfinished (r.consumed r') := by
  intro r
  have hbounds : r.InBounds := (inBounds_start ts).after before
  have htokens : r.tokens = ts := tokens_after ..
  refine ⟨hbounds.nesting_le, ?_, r.position_le_after, rfl, ?_, ?_, ?_⟩
  · rw [← htokens]
    exact hbounds.position_le
  · rw [← htokens]
    exact finish_eq_ok_iff hbounds
  · intro f r' h
    obtain ⟨-, hlt, -, hnesting⟩ := moves_of_ok h
    exact ⟨hlt, hnesting⟩
  · intro cause r' h
    exact (moves_of_error h).2.2.2

/-- After `(A` the parenthesis stays open, and `B` is read as a formula of its own. -/
theorem session_keeps_open_group :
    let r : Reader := { tokens := [.lparen, .var ⟨'A', rfl⟩, .var ⟨'B', rfl⟩] }
    let r₁ : Reader := { r with position := 2, nesting := 1 }
    let r₂ : Reader := { r with position := 3, nesting := 1 }
    r.next = (.error (.expected .rparen (.var ⟨'B', rfl⟩)), r₁) ∧
      r₁.nesting = r.nesting + unfinished [.lparen, .var ⟨'A', rfl⟩] ∧
      (r.after [.next]).next = (.ok (.var ⟨'B', rfl⟩), r₂) ∧
      (r.after [.next]).position < r₂.position := by
  intro r r₁ r₂
  have hfail : (Rule.formula maxDepth).run r.tokens =
      .stuck (.expected .rparen (.var ⟨'B', rfl⟩)) 1 [.var ⟨'B', rfl⟩] := by decide +kernel
  have hread : (Rule.formula 255).run [.var ⟨'B', rfl⟩] = .read (.var ⟨'B', rfl⟩) 0 [] := by
    decide +kernel
  have h : r.next = (.error (.expected .rparen (.var ⟨'B', rfl⟩)), r₁) :=
    next_of_stuck r (List.cons_ne_nil _ _) hfail
  have hafter : r.after [.next] = r₁ := congrArg Prod.snd h
  have h' : (r.after [.next]).next = (.ok (.var ⟨'B', rfl⟩), r₂) := by
    rw [hafter]
    exact next_of_read r₁ (List.cons_ne_nil _ _) hread
  obtain ⟨-, -, -, -, -, -, hopened⟩ := session_keeps r.tokens []
  obtain ⟨-, -, -, -, -, hread, -⟩ := session_keeps r.tokens [.next]
  exact ⟨h, hopened _ _ h, h', (hread _ _ h').1⟩

end Sentential.Reader
