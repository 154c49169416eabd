import Sentential.Formula.Render
import Sentential.Rejection
import Sentential.Table.Basic

/-!
# The journal of a computation

A computation that builds a table tells what it has done so far. `Journaled` is the monad of such
computations: what was noted, in order, and the result or the failure. What was noted before a
failure stays in the journal.
-/

namespace Sentential

/-- How much an entry matters; the rows of a table are of the lower level. -/
inductive Level
  | debug
  | trace
deriving DecidableEq

/-- Something that has been done. -/
inductive Event
  /-- A text was read into so many tokens. -/
  | tokenized (text : String) (count : Nat)
  /-- These are the variables of the text. -/
  | vars (vs : List Variable)
  /-- The tokens are those of this formula. -/
  | parsed (f : Formula)
  /-- The row of that index was filled. -/
  | row (index : Nat) (row : Row)
  /-- The table is complete. -/
  | generated (rows columns : Nat)
deriving DecidableEq

namespace Event

/-- How much the event matters. -/
def level : Event → Level
  | row .. => .trace
  | _ => .debug

/-- A variable as entries show it. -/
def showVariable (v : Variable) : String := s!"Var({Text.quoteChar v.name})"

/-- An assignment as entries show it. -/
def showAssignment (a : Assignment) : String :=
  let bindings := a.toList.map fun (v, b) => s!"{showVariable v}: {b}"
  "Assignment(\x7b" ++ String.intercalate ", " bindings ++ "\x7d)"

/-- The event in words. -/
def message : Event → String
  | tokenized text n => s!"tokenized {Text.quoteText text} into {n} tokens"
  | vars vs => "variables: [" ++ String.intercalate ", " (vs.map showVariable) ++ "]"
  | parsed f => s!"parsed: {f} (depth {f.depth}, {f.size} nodes)"
  | row i r => s!"row {i}: {showAssignment r.assignment} -> {r.result}"
  | generated n m => s!"generated {n} rows over {m} variables"

/-- The entry for the event: its level, the part of the program that speaks, and the message. -/
def line (e : Event) : String :=
  let level := match e.level with
    | .debug => "DEBUG"
    | .trace => "TRACE"
  s!"{level} truth_table::table {e.message}"

end Event

/-- What was done, and what came of it. -/
structure Journaled (α : Type) where
  events : List Event
  outcome : Except Failure α

namespace Journaled

/-- The computation that only notes an event. -/
def note (e : Event) : Journaled Unit := ⟨[e], .ok ()⟩

/-- The computation that only fails. -/
def fail {α : Type} (e : Failure) : Journaled α := ⟨[], .error e⟩

/-- The computation that rejects its input. -/
def reject {α : Type} (r : Rejection) : Journaled α := fail (.rejected r)

/-- A result that came about without entries. -/
def ofExcept {ε α : Type} (failure : ε → Failure) (x : Except ε α) : Journaled α :=
  ⟨[], x.mapError failure⟩

/-- First one computation and then, if it has a result, the next. -/
def andThen {α β : Type} (x : Journaled α) (f : α → Journaled β) : Journaled β :=
  match x.outcome with
  | .ok a => ⟨x.events ++ (f a).events, (f a).outcome⟩
  | .error e => ⟨x.events, .error e⟩

instance : Monad Journaled where
  pure a := ⟨[], .ok a⟩
  bind := andThen

instance : LawfulMonad Journaled := LawfulMonad.mk' Journaled
  (fun ⟨_, outcome⟩ => by cases outcome <;> simp [Functor.map, andThen])
  (fun a f => by simp [bind, pure, andThen])
  (fun ⟨_, outcome⟩ f g => by
    cases outcome with
    | error => rfl
    | ok a =>
      simp only [bind, andThen]
      cases (f a).outcome <;> simp)

theorem pure_def {α : Type} (a : α) : (pure a : Journaled α) = ⟨[], .ok a⟩ := rfl

theorem ok_bind {α β : Type} (events : List Event) (a : α) (f : α → Journaled β) :
    (⟨events, .ok a⟩ : Journaled α) >>= f = ⟨events ++ (f a).events, (f a).outcome⟩ := rfl

theorem note_bind {α : Type} (e : Event) (f : Unit → Journaled α) :
    note e >>= f = ⟨e :: (f ()).events, (f ()).outcome⟩ := rfl

theorem ofExcept_ok_bind {ε α β : Type} (failure : ε → Failure) (a : α) (f : α → Journaled β) :
    ofExcept failure (.ok a) >>= f = f a := pure_bind a f

/-- The entries of a journal that keeps those of the level, or all of them. -/
def lines {α : Type} (x : Journaled α) (level : Level) : List String :=
  (x.events.filter fun e => level = .trace || e.level = .debug).map (·.line)

end Journaled

end Sentential
