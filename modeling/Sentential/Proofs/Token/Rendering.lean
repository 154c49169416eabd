import Mathlib.Data.List.Forall2
import Sentential.Proofs.Token.Scan

/-!
# The texts that a list of tokens can be written as

A text of tokens is made of pieces: for each token blanks and then one character, and more blanks at
the end (`Renders`). Which characters a token can have does not hang on the alphabet (`WrittenBy`);
an alphabet only has a say in which variables it lets pass (`spells_iff`). So the scan of a text
undoes the writing of its tokens, and of two texts one after the other the tokens stand one after
the other (`scan_append`). A character that is refused in the second text has the first text before
it, and its place counts the characters of that text.
-/

namespace Sentential

/-- The same symbol with `n` more characters before it. -/
def UnknownSymbol.shift (n : Nat) (e : UnknownSymbol) : UnknownSymbol := ⟨e.symbol, n + e.position⟩

namespace Token

/-- The character is one that the token is written with: the letter of a variable, or one that is
listed for another token. -/
inductive WrittenBy : Token → Char → Prop
  | letter (v : Variable) : WrittenBy (.var v) v.name
  | symbol {t : Token} {c : Char} : (c, t) ∈ spellings → WrittenBy t c

/-- A character of the token with blanks in front of it. -/
structure WrittenAs (t : Token) (piece : List Char × Char) : Prop where
  blanks : ∀ c ∈ piece.1, Text.isBlank c = true
  sign : WrittenBy t piece.2

/-- The text is put together from a piece for each token, in their order, and from blanks at the
end. -/
def Renders (ts : List Token) (cs : List Char) : Prop :=
  ∃ (pieces : List (List Char × Char)) (final : List Char),
    cs = pieces.flatMap (fun piece => piece.1 ++ [piece.2]) ++ final ∧
      List.Forall₂ WrittenAs ts pieces ∧ ∀ c ∈ final, Text.isBlank c = true

variable {a : Alphabet} {c : Char} {cs ds : List Char} {t : Token} {ts us : List Token}

/-! ### Pieces of a text -/

theorem spelledBy_iff :
    SpelledBy a t c ↔ WrittenBy t c ∧ ∀ v, t = .var v → a.contains v.name = true := by
  constructor
  · intro h
    refine ⟨?_, fun v hv => ((h.eq_var_iff v).mp hv.symm).2⟩
    cases h with
    | letter h => exact .letter _
    | symbol h => exact .symbol h
  · rintro ⟨h, ha⟩
    cases h with
    | letter v => exact .letter (ha v rfl)
    | symbol h => exact .symbol h

theorem writtenBy_of_glyph? {g : Char} (h : t.kind.glyph? = some g) : WrittenBy t g := by
  cases t with
  | var v => cases h
  | not | lparen | rparen =>
    cases h
    exact .symbol (by decide)
  | op d =>
    cases h
    exact .symbol (by cases d <;> decide)

theorem Renders.nil : Renders [] [] := ⟨[], [], rfl, .nil, fun _ h => nomatch h⟩

theorem Renders.blank (hc : Text.isBlank c = true) (h : Renders ts cs) : Renders ts (c :: cs) := by
  obtain ⟨pieces, final, rfl, hpieces, hfinal⟩ := h
  cases hpieces with
  | nil => exact ⟨[], c :: final, rfl, .nil, List.forall_mem_cons.mpr ⟨hc, hfinal⟩⟩
  | @cons _ piece _ pieces hpiece hpieces =>
    -- the blank goes with those in front of the first character
    have hpiece : WrittenAs _ (c :: piece.1, piece.2) :=
      ⟨List.forall_mem_cons.mpr ⟨hc, hpiece.blanks⟩, hpiece.sign⟩
    exact ⟨(c :: piece.1, piece.2) :: pieces, final, rfl, .cons hpiece hpieces, hfinal⟩

theorem Renders.cons (hc : WrittenBy t c) (h : Renders ts cs) : Renders (t :: ts) (c :: cs) := by
  obtain ⟨pieces, final, rfl, hpieces, hfinal⟩ := h
  have hpiece : WrittenAs t ([], c) := ⟨fun _ h => (nomatch h), hc⟩
  exact ⟨([], c) :: pieces, final, rfl, .cons hpiece hpieces, hfinal⟩

theorem Spells.renders (h : Spells a ts cs) : Renders ts cs := by
  induction h with
  | nil => exact .nil
  | blank hc _ ih => exact ih.blank hc
  | cons hc _ ih => exact ih.cons (spelledBy_iff.mp hc).1

theorem spells_of_pieces {pieces : List (List Char × Char)} (h : List.Forall₂ WrittenAs ts pieces)
    (ha : ∀ v, .var v ∈ ts → a.contains v.name = true) :
    Spells a ts (pieces.flatMap fun piece => piece.1 ++ [piece.2]) := by
  induction h with
  | nil => exact .nil
  | @cons t piece ts pieces hpiece _ ih =>
    have ht : ∀ v, t = .var v → a.contains v.name = true := fun v hv =>
      ha v (List.mem_cons.mpr (.inl hv.symm))
    have hblanks : Spells a [] piece.1 := Spells.nil_iff.mpr hpiece.blanks
    have hsign : Spells a [t] [piece.2] := .cons (spelledBy_iff.mpr ⟨hpiece.sign, ht⟩) .nil
    have hrest := ih fun v hv => ha v (List.mem_cons_of_mem _ hv)
    exact (hblanks.append hsign).append hrest

/-- **A text spells tokens if it is a text of these tokens** and the alphabet has their variables.
-/
theorem spells_iff :
    Spells a ts cs ↔ (∀ v, .var v ∈ ts → a.contains v.name = true) ∧ Renders ts cs := by
  constructor
  · exact fun h => ⟨fun v hv => ((h.var_mem_iff v).mp hv).2, h.renders⟩
  · rintro ⟨ha, pieces, final, rfl, hpieces, hfinal⟩
    have h := (spells_of_pieces hpieces ha).append (Spells.nil_iff.mpr hfinal)
    rwa [List.append_nil] at h

/-! ### Two texts -/

/-- **The scan of a text that goes on**: the second part is scanned from where the first one ends.
-/
theorem scanFrom_append (ds : List Char) : ∀ (cs : List Char) (k : Nat),
    scanFrom a k (cs ++ ds) = (do
      let ts ← scanFrom a k cs
      let us ← scanFrom a (k + cs.length) ds
      return ts ++ us)
  | [], k => by
    change scanFrom a k ds = (scanFrom a k ds).bind pure
    cases scanFrom a k ds <;> rfl
  | c :: cs, k => by
    have hlength : k + (c :: cs).length = k + 1 + cs.length := by
      rw [List.length_cons]
      omega
    rw [List.cons_append, hlength]
    rcases char_cases a c with hc | ⟨t, hc⟩ | hc
    · rw [scanFrom_blank hc, scanFrom_blank hc, scanFrom_append ds cs]
    · rw [scanFrom_spelled hc, scanFrom_spelled hc, scanFrom_append ds cs]
      cases scanFrom a (k + 1) cs with
      | error e => rfl
      | ok ts => cases scanFrom a (k + 1 + cs.length) ds <;> rfl
    · rw [scanFrom_unreadable hc, scanFrom_unreadable hc]
      rfl

theorem scanFrom_add (n : Nat) : ∀ (cs : List Char) (k : Nat),
    scanFrom a (n + k) cs = (scanFrom a k cs).mapError (.shift n)
  | [], _ => rfl
  | c :: cs, k => by
    rcases char_cases a c with hc | ⟨t, hc⟩ | hc
    · rw [scanFrom_blank hc, scanFrom_blank hc, Nat.add_assoc, scanFrom_add n cs]
    · rw [scanFrom_spelled hc, scanFrom_spelled hc, Nat.add_assoc, scanFrom_add n cs]
      cases scanFrom a (k + 1) cs <;> rfl
    · rw [scanFrom_unreadable hc, scanFrom_unreadable hc]
      rfl

theorem scan_append (x y : String) :
    scan a (x ++ y) = (do
      let ts ← scan a x
      let us ← (scan a y).mapError (.shift x.length)
      return ts ++ us) := by
  unfold scan
  rw [String.toList_append, scanFrom_append, Nat.zero_add, String.length_toList,
    ← scanFrom_add x.length y.toList 0, Nat.add_zero]

/-- **The scan decodes what tokens can be written as.** A text has the tokens `ts` just if the
alphabet has their variables and the text consists of one character for each token, in their order,
and of blanks; the printed character of a token is one of those that it can have. Any other text is
refused for its first character that is neither a blank nor a letter of the alphabet nor a known
symbol. Two texts in a row have the tokens of both in a row, or they are refused for the character
that the first one is refused for, or else for that of the second one with all characters of the
first one before it. -/
theorem scan_decodes (a : Alphabet) :
    (∀ (text : String) (ts : List Token), scan a text = .ok ts ↔
      (∀ v, .var v ∈ ts → a.contains v.name = true) ∧ Renders ts text.toList) ∧
    (∀ (t : Token) (g : Char), t.kind.glyph? = some g → WrittenBy t g) ∧
    (∀ (text : String) (e : UnknownSymbol),
      scan a text = .error e ↔ FirstUnreadable a text.toList e) ∧
    ∀ x y : String, scan a (x ++ y) =
      match scan a x, scan a y with
      | .error e, _ => .error e
      | .ok _, .error e => .error ⟨e.symbol, x.length + e.position⟩
      | .ok ts, .ok us => .ok (ts ++ us) := by
  refine ⟨fun text ts => ?_, fun _ _ => writtenBy_of_glyph?, fun _ _ => scan_eq_error_iff, ?_⟩
  · rw [scan_eq_ok_iff, spells_iff]
  · intro x y
    rw [scan_append]
    cases scan a x with
    | error e => rfl
    | ok ts => cases scan a y <;> rfl

/-- In pieces, a text has its tokens; the ampersand is the third character of another text, and if
this one follows the first, the four characters of the first one stand before it as well. -/
theorem scan_decodes_ampersand :
    Renders [.not, .var ⟨'A', rfl⟩] "∼ A ".toList ∧
      scan .classic "∼ A " = .ok [.not, .var ⟨'A', rfl⟩] ∧
      (Kind.op .iff).glyph? = some '↔' ∧ WrittenBy (.op .iff) '↔' ∧
      scan .classic "↔ &" = .error ⟨'&', 2⟩ ∧
      scan .classic ("∼ A " ++ "↔ &") = .error ⟨'&', 6⟩ := by
  have hblank : ∀ c ∈ [' '], Text.isBlank c = true := List.forall_mem_singleton.mpr (by decide)
  have hnot : WrittenAs .not ([], '∼') := ⟨fun _ h => (nomatch h), .symbol (by decide)⟩
  have hvar : WrittenAs (.var ⟨'A', rfl⟩) ([' '], 'A') := ⟨hblank, .letter ⟨'A', rfl⟩⟩
  have hrenders : Renders [.not, .var ⟨'A', rfl⟩] "∼ A ".toList :=
    ⟨[([], '∼'), ([' '], 'A')], [' '], by decide, .cons hnot (.cons hvar .nil), hblank⟩
  have hletters : ∀ v, .var v ∈ [Token.not, .var ⟨'A', rfl⟩] →
      Alphabet.classic.contains v.name = true := by
    intro v hv
    obtain rfl : v = ⟨'A', rfl⟩ := by simpa using hv
    decide
  have hy : scan .classic "↔ &" = .error ⟨'&', 2⟩ := by decide +kernel
  obtain ⟨hok, hglyph, -, happend⟩ := scan_decodes .classic
  have hx := (hok _ _).mpr ⟨hletters, hrenders⟩
  refine ⟨hrenders, hx, rfl, hglyph (.op .iff) _ rfl, hy, ?_⟩
  rw [happend, hx, hy]
  rfl

end Token

end Sentential
