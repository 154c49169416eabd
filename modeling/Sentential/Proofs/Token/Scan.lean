import Mathlib.Data.Finset.Card
import Mathlib.Data.List.TakeWhile
import Sentential.Token.Spelling

/-!
# What is scanned from a text

A character is readable if it is a blank, a letter of the alphabet or a known symbol. A text is
scanned if all its characters are readable, and then its tokens are those that it spells
(`scanFrom_eq_ok_iff`); otherwise the first character that is not readable is reported with its
place (`scanFrom_eq_error_iff`). The variables of the tokens are the letters of the text
(`length_vars_of_spells`).
-/

namespace Sentential

theorem Text.trim_eq_nil_iff {cs : List Char} :
    Text.trim cs = [] ↔ ∀ c ∈ cs, Text.isBlank c = true := by
  rw [Text.trim, List.reverse_eq_nil_iff, List.dropWhile_eq_nil_iff]
  simp only [List.mem_reverse]
  constructor
  · intro h c hc
    rw [← List.takeWhile_append_dropWhile (p := Text.isBlank) (l := cs)] at hc
    rcases List.mem_append.mp hc with hc | hc
    · exact List.mem_takeWhile_imp hc
    · exact h c hc
  · intro h c hc
    exact h c ((List.dropWhile_sublist _).subset hc)

namespace Token

/-- The character is a blank, a letter of the alphabet or a known symbol. -/
def Readable (a : Alphabet) (c : Char) : Prop :=
  Text.isBlank c = true ∨ a.contains c = true ∨ ∃ t, (c, t) ∈ spellings

/-- The symbol stands at its position, and it is the first character that is not readable. -/
structure FirstUnreadable (a : Alphabet) (cs : List Char) (e : UnknownSymbol) : Prop where
  here : cs[e.position]? = some e.symbol
  unreadable : ¬ Readable a e.symbol
  before : ∀ i < e.position, ∀ c, cs[i]? = some c → Readable a c

/-! ### One character -/

theorem ofSymbol?_eq_some_iff {c : Char} {t : Token} :
    ofSymbol? c = some t ↔ (c, t) ∈ spellings := by
  constructor
  · intro h
    obtain ⟨l₁, l₂, h, -⟩ := List.lookup_eq_some_iff.mp h
    rw [h]
    simp
  · have h : ∀ x ∈ spellings, ofSymbol? x.1 = some x.2 := by decide
    exact h (c, t)

theorem not_isUpper_of_mem_spellings {c : Char} {t : Token} (h : (c, t) ∈ spellings) :
    c.isUpper = false := by
  have h' : ∀ x ∈ spellings, x.1.isUpper = false := by decide
  exact h' (c, t) h

theorem not_isBlank_of_mem_spellings {c : Char} {t : Token} (h : (c, t) ∈ spellings) :
    Text.isBlank c = false := by
  have h' : ∀ x ∈ spellings, Text.isBlank x.1 = false := by decide
  exact h' (c, t) h

variable {a : Alphabet} {c : Char} {cs ds : List Char} {t : Token} {ts us : List Token}
  {k : Nat}

theorem SpelledBy.ofChar? (h : SpelledBy a t c) : ofChar? a c = some t := by
  unfold Token.ofChar?
  cases h with
  | letter h => rw [Alphabet.letter?_eq_some_iff.mpr ⟨h, rfl⟩]
  | symbol h =>
    have hc : a.contains c = false := by
      by_contra hc
      have := Alphabet.isUpper_of_contains (Bool.eq_true_of_not_eq_false hc)
      rw [not_isUpper_of_mem_spellings h] at this
      cases this
    rw [Alphabet.letter?_eq_none_iff.mpr hc]
    exact ofSymbol?_eq_some_iff.mpr h

theorem SpelledBy.not_isBlank (h : SpelledBy a t c) : Text.isBlank c = false := by
  cases h with
  | @letter v h =>
    by_contra hb
    have := Text.isUpper_eq_false_of_isBlank (Bool.eq_true_of_not_eq_false hb)
    rw [v.isUpper] at this
    cases this
  | symbol h => exact not_isBlank_of_mem_spellings h

theorem SpelledBy.readable (h : SpelledBy a t c) : Readable a c := by
  cases h with
  | letter h => exact .inr (.inl h)
  | symbol h => exact .inr (.inr ⟨_, h⟩)

theorem SpelledBy.eq_var_iff (h : SpelledBy a t c) (v : Variable) :
    .var v = t ↔ v.name = c ∧ a.contains v.name = true := by
  cases h with
  | @letter w h =>
    constructor
    · rintro ⟨⟩
      exact ⟨rfl, h⟩
    · rintro ⟨he, -⟩
      rw [Variable.ext_name he]
  | symbol h =>
    constructor
    · rintro rfl
      exact absurd (ofSymbol?_eq_some_iff.mpr h) ofSymbol?_ne_var
    · rintro ⟨rfl, -⟩
      have := not_isUpper_of_mem_spellings h
      rw [v.isUpper] at this
      cases this

theorem ofChar?_eq_none (h : ¬ Readable a c) : ofChar? a c = none := by
  unfold ofChar?
  have hc : a.contains c = false := Bool.eq_false_iff.mpr fun hc => h (.inr (.inl hc))
  rw [Alphabet.letter?_eq_none_iff.mpr hc]
  cases hs : ofSymbol? c with
  | none => rfl
  | some t => exact absurd (.inr (.inr ⟨t, ofSymbol?_eq_some_iff.mp hs⟩)) h

theorem char_cases (a : Alphabet) (c : Char) :
    Text.isBlank c = true ∨ (∃ t, SpelledBy a t c) ∨ ¬ Readable a c := by
  by_cases h : Readable a c
  · rcases h with h | h | ⟨t, h⟩
    · exact .inl h
    · exact .inr (.inl ⟨_, .letter (v := ⟨c, Alphabet.isUpper_of_contains h⟩) h⟩)
    · exact .inr (.inl ⟨t, .symbol h⟩)
  · exact .inr (.inr h)

/-! ### One step of the scan -/

theorem scanFrom_blank (h : Text.isBlank c = true) :
    scanFrom a k (c :: cs) = scanFrom a (k + 1) cs := by
  rw [scanFrom, if_pos h]

theorem scanFrom_spelled (h : SpelledBy a t c) :
    scanFrom a k (c :: cs) = (scanFrom a (k + 1) cs).map (t :: ·) := by
  have hb := h.not_isBlank
  rw [scanFrom, if_neg (by rw [hb]; decide), h.ofChar?]

theorem scanFrom_unreadable (h : ¬ Readable a c) : scanFrom a k (c :: cs) = .error ⟨c, k⟩ := by
  rw [scanFrom, if_neg fun hb => h (.inl hb), ofChar?_eq_none h]

/-! ### A whole text -/

/-- **The scan reads what the text spells.** -/
theorem scanFrom_eq_ok_iff : ∀ {cs : List Char} {ts : List Token} {k : Nat},
    scanFrom a k cs = .ok ts ↔ Spells a ts cs
  | [], ts, k => by
    constructor
    · intro h
      cases h
      exact .nil
    · intro h
      cases h
      rfl
  | c :: cs, ts, k => by
    rcases char_cases a c with hc | ⟨t, hc⟩ | hc
    · rw [scanFrom_blank hc, scanFrom_eq_ok_iff]
      refine ⟨.blank hc, fun h => ?_⟩
      cases h with
      | blank _ h => exact h
      | cons h' _ =>
        rw [h'.not_isBlank] at hc
        cases hc
    · rw [scanFrom_spelled hc]
      constructor
      · intro h
        cases hs : scanFrom a (k + 1) cs with
        | error e => rw [hs] at h; cases h
        | ok us =>
          rw [hs] at h
          cases h
          exact .cons hc (scanFrom_eq_ok_iff.mp hs)
      · intro h
        cases h with
        | blank h' _ =>
          rw [hc.not_isBlank] at h'
          cases h'
        | cons h' h =>
          have he : _ = some t := hc.ofChar?
          rw [h'.ofChar?] at he
          cases he
          rw [scanFrom_eq_ok_iff.mpr h]
          rfl
    · rw [scanFrom_unreadable hc]
      constructor
      · intro h
        cases h
      · intro h
        cases h with
        | blank h _ => exact absurd (.inl h) hc
        | cons h _ => exact absurd h.readable hc

theorem FirstUnreadable.cons_iff {d : Char} {i : Nat} (hc : Readable a c) :
    FirstUnreadable a (c :: cs) ⟨d, i⟩ ↔ ∃ j, i = j + 1 ∧ FirstUnreadable a cs ⟨d, j⟩ := by
  constructor
  · rintro ⟨here, unreadable, before⟩
    cases i with
    | zero =>
      cases here
      exact absurd hc unreadable
    | succ j =>
      exact ⟨j, rfl, here, unreadable, fun i hi => before (i + 1) (Nat.succ_lt_succ hi)⟩
  · rintro ⟨j, rfl, here, unreadable, before⟩
    refine ⟨here, unreadable, fun i hi d hd => ?_⟩
    cases i with
    | zero =>
      cases hd
      exact hc
    | succ i => exact before i (Nat.lt_of_succ_lt_succ hi) d hd

/-- **The scan reports the first character that is not readable.** -/
theorem scanFrom_eq_error_iff : ∀ {cs : List Char} {e : UnknownSymbol} {k : Nat},
    scanFrom a k cs = .error e ↔ ∃ i, e.position = k + i ∧ FirstUnreadable a cs ⟨e.symbol, i⟩
  | [], e, k => by
    constructor
    · intro h
      cases h
    · rintro ⟨i, -, h⟩
      cases h.here
  | c :: cs, e, k => by
    have hstep : Readable a c → (scanFrom a (k + 1) cs = .error e ↔
        ∃ i, e.position = k + i ∧ FirstUnreadable a (c :: cs) ⟨e.symbol, i⟩) := by
      intro hc
      rw [scanFrom_eq_error_iff]
      simp only [FirstUnreadable.cons_iff hc]
      constructor
      · rintro ⟨i, hi, h⟩
        exact ⟨i + 1, by omega, i, rfl, h⟩
      · rintro ⟨_, hi, j, rfl, h⟩
        exact ⟨j, by omega, h⟩
    rcases char_cases a c with hc | ⟨t, hc⟩ | hc
    · rw [scanFrom_blank hc]
      exact hstep (.inl hc)
    · rw [scanFrom_spelled hc, ← hstep hc.readable]
      cases scanFrom a (k + 1) cs with
      | error e' => exact Iff.rfl
      | ok us =>
        constructor
        · intro h
          cases h
        · intro h
          cases h
    · rw [scanFrom_unreadable hc]
      constructor
      · intro h
        cases h
        refine ⟨0, rfl, rfl, hc, fun i hi => ?_⟩
        exact absurd hi (Nat.not_lt_zero i)
      · rintro ⟨i, hi, here, unreadable, before⟩
        cases i with
        | zero =>
          cases here
          cases e
          simp_all
        | succ i => exact absurd (before 0 (Nat.succ_pos i) c rfl) hc

theorem scan_eq_ok_iff {text : String} : scan a text = .ok ts ↔ Spells a ts text.toList :=
  scanFrom_eq_ok_iff

theorem scan_eq_error_iff {text : String} {e : UnknownSymbol} :
    scan a text = .error e ↔ FirstUnreadable a text.toList e := by
  unfold scan
  rw [scanFrom_eq_error_iff]
  constructor
  · rintro ⟨i, hi, h⟩
    rw [Nat.zero_add] at hi
    rwa [← hi] at h
  · intro h
    exact ⟨e.position, (Nat.zero_add _).symm, h⟩

theorem FirstUnreadable.exists_mem {e : UnknownSymbol} (h : FirstUnreadable a cs e) :
    ∃ c ∈ cs, ¬ Readable a c :=
  ⟨e.symbol, List.mem_of_getElem? h.here, h.unreadable⟩

/-! ### Spelled texts -/

namespace Spells

theorem append (h : Spells a ts cs) (h' : Spells a us ds) : Spells a (ts ++ us) (cs ++ ds) := by
  induction h with
  | nil => exact h'
  | blank hc _ ih => exact .blank hc ih
  | cons hc _ ih => exact .cons hc ih

theorem readable (h : Spells a ts cs) : ∀ c ∈ cs, Readable a c := by
  induction h with
  | nil => exact fun _ h => nomatch h
  | blank hc _ ih => exact List.forall_mem_cons.mpr ⟨.inl hc, ih⟩
  | cons hc _ ih => exact List.forall_mem_cons.mpr ⟨hc.readable, ih⟩

theorem nil_iff : Spells a [] cs ↔ ∀ c ∈ cs, Text.isBlank c = true := by
  constructor
  · intro h
    generalize hts : ([] : List Token) = ts at h
    induction h with
    | nil => exact fun _ h => nomatch h
    | blank hc _ ih => exact List.forall_mem_cons.mpr ⟨hc, ih hts⟩
    | cons => cases hts
  · intro h
    induction cs with
    | nil => exact .nil
    | cons c cs ih =>
      obtain ⟨hc, hcs⟩ := List.forall_mem_cons.mp h
      exact .blank hc (ih hcs)

theorem var_mem_iff (h : Spells a ts cs) (v : Variable) :
    .var v ∈ ts ↔ v.name ∈ cs ∧ a.contains v.name = true := by
  induction h with
  | nil => simp
  | @blank ts c cs hc _ ih =>
    have hne : v.name ≠ c := by
      rintro rfl
      have := Text.isUpper_eq_false_of_isBlank hc
      rw [v.isUpper] at this
      cases this
    rw [ih, List.mem_cons, or_iff_right hne]
  | cons hc _ ih =>
    rw [List.mem_cons, List.mem_cons, ih, hc.eq_var_iff, ← or_and_right]

end Spells

theorem exists_scan_iff {text : String} :
    (∃ ts, scan a text = .ok ts) ↔ ∀ c ∈ text.toList, Readable a c := by
  constructor
  · rintro ⟨ts, h⟩
    exact (scan_eq_ok_iff.mp h).readable
  · intro h
    cases hscan : scan a text with
    | ok ts => exact ⟨ts, rfl⟩
    | error e =>
      obtain ⟨c, hc, hunreadable⟩ := (scan_eq_error_iff.mp hscan).exists_mem
      exact absurd (h c hc) hunreadable

/-- The letters of the alphabet that the text has. -/
def letters (a : Alphabet) (cs : List Char) : Finset Char := (cs.filter (a.contains ·)).toFinset

theorem length_vars_of_spells (h : Spells a ts cs) : (vars ts).length = (letters a cs).card := by
  have hnodup : ((vars ts).map (·.name)).Nodup :=
    (Variable.nodup_ascending _).map fun v w hvw => Variable.ext_name hvw
  have hset : ((vars ts).map (·.name)).toFinset = letters a cs := by
    ext c
    simp only [letters, List.mem_toFinset, List.mem_map, List.mem_filter, mem_vars, h.var_mem_iff]
    constructor
    · rintro ⟨v, hv, rfl⟩
      exact hv
    · rintro ⟨hc, ha⟩
      exact ⟨⟨c, Alphabet.isUpper_of_contains ha⟩, ⟨hc, ha⟩, rfl⟩
  rw [← hset, List.toFinset_card_of_nodup hnodup, List.length_map]

theorem vars_eq_nil_iff (h : Spells a ts cs) : vars ts = [] ↔ letters a cs = ∅ := by
  rw [← List.length_eq_zero_iff, length_vars_of_spells h, Finset.card_eq_zero]

theorem vars_ne_nil_iff (h : Spells a ts cs) : vars ts ≠ [] ↔ (letters a cs).Nonempty := by
  rw [Ne, vars_eq_nil_iff h, Finset.nonempty_iff_ne_empty]

end Token

end Sentential
