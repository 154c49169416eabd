import Sentential.Proofs.Table.Agreement
import Sentential.Proofs.Table.Outcome
import Sentential.Proofs.Token.Alphabet
import Sentential.Proofs.Token.Canonical

/-!
# What the outcome for a text depends on

Once a text has been scanned, its tokens decide what comes of it (`ofText_congr`). So it does not
matter how the tokens are spelled and where blanks stand (`ofText_of_canonical`), and options do no
more than let a table pass or refuse it (`options_only_filter`): with less strict ones a text has
the same table, and with stricter ones it has this table or is refused for a letter or for the
number of its variables.
-/

namespace Sentential.Table

variable {o : Options} {x y text : String} {ts : List Token} {t : Table}

/-! ### Tokens -/

/-- **The tokens decide the outcome.** -/
theorem ofText_congr (hx : Token.scan o.alphabet x = .ok ts)
    (hy : Token.scan o.alphabet y = .ok ts) :
    ofText o x = ofText o y := by
  have hblank : Text.trim x.toList = [] ↔ Text.trim y.toList = [] := by
    rw [Generation.trim_eq_nil_iff_scan (a := o.alphabet), hx,
      Generation.trim_eq_nil_iff_scan (a := o.alphabet), hy]
  obtain ⟨events, hway⟩ := ofText_eq_iff.mp (rfl : ofText o x = ofText o x)
  refine (ofText_eq_iff.mpr ?_).symm
  generalize ofText o x = out at hway
  -- each way of generation is open to the other text as well
  cases hway with
  | blank h => exact ⟨_, .blank (hblank.mp h)⟩
  | unreadable _ hscan => exact absurd (hx.symm.trans hscan) (fun h => nomatch h)
  | noVariables h hscan hvars =>
    obtain rfl := Except.ok.inj (hx.symm.trans hscan)
    exact ⟨_, .noVariables (fun he => h (hblank.mpr he)) hy hvars⟩
  | tooManyVariables hscan hlength =>
    obtain rfl := Except.ok.inj (hx.symm.trans hscan)
    exact ⟨_, .tooManyVariables hy hlength⟩
  | unparsable hscan hvars hlength hparse =>
    obtain rfl := Except.ok.inj (hx.symm.trans hscan)
    exact ⟨_, .unparsable hy hvars hlength hparse⟩
  | parsed hscan hlength hparse =>
    obtain rfl := Except.ok.inj (hx.symm.trans hscan)
    exact ⟨_, .parsed hy hlength hparse⟩

theorem ofText_of_scan_error {e : UnknownSymbol} (h : Token.scan o.alphabet text = .error e) :
    ofText o text = .error (.rejected (.unreadable e)) :=
  ofText_eq_unreadable_iff.mpr (Token.scan_eq_error_iff.mp h)

/-! ### Spellings -/

/-- **Spelling does not matter.** Two texts that are equal without their blanks and with the printed
character for each shorthand have the same tokens and the same outcome; or both are unreadable, for
the same occurrence of a symbol, and each text is told the place in itself. Without a difference in
blanks, the place is the same. -/
theorem ofText_of_canonical (o : Options) (x y : String)
    (h : Token.canonical x.toList = Token.canonical y.toList) :
    ((∃ ts, Token.scan o.alphabet x = .ok ts ∧ Token.scan o.alphabet y = .ok ts ∧
        ofText o x = ofText o y) ∨
      ∃ d e, Token.scan o.alphabet x = .error d ∧ Token.scan o.alphabet y = .error e ∧
        ofText o x = .error (.rejected (.unreadable d)) ∧
        ofText o y = .error (.rejected (.unreadable e)) ∧
        Token.SameOccurrence x.toList y.toList d e) ∧
    (x.toList.map Token.canonicalChar = y.toList.map Token.canonicalChar →
      Token.scan o.alphabet x = Token.scan o.alphabet y ∧ ofText o x = ofText o y) := by
  constructor
  · rcases Token.scan_of_canonical (a := o.alphabet) h with ⟨ts, hx, hy⟩ | ⟨d, e, hx, hy, hsame⟩
    · exact .inl ⟨ts, hx, hy, ofText_congr hx hy⟩
    · exact .inr ⟨d, e, hx, hy, ofText_of_scan_error hx, ofText_of_scan_error hy, hsame⟩
  · intro hmap
    have hscan : Token.scan o.alphabet x = Token.scan o.alphabet y := Token.scan_eq_of_map hmap
    refine ⟨hscan, ?_⟩
    rcases hx : Token.scan o.alphabet x with e | ts
    · rw [ofText_of_scan_error hx, ofText_of_scan_error (hscan ▸ hx)]
    · exact ofText_congr hx (hscan ▸ hx)

/-- The same ampersand is the fifth character of one text and the third of the other. -/
theorem ofText_of_canonical_ampersand :
    Token.canonical "A v &".toList = Token.canonical "A∨&".toList ∧
      ofText .standard "A v &" = .error (.rejected (.unreadable ⟨'&', 4⟩)) ∧
      ofText .standard "A∨&" = .error (.rejected (.unreadable ⟨'&', 2⟩)) ∧
      Token.SameOccurrence "A v &".toList "A∨&".toList ⟨'&', 4⟩ ⟨'&', 2⟩ := by
  have h : Token.canonical "A v &".toList = Token.canonical "A∨&".toList := by decide
  have hd : Token.scan (Options.standard).alphabet "A v &" = .error ⟨'&', 4⟩ := by decide +kernel
  have he : Token.scan (Options.standard).alphabet "A∨&" = .error ⟨'&', 2⟩ := by decide +kernel
  refine ⟨h, ?_⟩
  rcases (ofText_of_canonical .standard _ _ h).1 with ⟨ts, hx, -⟩ | ⟨d, e, hx, hy, hd', he', hsame⟩
  · rw [hd] at hx
    exact nomatch hx
  · rw [hd] at hx
    rw [he] at hy
    obtain rfl := Except.error.inj hx
    obtain rfl := Except.error.inj hy
    exact ⟨hd', he', hsame⟩

/-! ### Options -/

theorem ofText_mono {o' : Options}
    (halphabet : ∀ c, o.alphabet.contains c = true → o'.alphabet.contains c = true)
    (hmax : o.maxVariables ≤ o'.maxVariables) (h : ofText o text = .ok t) :
    ofText o' text = .ok t := by
  obtain ⟨ts, f, hscan, hparse, hlength, ht⟩ := ofText_eq_ok_iff.mp h
  have hscan' := Token.scan_mono halphabet hscan
  exact ofText_eq_ok_iff.mpr ⟨ts, f, hscan', hparse, Nat.le_trans hlength hmax, ht⟩

theorem ofText_outside {o' : Options} (h : ofText o' text = .ok t)
    (hout : ∃ v ∈ t.vars, o.alphabet.contains v.name = false) :
    ∃ e, Token.FirstOutside o.alphabet text.toList e ∧
      ofText o text = .error (.rejected (.unreadable e)) := by
  obtain ⟨ts, f, hscan, hparse, -, rfl⟩ := ofText_eq_ok_iff.mp h
  have hvars : Token.vars ts = (full f.vars f).vars := vars_eq_of_parse hparse
  rw [← hvars] at hout
  obtain ⟨e, he, herror⟩ := Token.scan_outside hscan hout
  exact ⟨e, he, ofText_of_scan_error herror⟩

theorem ofText_inside {o' : Options} (h : ofText o' text = .ok t)
    (hin : ∀ v ∈ t.vars, o.alphabet.contains v.name = true) :
    ofText o text =
      if o.maxVariables < t.vars.length then
        .error (.rejected (.tooManyVariables t.vars.length o.maxVariables))
      else .ok t := by
  obtain ⟨ts, f, hscan, hparse, -, rfl⟩ := ofText_eq_ok_iff.mp h
  have hvars : Token.vars ts = (full f.vars f).vars := vars_eq_of_parse hparse
  rw [← hvars] at hin
  exact ofText_of_parse (Token.scan_restrict hscan hin) hparse

theorem maxVariables_of_ofLimit {a : Alphabet} {m : Nat} (h : Options.ofLimit a m = .ok o) :
    o.alphabet = a ∧ o.maxVariables = m := by
  obtain ⟨-, hle, rfl⟩ := Options.ofLimit_eq_ok_iff.mp h
  exact ⟨rfl, Nat.min_eq_left hle⟩

/-- **Options only filter.** A text that has a table has it with a wider alphabet and a higher limit
as well. With a narrower alphabet it is refused for its first letter that this alphabet lacks, if a
variable of the table is lacking; otherwise with a lower limit it is refused for its variables, if
these are too many; otherwise it has the same table. -/
theorem options_only_filter (a b : Alphabet) (m m' : Nat) (o o' : Options) (text : String)
    (hab : ∀ c, a.contains c = true → b.contains c = true) (hm : m ≤ m')
    (ho : Options.ofLimit a m = .ok o) (ho' : Options.ofLimit b m' = .ok o') :
    (∀ t, ofText o text = .ok t → ofText o' text = .ok t) ∧
    ∀ t, ofText o' text = .ok t →
      ((∃ v ∈ t.vars, a.contains v.name = false) →
        ∃ e, Token.FirstOutside a text.toList e ∧
          ofText o text = .error (.rejected (.unreadable e))) ∧
      ((∀ v ∈ t.vars, a.contains v.name = true) →
        ofText o text =
          if m < t.vars.length then .error (.rejected (.tooManyVariables t.vars.length m))
          else .ok t) := by
  obtain ⟨rfl, rfl⟩ := maxVariables_of_ofLimit ho
  obtain ⟨rfl, rfl⟩ := maxVariables_of_ofLimit ho'
  exact ⟨fun _ => ofText_mono hab hm, fun _ h => ⟨ofText_outside h, ofText_inside h⟩⟩

/-- From the letters A to D and two variables to all letters and six of them, and back. -/
theorem options_only_filter_classic :
    let o : Options := ⟨.classic, 2⟩
    let o' : Options := ⟨.full, 6⟩
    Options.ofLimit .classic 2 = .ok o ∧ Options.ofLimit .full 6 = .ok o' ∧
      (∃ t, ofText o "A ∧ D" = .ok t ∧ ofText o' "A ∧ D" = .ok t) ∧
      (∃ e, Token.FirstOutside .classic "A ∧ E".toList e ∧
        ofText o "A ∧ E" = .error (.rejected (.unreadable e))) ∧
      ofText o "A ∧ B ∧ C" = .error (.rejected (.tooManyVariables 3 2)) := by
  intro o o'
  have hab : ∀ c, Alphabet.classic.contains c = true → Alphabet.full.contains c = true := by
    intro c hc
    rw [Alphabet.contains_full]
    exact Alphabet.isUpper_of_contains hc
  have hfilter := fun text =>
    options_only_filter .classic .full 2 6 o o' text hab (by decide) (by decide) (by decide)
  have hpair : ofText o "A ∧ D" = .ok (full [⟨'A', rfl⟩, ⟨'D', rfl⟩]
      (.binary .and (.var ⟨'A', rfl⟩) (.var ⟨'D', rfl⟩))) := by decide +kernel
  have hother : ofText o' "A ∧ E" = .ok (full [⟨'A', rfl⟩, ⟨'E', rfl⟩]
      (.binary .and (.var ⟨'A', rfl⟩) (.var ⟨'E', rfl⟩))) := by decide +kernel
  have hthree : ofText o' "A ∧ B ∧ C" = .ok (full [⟨'A', rfl⟩, ⟨'B', rfl⟩, ⟨'C', rfl⟩]
      (.binary .and (.binary .and (.var ⟨'A', rfl⟩) (.var ⟨'B', rfl⟩)) (.var ⟨'C', rfl⟩))) := by
    decide +kernel
  refine ⟨by decide, by decide, ⟨_, hpair, (hfilter _).1 _ hpair⟩, ?_, ?_⟩
  · exact ((hfilter _).2 _ hother).1 ⟨⟨'E', rfl⟩, by decide, by decide⟩
  · exact ((hfilter _).2 _ hthree).2 (by decide)

end Sentential.Table
