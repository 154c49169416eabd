import Sentential.Proofs.Token.Scan

/-!
# One text with two alphabets

A wider alphabet reads more texts, and no text in another way (`scan_mono`). With a narrower one a
text has the same tokens as long as its letters are there (`scan_restrict`); if one of them is
missing, the text is refused for the first uppercase letter that the alphabet lacks
(`scan_outside`).
-/

namespace Sentential.Token

variable {a b : Alphabet} {c : Char} {cs : List Char} {t : Token} {ts : List Token} {text : String}

/-- The symbol stands at its position, and it is the first uppercase letter that the alphabet lacks.
-/
structure FirstOutside (a : Alphabet) (cs : List Char) (e : UnknownSymbol) : Prop where
  here : cs[e.position]? = some e.symbol
  isUpper : e.symbol.isUpper = true
  outside : a.contains e.symbol = false
  before : ∀ i < e.position, ∀ c, cs[i]? = some c → c.isUpper = true → a.contains c = true

/-! ### Wider alphabets -/

theorem SpelledBy.mono (hab : ∀ c, a.contains c = true → b.contains c = true)
    (h : SpelledBy a t c) : SpelledBy b t c := by
  rcases h with h | h
  · exact .letter (hab _ h)
  · exact .symbol h

theorem Spells.mono (hab : ∀ c, a.contains c = true → b.contains c = true)
    (h : Spells a ts cs) : Spells b ts cs := by
  induction h with
  | nil => exact .nil
  | blank hc _ ih => exact .blank hc ih
  | cons hc _ ih => exact .cons (hc.mono hab) ih

theorem scan_mono (hab : ∀ c, a.contains c = true → b.contains c = true)
    (h : scan a text = .ok ts) : scan b text = .ok ts :=
  scan_eq_ok_iff.mpr ((scan_eq_ok_iff.mp h).mono hab)

/-! ### Narrower alphabets -/

theorem SpelledBy.restrict (h : SpelledBy b t c)
    (ha : ∀ v, t = .var v → a.contains v.name = true) : SpelledBy a t c := by
  rcases h with h | h
  · exact .letter (ha _ rfl)
  · exact .symbol h

theorem Spells.restrict (h : Spells b ts cs)
    (ha : ∀ v, .var v ∈ ts → a.contains v.name = true) : Spells a ts cs := by
  induction h with
  | nil => exact .nil
  | blank hc _ ih => exact .blank hc (ih ha)
  | cons hc _ ih =>
    refine .cons (hc.restrict fun v hv => ha v ?_) (ih fun v hv => ha v (List.mem_cons_of_mem _ hv))
    rw [hv]
    exact List.mem_cons_self ..

theorem scan_restrict (h : scan b text = .ok ts)
    (ha : ∀ v ∈ vars ts, a.contains v.name = true) : scan a text = .ok ts :=
  scan_eq_ok_iff.mpr ((scan_eq_ok_iff.mp h).restrict fun v hv => ha v (mem_vars.mpr hv))

theorem Readable.contains (h : Readable a c) (hc : c.isUpper = true) : a.contains c = true := by
  rcases h with hb | h | ⟨t, ht⟩
  · rw [Text.isUpper_eq_false_of_isBlank hb] at hc
    exact absurd hc (by decide)
  · exact h
  · rw [not_isUpper_of_mem_spellings ht] at hc
    exact absurd hc (by decide)

/-- What another alphabet reads can be unreadable only as a letter. -/
theorem FirstUnreadable.firstOutside {e : UnknownSymbol} (h : FirstUnreadable a cs e)
    (hb : ∀ c ∈ cs, Readable b c) : FirstOutside a cs e := by
  obtain ⟨here, unreadable, before⟩ := h
  have hcontains : b.contains e.symbol = true := by
    rcases hb _ (List.mem_of_getElem? here) with hblank | h | hsymbol
    · exact absurd (.inl hblank) unreadable
    · exact h
    · exact absurd (.inr (.inr hsymbol)) unreadable
  have houtside : a.contains e.symbol = false :=
    Bool.eq_false_iff.mpr fun h => unreadable (.inr (.inl h))
  exact ⟨here, Alphabet.isUpper_of_contains hcontains, houtside,
    fun i hi c hc => (before i hi c hc).contains⟩

/-- **A narrower alphabet refuses a text for its first letter that the alphabet lacks.** -/
theorem scan_outside (h : scan b text = .ok ts)
    (hout : ∃ v ∈ vars ts, a.contains v.name = false) :
    ∃ e, FirstOutside a text.toList e ∧ scan a text = .error e := by
  have hspells := scan_eq_ok_iff.mp h
  rcases ha : scan a text with e | us
  · exact ⟨e, (scan_eq_error_iff.mp ha).firstOutside hspells.readable, rfl⟩
  · obtain ⟨v, hv, hname⟩ := hout
    have hmem : v.name ∈ text.toList := ((hspells.var_mem_iff v).mp (mem_vars.mp hv)).1
    have hreadable : Readable a v.name := (scan_eq_ok_iff.mp ha).readable _ hmem
    rw [hreadable.contains v.isUpper] at hname
    exact absurd hname (by decide)

end Sentential.Token
