import Sentential.Proofs.Token.Scan

/-!
# Two spellings of one text

Blanks and the choice between the spellings of a connective are all that the canonical form of a
text takes away (`canonicalChar_eq`), and the scan makes nothing of either. Texts with one canonical
form have the same tokens, or both are refused, and then the two characters that are reported are
the same occurrence of the same symbol (`SameOccurrence`), each with its place in its own text.
Where only spellings differ, and no blanks, the places are the same as well (`scan_eq_of_map`).
-/

namespace Sentential.Token

variable {a : Alphabet} {c : Char} {cs ds : List Char} {t s : Token} {ts : List Token}

/-! ### Characters -/

/-- The characters of plain keyboards, each with the printed one that it stands for. -/
def shorthands : List (Char × Char) := [('~', '∼'), ('^', '∧'), ('v', '∨')]

theorem canonicalChar_eq (c : Char) : canonicalChar c = (shorthands.lookup c).getD c := by
  unfold canonicalChar
  rcases hs : ofSymbol? c with _ | t
  · have hknown : ∀ x ∈ shorthands, ofSymbol? x.1 ≠ none := by decide
    have hnone : shorthands.lookup c = none := by
      rw [List.lookup_eq_none_iff]
      intro x hx
      have hne : c ≠ x.1 := fun he => hknown x hx (he ▸ hs)
      simpa using hne
    rw [hnone]
    rfl
  · have hglyph : ∀ x ∈ spellings, x.2.kind.glyph?.getD x.1 = (shorthands.lookup x.1).getD x.1 := by
      decide
    exact hglyph (c, t) (ofSymbol?_eq_some_iff.mp hs)

theorem canonicalChar_cases (c : Char) :
    canonicalChar c = c ∨ ∃ t, (c, t) ∈ spellings ∧ (canonicalChar c, t) ∈ spellings := by
  rw [canonicalChar_eq]
  rcases hs : shorthands.lookup c with _ | g
  · exact .inl rfl
  · obtain ⟨l₁, l₂, hl, -⟩ := List.lookup_eq_some_iff.mp hs
    have hmem : (c, g) ∈ shorthands := by
      rw [hl]
      simp
    have hsame : ∀ x ∈ shorthands, ∃ y ∈ spellings, y.1 = x.1 ∧ (x.2, y.2) ∈ spellings := by decide
    obtain ⟨⟨_, t⟩, ht, rfl, hg⟩ := hsame _ hmem
    exact .inr ⟨t, ht, hg⟩

theorem spelledBy_iff_of_mem (h : (c, s) ∈ spellings) : SpelledBy a t c ↔ t = s := by
  have hs : SpelledBy a s c := .symbol h
  constructor
  · intro ht
    have he : some t = some s := ht.ofChar?.symm.trans hs.ofChar?
    exact Option.some.inj he
  · rintro rfl
    exact hs

theorem spelledBy_canonicalChar : SpelledBy a t (canonicalChar c) ↔ SpelledBy a t c := by
  rcases canonicalChar_cases c with h | ⟨s, hc, hg⟩
  · rw [h]
  · rw [spelledBy_iff_of_mem hc, spelledBy_iff_of_mem hg]

theorem isBlank_canonicalChar (c : Char) : Text.isBlank (canonicalChar c) = Text.isBlank c := by
  rcases canonicalChar_cases c with h | ⟨s, hc, hg⟩
  · rw [h]
  · rw [not_isBlank_of_mem_spellings hc, not_isBlank_of_mem_spellings hg]

theorem readable_canonicalChar : Readable a (canonicalChar c) ↔ Readable a c := by
  rcases canonicalChar_cases c with h | ⟨s, hc, hg⟩
  · rw [h]
  · exact ⟨fun _ => .inr (.inr ⟨s, hc⟩), fun _ => .inr (.inr ⟨s, hg⟩)⟩

theorem canonicalChar_of_not_readable (h : ¬ Readable a c) : canonicalChar c = c := by
  rcases canonicalChar_cases c with he | ⟨s, hc, -⟩
  · exact he
  · exact absurd (.inr (.inr ⟨s, hc⟩)) h

/-! ### Canonical texts -/

theorem canonical_cons_of_blank (h : Text.isBlank c = true) :
    canonical (c :: cs) = canonical cs := by
  simp [canonical, h]

theorem canonical_cons_of_not_blank (h : Text.isBlank c = false) :
    canonical (c :: cs) = canonicalChar c :: canonical cs := by
  simp [canonical, h]

theorem mem_canonical_iff {d : Char} :
    d ∈ canonical cs ↔ ∃ c ∈ cs, Text.isBlank c = false ∧ canonicalChar c = d := by
  simp [canonical, and_assoc]

theorem Spells.cons_blank_iff (h : Text.isBlank c = true) :
    Spells a ts (c :: cs) ↔ Spells a ts cs := by
  refine ⟨fun hs => ?_, .blank h⟩
  rcases hs with _ | ⟨-, hs⟩ | ⟨hc, -⟩
  · exact hs
  · rw [hc.not_isBlank] at h
    exact absurd h (by decide)

theorem Spells.cons_iff (h : Text.isBlank c = false) :
    Spells a ts (c :: cs) ↔ ∃ t us, ts = t :: us ∧ SpelledBy a t c ∧ Spells a us cs := by
  constructor
  · intro hs
    rcases hs with _ | ⟨hb, -⟩ | ⟨hc, hs⟩
    · rw [hb] at h
      exact absurd h (by decide)
    · exact ⟨_, _, rfl, hc, hs⟩
  · rintro ⟨t, us, rfl, hc, hs⟩
    exact .cons hc hs

/-- **A text spells what its canonical form spells.** -/
theorem spells_canonical_iff : ∀ {cs : List Char} {ts : List Token},
    Spells a ts (canonical cs) ↔ Spells a ts cs
  | [], _ => Iff.rfl
  | c :: cs, ts => by
    rcases hb : Text.isBlank c
    · have hb' : Text.isBlank (canonicalChar c) = false := by rw [isBlank_canonicalChar, hb]
      rw [canonical_cons_of_not_blank hb, Spells.cons_iff hb', Spells.cons_iff hb]
      simp only [spelledBy_canonicalChar, spells_canonical_iff]
    · rw [canonical_cons_of_blank hb, Spells.cons_blank_iff hb, spells_canonical_iff]

theorem forall_readable_canonical :
    (∀ d ∈ canonical cs, Readable a d) ↔ ∀ c ∈ cs, Readable a c := by
  constructor
  · intro h c hc
    rcases hb : Text.isBlank c
    · exact readable_canonicalChar.mp (h _ (mem_canonical_iff.mpr ⟨c, hc, hb, rfl⟩))
    · exact .inl hb
  · intro h d hd
    obtain ⟨c, hc, -, rfl⟩ := mem_canonical_iff.mp hd
    exact readable_canonicalChar.mpr (h c hc)

/-- What stands before a character of the canonical form, and what stands behind it, comes from a
part of the text. -/
theorem exists_append_of_canonical {ks ls : List Char} {d : Char}
    (h : canonical cs = ks ++ d :: ls) : ∃ us c vs, cs = us ++ c :: vs ∧ canonical us = ks ∧
      canonicalChar c = d ∧ canonical vs = ls := by
  unfold canonical at h
  obtain ⟨l₁, l₂, hl, hks, h⟩ := List.map_eq_append_iff.mp h
  obtain ⟨c, l₃, rfl, hc, hls⟩ := List.map_eq_cons_iff.mp h
  obtain ⟨us, ws, rfl, hus, hws⟩ := List.filter_eq_append_iff.mp hl
  obtain ⟨bs, vs, rfl, hbs, -, hvs⟩ := List.filter_eq_cons_iff.mp hws
  -- the blanks just before the character go with what stands before it
  have hblanks : bs.filter (!Text.isBlank ·) = [] := List.filter_eq_nil_iff.mpr hbs
  refine ⟨us ++ bs, c, vs, by simp, ?_, hc, ?_⟩
  · unfold canonical
    rw [List.filter_append, hblanks, List.append_nil, hus, hks]
  · unfold canonical
    rw [hvs, hls]

/-! ### Two texts -/

/-- The two places hold the same character, and what stands before them, and what stands behind
them, is spelled in two ways. -/
inductive SameOccurrence : List Char → List Char → UnknownSymbol → UnknownSymbol → Prop
  | intro {us us' vs vs' : List Char} (c : Char) : canonical us = canonical us' →
      canonical vs = canonical vs' →
        SameOccurrence (us ++ c :: vs) (us' ++ c :: vs') ⟨c, us.length⟩ ⟨c, us'.length⟩

theorem firstUnreadable_iff {e : UnknownSymbol} :
    FirstUnreadable a cs e ↔ ∃ us vs, cs = us ++ e.symbol :: vs ∧ e.position = us.length ∧
      ¬ Readable a e.symbol ∧ ∀ c ∈ us, Readable a c := by
  constructor
  · rintro ⟨here, unreadable, before⟩
    obtain ⟨hlt, hget⟩ := List.getElem?_eq_some_iff.mp here
    refine ⟨cs.take e.position, cs.drop (e.position + 1), ?_, ?_, unreadable, fun c hc => ?_⟩
    · rw [← hget, ← List.drop_eq_getElem_cons hlt, List.take_append_drop]
    · rw [List.length_take]
      omega
    · obtain ⟨i, hi, rfl⟩ := List.mem_take_iff_getElem.mp hc
      exact before i (by omega) _ (List.getElem?_eq_getElem _)
  · rintro ⟨us, vs, rfl, hpos, unreadable, hus⟩
    refine ⟨by simp [hpos], unreadable, fun i hi c hc => ?_⟩
    rw [List.getElem?_append_left (by omega)] at hc
    exact hus c (List.mem_of_getElem? hc)

/-- **Where one of two spellings is not readable, the other is not either**, at the same occurrence.
-/
theorem FirstUnreadable.exists_sameOccurrence {e : UnknownSymbol} (h : FirstUnreadable a cs e)
    (hcs : canonical cs = canonical ds) :
    ∃ e', FirstUnreadable a ds e' ∧ SameOccurrence cs ds e e' := by
  obtain ⟨us, vs, rfl, hpos, unreadable, hus⟩ := firstUnreadable_iff.mp h
  have hsymbol := canonicalChar_of_not_readable unreadable
  have hblank : Text.isBlank e.symbol = false :=
    Bool.eq_false_iff.mpr fun hb => unreadable (.inl hb)
  have hcanonical : canonical ds = canonical us ++ e.symbol :: canonical vs := by
    rw [← hcs]
    simp [canonical, hblank, hsymbol]
  obtain ⟨us', d, vs', rfl, hus', hd, hvs'⟩ := exists_append_of_canonical hcanonical
  have hnot : ¬ Readable a d := by rwa [← readable_canonicalChar, hd]
  have hde : d = e.symbol := (canonicalChar_of_not_readable hnot).symm.trans hd
  subst hde
  have hreadable : ∀ c ∈ us', Readable a c := by
    rw [← forall_readable_canonical, hus', forall_readable_canonical]
    exact hus
  refine ⟨⟨e.symbol, us'.length⟩, ?_, ?_⟩
  · exact firstUnreadable_iff.mpr ⟨us', vs', rfl, rfl, unreadable, hreadable⟩
  · have he : e = ⟨e.symbol, us.length⟩ := by rw [← hpos]
    rw [he]
    exact .intro _ hus'.symm hvs'.symm

variable {x y : String}

/-- **Two spellings of one text have the same tokens**, or they are refused for the same occurrence
of a symbol. -/
theorem scan_of_canonical (h : canonical x.toList = canonical y.toList) :
    (∃ ts, scan a x = .ok ts ∧ scan a y = .ok ts) ∨
      ∃ d e, scan a x = .error d ∧ scan a y = .error e ∧
        SameOccurrence x.toList y.toList d e := by
  rcases hx : scan a x with d | ts
  · obtain ⟨e, he, hsame⟩ := (scan_eq_error_iff.mp hx).exists_sameOccurrence h
    exact .inr ⟨d, e, rfl, scan_eq_error_iff.mpr he, hsame⟩
  · refine .inl ⟨ts, rfl, ?_⟩
    rw [scan_eq_ok_iff, ← spells_canonical_iff, ← h, spells_canonical_iff]
    exact scan_eq_ok_iff.mp hx

theorem scanFrom_map : ∀ (cs : List Char) (k : Nat),
    scanFrom a k (cs.map canonicalChar) = scanFrom a k cs
  | [], _ => rfl
  | c :: cs, k => by
    rw [List.map_cons]
    rcases char_cases a c with hc | ⟨t, hc⟩ | hc
    · have hb : Text.isBlank (canonicalChar c) = true := by rw [isBlank_canonicalChar, hc]
      rw [scanFrom_blank hc, scanFrom_blank hb, scanFrom_map cs]
    · rw [scanFrom_spelled hc, scanFrom_spelled (spelledBy_canonicalChar.mpr hc), scanFrom_map cs]
    · rw [canonicalChar_of_not_readable hc, scanFrom_unreadable hc, scanFrom_unreadable hc]

theorem scan_eq_of_map (h : x.toList.map canonicalChar = y.toList.map canonicalChar) :
    scan a x = scan a y := by
  unfold scan
  rw [← scanFrom_map, h, scanFrom_map]

end Sentential.Token
