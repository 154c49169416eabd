import Mathlib.Data.List.Infix
import Mathlib.Data.Nat.Digits.Defs
import Sentential.CommandLine

/-!
# The wording of a cause tells the cause

A message opens with fixed words and goes on with what the cause says about the input. The openings
of two kinds of causes never begin alike (`Rejection.Kind.eq_of_opening_prefix`), so the kind is
known from the message although some openings share many letters. What follows is read from left to
right, and each piece shows where it ends: a symbol is one character, the name of a token is a
letter or stands between marks (`Token.label_append_inj`), and a number goes on as long as there are
digits (`toDigits_append_inj`). So no two causes are worded alike (`Rejection.message_identifies`).
-/

namespace Sentential

/-! ### Pieces that show where they end -/

/-- A number ends where something other than a digit follows. -/
theorem toDigits_append_inj {n m : Nat} {s r : List Char} (hs : s.takeWhile Char.isDigit = [])
    (hr : r.takeWhile Char.isDigit = []) (h : Nat.toDigits 10 n ++ s = Nat.toDigits 10 m ++ r) :
    n = m ∧ s = r := by
  have hdigits (k : Nat) : ∀ c ∈ Nat.toDigits 10 k, c.isDigit = true := fun c hc =>
    Nat.isDigit_of_mem_toDigits (by decide) (by decide) hc
  have htake := congrArg (List.takeWhile Char.isDigit) h
  rw [List.takeWhile_append_of_pos (hdigits n), List.takeWhile_append_of_pos (hdigits m), hs, hr,
    List.append_nil, List.append_nil] at htake
  have hnumber := congrArg (fun digits => Nat.ofDigitChars 10 digits 0) htake
  simp only [Nat.ofDigitChars_ten_toDigits] at hnumber
  rw [htake] at h
  exact ⟨hnumber, List.append_cancel_left h⟩

theorem eq_of_toDigits_eq {n m : Nat} (h : Nat.toDigits 10 n = Nat.toDigits 10 m) : n = m := by
  have h : Nat.toDigits 10 n ++ [] = Nat.toDigits 10 m ++ [] := by rw [h]
  exact (toDigits_append_inj rfl rfl h).1

namespace Token

variable {k l : Kind} {t u : Token} {g : Char} {s r : List Char}

theorem ofSymbol?_of_glyph? (h : t.kind.glyph? = some g) : ofSymbol? g = some t := by
  rcases t with v | _ | c | _ | _
  · cases h
  · cases h; rfl
  · cases c <;> cases h <;> rfl
  · cases h; rfl
  · cases h; rfl

namespace Kind

theorem exists_token (k : Kind) : ∃ t : Token, t.kind = k := by
  rcases k with _ | _ | c | _ | _
  · exact ⟨.var ⟨'A', rfl⟩, rfl⟩
  · exact ⟨.not, rfl⟩
  · exact ⟨.op c, rfl⟩
  · exact ⟨.lparen, rfl⟩
  · exact ⟨.rparen, rfl⟩

theorem eq_of_glyph? (hk : k.glyph? = some g) (hl : l.glyph? = some g) : k = l := by
  obtain ⟨t, rfl⟩ := k.exists_token
  obtain ⟨u, rfl⟩ := l.exists_token
  have htu : some t = some u := (ofSymbol?_of_glyph? hk).symm.trans (ofSymbol?_of_glyph? hl)
  rw [Option.some.inj htu]

theorem eq_var_or_glyph? (k : Kind) : k = .var ∨ ∃ g, k.glyph? = some g := by
  rcases k with _ | _ | c | _ | _
  · exact .inl rfl
  all_goals exact .inr ⟨_, rfl⟩

theorem toList_label (h : k.glyph? = some g) : k.label.toList = ['\x27', g, '\x27'] := by
  unfold label
  rw [h]
  exact String.toList_ofList

theorem label_append_inj (h : k.label.toList ++ s = l.label.toList ++ r) : k = l ∧ s = r := by
  have hvar : Kind.var.label.toList = 'v' :: "ariable".toList := rfl
  rcases k.eq_var_or_glyph? with rfl | ⟨g, hk⟩ <;> rcases l.eq_var_or_glyph? with rfl | ⟨g', hl⟩
  · exact ⟨rfl, List.append_cancel_left h⟩
  · rw [hvar, toList_label hl] at h
    exact absurd (List.cons.inj h).1 (by decide)
  · rw [hvar, toList_label hk] at h
    exact absurd (List.cons.inj h).1 (by decide)
  · rw [toList_label hk, toList_label hl] at h
    simp only [List.cons_append, List.nil_append, List.cons.injEq, true_and] at h
    obtain ⟨rfl, hrest⟩ := h
    exact ⟨eq_of_glyph? hk hl, hrest⟩

end Kind

theorem toList_label_var (v : Variable) : (var v).label.toList = [v.name] :=
  String.toList_singleton _

theorem eq_var_or_label (t : Token) :
    (∃ v, t = var v) ∨ ∃ g, t.kind.glyph? = some g ∧ t.label.toList = ['\x27', g, '\x27'] := by
  rcases t with v | _ | c | _ | _
  · exact .inl ⟨v, rfl⟩
  all_goals exact .inr ⟨_, rfl, Kind.toList_label rfl⟩

theorem label_append_inj (h : t.label.toList ++ s = u.label.toList ++ r) : t = u ∧ s = r := by
  have hmark (v : Variable) : v.name ≠ '\x27' := v.name_ne (by decide)
  rcases t.eq_var_or_label with ⟨v, rfl⟩ | ⟨g, ht, hlabel⟩ <;>
    rcases u.eq_var_or_label with ⟨w, rfl⟩ | ⟨g', hu, hlabel'⟩
  · rw [toList_label_var, toList_label_var] at h
    obtain ⟨hname, hrest⟩ := List.cons.inj h
    exact ⟨congrArg var (Variable.ext_name hname), hrest⟩
  · rw [toList_label_var, hlabel'] at h
    exact absurd (List.cons.inj h).1 (hmark v)
  · rw [toList_label_var, hlabel] at h
    exact absurd (List.cons.inj h).1.symm (hmark w)
  · rw [hlabel, hlabel'] at h
    simp only [List.cons_append, List.nil_append, List.cons.injEq, true_and] at h
    obtain ⟨rfl, hrest⟩ := h
    have htu : some t = some u := (ofSymbol?_of_glyph? ht).symm.trans (ofSymbol?_of_glyph? hu)
    exact ⟨Option.some.inj htu, hrest⟩

theorem eq_of_label_eq (h : t.label.toList = u.label.toList) : t = u := by
  have h : t.label.toList ++ [] = u.label.toList ++ [] := by rw [h]
  exact (label_append_inj h).1

end Token

namespace Rejection

/-! ### Openings and details -/

/-- A cause without what it says about the input. -/
inductive Kind
  | unreadable
  | expected
  | noTokens
  | unexpected
  | incomplete
  | unclosed
  | tooDeep
  | trailing
  | blank
  | noVariables
  | tooManyVariables
deriving DecidableEq

/-- The kind of a cause. -/
def kind : Rejection → Kind
  | unreadable _ => .unreadable
  | unparsable (.expected _ _) => .expected
  | unparsable .noTokens => .noTokens
  | unparsable (.unexpected _) => .unexpected
  | unparsable .incomplete => .incomplete
  | unparsable .unclosed => .unclosed
  | unparsable (.tooDeep _) => .tooDeep
  | unparsable (.trailing _ _) => .trailing
  | blank => .blank
  | noVariables => .noVariables
  | tooManyVariables _ _ => .tooManyVariables

/-- The words that the messages of a kind begin with. -/
def Kind.opening : Kind → String
  | unreadable => "unknown symbol '"
  | expected => "expected "
  | noTokens => "unexpected end of input"
  | unexpected => "unexpected token "
  | incomplete => "expression incomplete"
  | unclosed => "unclosed parenthesis"
  | tooDeep => "expression nested too deeply (more than "
  | trailing => "trailing tokens after a complete expression, starting with "
  | blank => "empty expression"
  | noVariables => "expression must reference at least one variable"
  | tooManyVariables => "too many variables: found "

/-- What follows these words. -/
def details : Rejection → List Char
  | unreadable e => e.symbol :: ("' at position ".toList ++ Nat.toDigits 10 e.position)
  | unparsable (.expected k t) => k.label.toList ++ (", found ".toList ++ t.label.toList)
  | unparsable (.unexpected t) => t.label.toList
  | unparsable (.tooDeep n) => Nat.toDigits 10 n ++ " levels)".toList
  | unparsable (.trailing t n) => t.label.toList ++ (" at token ".toList ++ Nat.toDigits 10 n)
  | tooManyVariables n m =>
    Nat.toDigits 10 n ++ (", at most ".toList ++ (Nat.toDigits 10 m ++ " allowed".toList))
  | _ => []

theorem toList_number (n : Nat) : (toString n).toList = Nat.toDigits 10 n := Nat.toList_repr

/-- **A message is its opening with the details.** -/
theorem toList_message (r : Rejection) : r.message.toList = r.kind.opening.toList ++ r.details := by
  rcases r with e | (⟨k, t⟩ | _ | t | _ | _ | n | ⟨t, n⟩) | _ | _ | ⟨n, m⟩
  · have hsymbol : (toString e.symbol).toList = [e.symbol] := String.toList_singleton _
    unfold message UnknownSymbol.message
    simp only [String.toList_append, List.append_assoc, hsymbol, toList_number]
    rfl
  · unfold message ParseError.message
    simp only [String.toList_append, List.append_assoc]
    rfl
  · exact (List.append_nil _).symm
  · unfold message ParseError.message
    simp only [String.toList_append]
    rfl
  · exact (List.append_nil _).symm
  · exact (List.append_nil _).symm
  · unfold message ParseError.message
    simp only [String.toList_append, List.append_assoc, toList_number]
    rfl
  · unfold message ParseError.message
    simp only [String.toList_append, List.append_assoc, toList_number]
    rfl
  · exact (List.append_nil _).symm
  · exact (List.append_nil _).symm
  · unfold message
    simp only [String.toList_append, List.append_assoc, toList_number]
    rfl

/-- The kinds of causes. -/
def kinds : List Kind :=
  [.unreadable, .expected, .noTokens, .unexpected, .incomplete, .unclosed, .tooDeep, .trailing, .blank,
    .noVariables, .tooManyVariables]

theorem Kind.mem_kinds (k : Kind) : k ∈ kinds := by cases k <;> decide

/-- **No opening is the beginning of another one.** -/
theorem Kind.eq_of_opening_prefix {k l : Kind} (h : k.opening.toList <+: l.opening.toList) :
    k = l := by
  have hall : ∀ k ∈ kinds, ∀ l ∈ kinds, k.opening.toList <+: l.opening.toList → k = l := by
    decide +kernel
  exact hall k k.mem_kinds l l.mem_kinds h

variable {d e : Rejection}

theorem kind_details_of_message_eq (h : d.message = e.message) :
    d.kind = e.kind ∧ d.details = e.details := by
  have hlist : d.kind.opening.toList ++ d.details = e.kind.opening.toList ++ e.details := by
    rw [← toList_message, ← toList_message, h]
  have hd := List.prefix_append d.kind.opening.toList d.details
  have he := List.prefix_append e.kind.opening.toList e.details
  rw [← hlist] at he
  have hkind : d.kind = e.kind := by
    rcases List.prefix_or_prefix_of_prefix hd he with hle | hle
    · exact Kind.eq_of_opening_prefix hle
    · exact (Kind.eq_of_opening_prefix hle).symm
  rw [hkind] at hlist
  exact ⟨hkind, List.append_cancel_left hlist⟩

/-- **A cause is known from its kind and the details.** -/
theorem eq_of_kind_of_details (hkind : d.kind = e.kind) (h : d.details = e.details) : d = e := by
  rcases d with d | (⟨k, t⟩ | _ | t | _ | _ | n | ⟨t, n⟩) | _ | _ | ⟨n, m⟩ <;>
    rcases e with e | (⟨l, u⟩ | _ | u | _ | _ | n' | ⟨u, n'⟩) | _ | _ | ⟨n', m'⟩ <;> cases hkind
  · obtain ⟨hsymbol, hrest⟩ := List.cons.inj h
    have hposition := eq_of_toDigits_eq (List.append_cancel_left hrest)
    rcases d with ⟨c, i⟩
    rcases e with ⟨c', i'⟩
    subst hsymbol hposition
    rfl
  · obtain ⟨rfl, hrest⟩ := Token.Kind.label_append_inj h
    rw [Token.eq_of_label_eq (List.append_cancel_left hrest)]
  · rfl
  · rw [Token.eq_of_label_eq h]
  · rfl
  · rfl
  · obtain ⟨rfl, -⟩ := toDigits_append_inj rfl rfl h
    rfl
  · obtain ⟨rfl, hrest⟩ := Token.label_append_inj h
    rw [eq_of_toDigits_eq (List.append_cancel_left hrest)]
  · rfl
  · rfl
  · obtain ⟨rfl, hrest⟩ := toDigits_append_inj rfl rfl h
    obtain ⟨rfl, -⟩ := toDigits_append_inj rfl rfl (List.append_cancel_left hrest)
    rfl

theorem message_inj : d.message = e.message ↔ d = e := by
  constructor
  · intro h
    obtain ⟨hkind, hdetails⟩ := kind_details_of_message_eq h
    exact eq_of_kind_of_details hkind hdetails
  · exact congrArg message

theorem complaint_inj :
    (CommandLine.Report.rejected d).complaint? = (CommandLine.Report.rejected e).complaint? ↔
      d = e := by
  constructor
  · intro h
    have hline : (toString d.message ++ "\n").toList = (toString e.message ++ "\n").toList :=
      congrArg String.toList (Option.some.inj h)
    rw [String.toList_append, String.toList_append] at hline
    exact message_inj.mp (String.toList_inj.mp (List.append_cancel_right hline))
  · intro h
    rw [h]

/-- **Messages identify their causes**: two causes have the same message just if they are of the
same kind and say the same about the input. A cause that lies in the characters or in the order of
the tokens has the same words as a cause of its own and as a reason why there is no table. What the
program complains of identifies the cause as well. -/
theorem message_identifies :
    (∀ d e : Rejection, d.message = e.message ↔ d = e) ∧
    (∀ e : UnknownSymbol, (unreadable e).message = e.message) ∧
    (∀ e : ParseError, (unparsable e).message = e.message) ∧
    (∀ d e : UnknownSymbol, d.message = e.message ↔ d = e) ∧
    (∀ d e : ParseError, d.message = e.message ↔ d = e) ∧
    ∀ d e : Rejection, (CommandLine.Report.rejected d).complaint? =
      (CommandLine.Report.rejected e).complaint? ↔ d = e := by
  refine ⟨fun _ _ => message_inj, fun _ => rfl, fun _ => rfl, fun d e => ?_, fun d e => ?_,
    fun _ _ => complaint_inj⟩
  · have h := message_inj (d := unreadable d) (e := unreadable e)
    rwa [unreadable.injEq] at h
  · have h := message_inj (d := unparsable d) (e := unparsable e)
    rwa [unparsable.injEq] at h

end Rejection

end Sentential
