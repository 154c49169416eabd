import Sentential.Text.Hidden

/-!
# Quoted text

A character or a text between quote marks, in ASCII escapes where a reader could not tell it from
its neighbours. A few control characters have a short escape, the surrounding mark and the
backslash are written after a backslash, and a hidden character is written as its code point in
hexadecimal digits.
-/

namespace Sentential.Text

/-- The letter that stands for a control character after a backslash. -/
def shortEscape? (c : Char) : Option Char :=
  if c = '\x00' then some '0'
  else if c = '\t' then some 't'
  else if c = '\r' then some 'r'
  else if c = '\n' then some 'n'
  else none

/-- One character of a text that stands between two `mark`s. -/
def escape (mark c : Char) : List Char :=
  match shortEscape? c with
  | some e => ['\\', e]
  | none =>
    if c = mark || c = '\\' then ['\\', c]
    else if isHidden c then ['\\', 'u', '\x7b'] ++ Nat.toDigits 16 c.toNat ++ ['\x7d']
    else [c]

/-- A character between single marks. -/
def quoteChar (c : Char) : String :=
  let mark := '\x27'
  .ofList (mark :: escape mark c ++ [mark])

/-- A text between double marks. -/
def quoteText (s : String) : String :=
  let mark := '\x22'
  .ofList (mark :: s.toList.flatMap (escape mark) ++ [mark])

end Sentential.Text
