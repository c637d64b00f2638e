import FormulaSearch.Text.Hidden

/-!
# Quoted text

Messages show the text at fault between quotes. Inside, the quote itself and the backslash are
escaped, five control characters have a letter, every other hidden character is shown by its code
point in braces, and the rest stands as it is.
-/

namespace FormulaSearch.Text

/-- The escape of a character by its code point in lower-case hexadecimal. -/
def escapeByNumber (c : Char) : List Char :=
  '\\' :: 'u' :: '\x7b' :: (Nat.toDigits 16 c.toNat ++ ['\x7d'])

/-- A character as it stands between two marks `mark`; the other kind of mark is not escaped. -/
def escape (mark c : Char) : List Char :=
  if c = '\x00' then ['\\', '0']
  else if c = '\t' then ['\\', 't']
  else if c = '\r' then ['\\', 'r']
  else if c = '\n' then ['\\', 'n']
  else if c = '\\' || c = mark then ['\\', c]
  else if isHidden c then escapeByNumber c
  else [c]

theorem escape_mark (c : Char) (h : c.toNat = 0x22 ∨ c.toNat = 0x27) : escape c c = ['\\', c] := by
  have hc : c = '"' ∨ c = '\'' := by
    rcases h with h | h
    · exact .inl (Char.toNat_inj.mp h)
    · exact .inr (Char.toNat_inj.mp h)
  rcases hc with rfl | rfl <;> decide

def quote (cs : List Char) : String :=
  String.ofList ('"' :: (cs.flatMap (escape '"') ++ ['"']))

/-- A character between single quotes. -/
def quoteChar (c : Char) : String :=
  String.ofList ('\'' :: (escape '\'' c ++ ['\'']))

end FormulaSearch.Text
