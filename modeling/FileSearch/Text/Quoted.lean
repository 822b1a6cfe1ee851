import FileSearch.Text.Printable

/-!
Quoted text, as messages show a path or a value: between single quotes, or between double quotes
when the text has a single quote and no double one. The enclosing quote and the backslash are
escaped with a backslash, tab and line ends by their letters, and every other character that is
not printable by its code in lower-case hexadecimal.
-/

namespace FileSearch

/-- The last `width` hexadecimal digits of a number. -/
def hexDigits : Nat → Nat → Text
  | 0, _ => []
  | width + 1, n => hexDigits width (n / 16) ++ [Nat.digitChar (n % 16)]

/-- The escape by code: two, four or eight hexadecimal digits, as few as hold the code. -/
def codeEscape (c : Char) : Text :=
  if c.toNat < 0x100 then '\\' :: 'x' :: hexDigits 2 c.toNat
  else if c.toNat < 0x10000 then '\\' :: 'u' :: hexDigits 4 c.toNat
  else '\\' :: 'U' :: hexDigits 8 c.toNat

/-- A character as it stands between the given quotes. -/
def escapeChar (quote c : Char) : Text :=
  if c = quote || c = '\\' then ['\\', c]
  else if c = '\t' then ['\\', 't']
  else if c = '\n' then ['\\', 'n']
  else if c = '\r' then ['\\', 'r']
  else if isPrintable c then [c]
  else codeEscape c

/-- The quote a text is enclosed in. -/
def quoteFor (t : Text) : Char := if '\'' ∈ t ∧ '"' ∉ t then '"' else '\''

/-- The text between quotes. -/
def quoted (t : Text) : Text := quoteFor t :: t.flatMap (escapeChar (quoteFor t)) ++ [quoteFor t]

end FileSearch
