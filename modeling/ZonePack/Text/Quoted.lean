import ZonePack.Text.Printable

/-!
# ZonePack.Text.Quoted

Quoted text as messages show it: between double quotes, with a backslash before
a quote or a backslash, short escapes for the common controls, and the code
point in braces for every other character that does not show by itself.
-/

namespace ZonePack.Text

/-- How a character is shown between quotes. -/
def quotedChar (c : Char) : List Char :=
  if c = '"' ∨ c = '\\' then ['\\', c]
  else if c = '\n' then ['\\', 'n']
  else if c = '\r' then ['\\', 'r']
  else if c = '\t' then ['\\', 't']
  else if c.toNat = 0 then ['\\', '0']
  else if isPrintable c then [c]
  else ['\\', 'u', '{'] ++ Nat.toDigits 16 c.toNat ++ ['}']

/-- Text between double quotes, on one line. -/
def quoted (s : String) : String :=
  String.ofList ('"' :: s.toList.flatMap quotedChar ++ ['"'])

end ZonePack.Text
