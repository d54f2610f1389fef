import ServiceHours.Text.Numeral
import ServiceHours.Text.Unseen

/-!
# Quoted text

The form in which messages show a piece of input: between double quotes, with a backslash before a double quote or
a backslash, the short forms for tab, line breaks and NUL, and the code point of any character that does not show.
-/

namespace ServiceHours.Text

/-- How one character stands inside quotes. -/
def quotedChar (c : Char) : List Char :=
  if c = '\t' then ['\\', 't']
  else if c = '\r' then ['\\', 'r']
  else if c = '\n' then ['\\', 'n']
  else if c.toNat = 0 then ['\\', '0']
  else if c = '"' || c = '\\' then ['\\', c]
  else if isUnseen c then "\\u\x7b".toList ++ Nat.toDigits 16 c.toNat ++ ['\x7d']
  else [c]

def quoted (s : String) : String :=
  String.ofList ('"' :: s.toList.flatMap quotedChar ++ ['"'])

end ServiceHours.Text
