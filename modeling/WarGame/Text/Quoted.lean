import WarGame.Text.Unprintable

/-!
# Quoted text

Text between double quotes on one line. The quote, the backslash and the four commonest controls
have short escapes, other unprintable characters are shown by their number, and the rest stand for
themselves.
-/

namespace WarGame.Text

/-- A character by its number, in as few lower-case hexadecimal digits as it needs. -/
def numbered (c : Char) : List Char :=
  ['\\', 'u', '\x7b'] ++ Nat.toDigits 16 c.toNat ++ ['\x7d']

/-- A character as it stands between the quotes. -/
def quotedChar (c : Char) : List Char :=
  if c = '"' then ['\\', '"']
  else if c = '\\' then ['\\', '\\']
  else if c = '\x00' then ['\\', '0']
  else if c = '\t' then ['\\', 't']
  else if c = '\n' then ['\\', 'n']
  else if c = '\r' then ['\\', 'r']
  else if isUnprintable c then numbered c
  else [c]

/-- Text in quotes. -/
def quoted (s : String) : String :=
  String.ofList ('"' :: s.toList.flatMap quotedChar ++ ['"'])

end WarGame.Text
