import BemOutline.Text.Unprintable

/-! Texts in double quotes, as messages and labels show them: one line, whatever the text holds. -/

namespace BemOutline.Text

def hexDigits (n : Nat) : List Char := Nat.toDigits 16 n

def quotedChar (c : Char) : List Char :=
  if c = '\t' then ['\\', 't']
  else if c = '\r' then ['\\', 'r']
  else if c = '\n' then ['\\', 'n']
  else if c = '\x00' then ['\\', '0']
  else if c = '"' then ['\\', '"']
  else if c = '\\' then ['\\', '\\']
  else if isUnprintable c then ['\\', 'u', '\x7b'] ++ hexDigits c.toNat ++ ['\x7d']
  else [c]

def quotedChars (cs : List Char) : List Char := '"' :: cs.flatMap quotedChar ++ ['"']

/-- The text between double quotes, with everything that has no printed form spelt as an escape. -/
def quoted (s : String) : String := String.ofList (quotedChars s.toList)

end BemOutline.Text
