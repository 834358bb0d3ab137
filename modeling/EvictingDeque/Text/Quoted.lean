import EvictingDeque.Text.Visible

set_option autoImplicit false

/-!
# Quoted text

A quoted text stands between double quotes. A double quote or a backslash inside it is preceded by a
backslash, four control characters have letters of their own, and every other character that is not
visible is written as its code in lower-case hexadecimal digits between braces.
-/
namespace EvictingDeque.Text

def hexadecimal (code : Nat) : List Char := Nat.toDigits 16 code

def escaped (c : Char) : List Char :=
  if c = '"' then ['\\', '"']
  else if c = '\\' then ['\\', '\\']
  else if c = '\t' then ['\\', 't']
  else if c = '\n' then ['\\', 'n']
  else if c = '\r' then ['\\', 'r']
  else if c = '\x00' then ['\\', '0']
  else if isVisible c then [c]
  else ['\\', 'u', '\x7b'] ++ hexadecimal c.toNat ++ ['\x7d']

def quotedChars (text : List Char) : List Char := '"' :: text.flatMap escaped ++ ['"']

def quoted (text : String) : String := String.ofList (quotedChars text.toList)

end EvictingDeque.Text
