import Cogrouping.Text.Printable

/-!
Quoted text as it stands in messages: double quotes around it, and escapes for what would be unclear
inside them.
-/

namespace Cogrouping.Quoted

def hexadecimal (point : Nat) : List Char := Nat.toDigits 16 point

def escape (char : Char) : List Char :=
  if char = '"' then ['\\', '"']
  else if char = '\\' then ['\\', '\\']
  else if char = '\n' then ['\\', 'n']
  else if char = '\t' then ['\\', 't']
  else if char = '\r' then ['\\', 'r']
  else if char = '\x00' then ['\\', '0']
  else if Text.isPrintable char then [char]
  else '\\' :: 'u' :: '\x7b' :: hexadecimal char.toNat ++ ['\x7d']

def text (content : String) : String :=
  String.ofList ('"' :: content.toList.flatMap escape ++ ['"'])

def list (contents : List String) : String :=
  "[" ++ ", ".intercalate (contents.map text) ++ "]"

end Cogrouping.Quoted
