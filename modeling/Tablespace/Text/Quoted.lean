import Tablespace.Text.ExtendingMark
import Tablespace.Text.Unprintable

/-!
# Quoted text

Text between double quotes. Quotes, backslashes and the common controls are
escaped by a letter, other characters that do not print on their own by their
code point.
-/

namespace Tablespace

namespace Quoted

def prints (c : Char) : Bool := !unprintable.contains c && !extendingMarks.contains c

def escape (c : Char) : List Char :=
  if c = '"' then ['\\', '"']
  else if c = '\\' then ['\\', '\\']
  else if c = '\n' then ['\\', 'n']
  else if c = '\r' then ['\\', 'r']
  else if c = '\t' then ['\\', 't']
  else if c.toNat = 0 then ['\\', '0']
  else if prints c then [c]
  else ['\\', 'u', '\x7b'] ++ Nat.toDigits 16 c.toNat ++ ['\x7d']

def quote (s : String) : String := String.ofList ('"' :: s.toList.flatMap escape ++ ['"'])

end Quoted

end Tablespace
