import DemandPaging.Quoted.Unseen

/-!
Quoted names.

A quoted name stands between double quotes. The quote and the backslash are written with a backslash
in front of them. A character that is not seen on its own is written with an escape of its own where
it has one, and by its number in hexadecimal otherwise. Every other character stands for itself.
-/

namespace DemandPaging.Quoted

def encodeChar (c : Char) : List Char :=
  if c = '\"' ∨ c = '\\' then ['\\', c]
  else if c = '\x00' then ['\\', '0']
  else if c = '\t' then ['\\', 't']
  else if c = '\n' then ['\\', 'n']
  else if c = '\r' then ['\\', 'r']
  else if isUnseen c then ['\\', 'u', '\x7b'] ++ Nat.toDigits 16 c.toNat ++ ['\x7d']
  else [c]

def encode (name : String) : String :=
  String.ofList ('\"' :: name.toList.flatMap encodeChar ++ ['\"'])

end DemandPaging.Quoted
