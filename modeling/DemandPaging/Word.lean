import DemandPaging.Failure

/-!
Arithmetic on 64-bit machine words.

Words are natural numbers below `2 ^ 64`. The checked operations stay below that bound or answer
`Panic.overflow`; the ones whose name ends in a question mark answer `none` instead. Wrapping
arithmetic is never wanted here, so there is none.
-/

namespace DemandPaging.Word

abbrev limit : Nat := 0x10000000000000000

def add? (a b : Nat) : Option Nat := if a + b < limit then some (a + b) else none

def sub? (a b : Nat) : Option Nat := if b ≤ a then some (a - b) else none

def mul? (a b : Nat) : Option Nat := if a * b < limit then some (a * b) else none

/-- The result of an arithmetic operation, or the overflow panic where there is none. -/
def checked : Option Nat → Except Panic Nat
  | some n => .ok n
  | none => .error .overflow

def add (a b : Nat) : Except Panic Nat := checked (add? a b)

def sub (a b : Nat) : Except Panic Nat := checked (sub? a b)

def mul (a b : Nat) : Except Panic Nat := checked (mul? a b)

/-- A word in hexadecimal, lower case and without leading zeros. -/
def hex (n : Nat) : String := "0x" ++ String.ofList (Nat.toDigits 16 n)

/-- A word in hexadecimal, at least `width` digits long and without a mark in front. -/
def paddedHex (n width : Nat) : String :=
  let digits := Nat.toDigits 16 n
  String.ofList (List.replicate (width - digits.length) '0' ++ digits)

def digit? (c : Char) : Option Nat :=
  if '0' ≤ c ∧ c ≤ '9' then some (c.toNat - '0'.toNat)
  else if 'a' ≤ c ∧ c ≤ 'f' then some (c.toNat - 'a'.toNat + 10)
  else if 'A' ≤ c ∧ c ≤ 'F' then some (c.toNat - 'A'.toNat + 10)
  else none

def ofDigits? (digits : List Char) : Option Nat :=
  digits.foldlM (fun n c => (digit? c).map (n * 16 + ·)) 0

/-- The number that a text in hexadecimal, with its mark in front, stands for. -/
def ofHex? (text : String) : Option Nat :=
  match text.toList with
  | '0' :: 'x' :: digits => ofDigits? digits
  | _ => none

theorem add_ok {a b : Nat} (h : a + b < limit) : add a b = .ok (a + b) := by
  simp only [add, add?, if_pos h, checked]

theorem mul_ok {a b : Nat} (h : a * b < limit) : mul a b = .ok (a * b) := by
  simp only [mul, mul?, if_pos h, checked]

end DemandPaging.Word
