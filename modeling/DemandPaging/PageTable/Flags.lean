import DemandPaging.Layout

/-!
The flag bits of a page table entry.

An entry is a 64-bit word. Bits 12 to 51 hold an address and all others are flags; five of the flags
are used here and the rest are carried along.
-/

namespace DemandPaging

inductive Flag where
  | present
  | writable
  | user
  | accessed
  | dirty
deriving DecidableEq

def Flag.bit : Flag → Nat
  | present => 0
  | writable => 1
  | user => 2
  | accessed => 5
  | dirty => 6

/-- The bits of an entry that hold the address. -/
def addressMask : BitVec 64 := 0x000FFFFFFFFFF000#64

/-- The bits of an entry that hold flags. -/
def flagMask : BitVec 64 := ~~~addressMask

structure PageFlags where
  bits : BitVec 64
deriving DecidableEq

namespace PageFlags

def empty : PageFlags := ⟨0⟩

def ofBits (word : BitVec 64) : PageFlags := ⟨word &&& flagMask⟩

def test (flags : PageFlags) (flag : Flag) : Bool := flags.bits.getLsbD flag.bit

def set (flags : PageFlags) (flag : Flag) (on : Bool) : PageFlags :=
  if on then ⟨flags.bits ||| BitVec.twoPow 64 flag.bit⟩
  else ⟨flags.bits &&& ~~~BitVec.twoPow 64 flag.bit⟩

/-- The flags of a present page that the user may read, and perhaps write. -/
def forUser (writable : Bool) : PageFlags :=
  ((empty.set .present true).set .user true).set .writable writable

theorem ext {a b : PageFlags} (h : a.bits = b.bits) : a = b := by
  cases a
  cases b
  cases h
  rfl

theorem bit_injective {a b : Flag} (h : a.bit = b.bit) : a = b := by
  cases a <;> cases b <;> first | rfl | cases h

@[simp] theorem test_set (flags : PageFlags) (flag other : Flag) (on : Bool) :
    (flags.set flag on).test other = if flag = other then on else flags.test other := by
  have hlt : other.bit < 64 := by cases other <;> decide
  by_cases h : flag = other
  · subst h
    cases on <;> simp [test, set, hlt]
  · have hbit : flag.bit ≠ other.bit := fun he => h (bit_injective he)
    cases on <;> simp [test, set, hlt, h, hbit.symm]

@[simp] theorem test_empty (flag : Flag) : empty.test flag = false := by
  simp [test, empty]

end PageFlags

end DemandPaging
