import DemandPaging.Address

/-!
Page faults as the trap handler reports them.

The hardware describes a fault by the faulting address and an error code, of which three bits
matter. A fault near the top of the user's address space may mean that the stack has to grow: it
does if the address lies in the stack's region and no more than a push below the stack pointer.
-/

namespace DemandPaging

structure PageFault where
  address : VirtualAddress
  user : Bool
  write : Bool
  notPresent : Bool
  stackPointer : Nat
deriving DecidableEq

inductive Resolution where
  | resolved
  | stackGrown
deriving DecidableEq

def Resolution.name : Resolution → String
  | resolved => "Resolved"
  | stackGrown => "StackGrown"

namespace PageFault

/-- The fault of an error code: bit 0 is set for a page that was present, bit 1 for a write and
bit 2 for an access in user mode. -/
def ofErrorCode (address : VirtualAddress) (code stackPointer : Nat) : PageFault :=
  { address
    user := code.testBit 2
    write := code.testBit 1
    notPresent := !code.testBit 0
    stackPointer }

def describe (fault : PageFault) : String :=
  "PageFault \x7b address: " ++ fault.address.describe ++ ", user: " ++ toString fault.user ++
    ", write: " ++ toString fault.write ++ ", not_present: " ++ toString fault.notPresent ++
    ", stack_pointer: " ++ toString fault.stackPointer ++ " \x7d"

end PageFault

/-- Whether an access to an address counts as the stack growing down. A stack pointer of zero was
never set and allows no growth. -/
def isStackAccess (address : VirtualAddress) (stackPointer : Nat) : Bool :=
  stackPointer ≠ 0 ∧ stackLimit ≤ address.toNat ∧ address.toNat ≤ userStack ∧
    stackPointer - stackSlack ≤ address.toNat

end DemandPaging
