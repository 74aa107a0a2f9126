import DemandPaging.Space.Faults
import DemandPaging.Space.Lifetime

/-!
What can be asked of an address space, as data.

A request names one of the operations with its arguments, and its type is the type of the answer.
`Request.perform` carries it out. A request to an address space that is not there has no answer and
no effect, so any sequence of requests is a run of the system.
-/

namespace DemandPaging

/-- An operation on an address space, by the type of its answer. -/
inductive Request : Type → Type where
  | setStackPointer (stackPointer : Nat) : Request Unit
  | saveStackPointer (stackPointer : Nat) : Request Unit
  | loadSegment (file : Handle) (offset : Nat) (start : VirtualAddress)
      (readBytes zeroBytes : Nat) (writable : Bool) : Request (Except VmError Unit)
  | setUpStack : Request (Except VmError Unit)
  | mapFile (start : VirtualAddress) (length : Nat) (writable : Bool) (file : Handle)
      (offset : Nat) : Request (Except VmError VirtualAddress)
  | mapDescriptor (start : VirtualAddress) (length : Nat) (writable : Bool) (descriptor : Int)
      (offset : Nat) (lookup : Int → Option Handle) : Request (Except VmError VirtualAddress)
  | unmapFile (start : VirtualAddress) : Request Unit
  | handleFault (fault : PageFault) : Request (Except Rejection Resolution)
  | readUser (va : VirtualAddress) (length : Nat) :
      Request (Array UInt8 × Except Rejection Unit)
  | writeUser (va : VirtualAddress) (data : Array UInt8) : Request (Except Rejection Unit)
  | pageOut (va : VirtualAddress) : Request Bool
  | fork (name : String) : Request (Except VmError Space.Id)
  | exit (status : Int) : Request Int
  | drop : Request Unit

namespace Request

def perform {α : Type} (space : Space.Id) : Request α → Action α
  | setStackPointer stackPointer => Space.setStackPointer space stackPointer
  | saveStackPointer stackPointer => Space.saveStackPointer space stackPointer
  | loadSegment file offset start readBytes zeroBytes writable =>
      Space.loadSegment space file offset start readBytes zeroBytes writable
  | setUpStack => Space.setUpStack space
  | mapFile start length writable file offset =>
      Space.mapFile space start length writable file offset
  | mapDescriptor start length writable descriptor offset lookup =>
      Space.mapDescriptor space start length writable descriptor offset lookup
  | unmapFile start => Space.unmapFile space start
  | handleFault fault => Space.handleFault space fault
  | readUser va length => Space.readUser space va length
  | writeUser va data => Space.writeUser space va data
  | pageOut va => Space.pageOut space va
  | fork name => Space.fork space name
  | exit status => Space.exit space status
  | drop => Space.drop space

/-- Carries out a request to an address space, if it is there. -/
def perform? {α : Type} (space : Space.Id) (request : Request α) : Action (Option α) := do
  match (← get).spaces.get? space with
  | some _ => return some (← request.perform space)
  | none => return none

end Request

end DemandPaging
