import DemandPaging.Backing.Swap
import DemandPaging.Fault

/-!
What the system reports while it runs.

An event is a value; its level and its wording are functions of it. Events that concern one process
begin with the name of its address space.
-/

namespace DemandPaging

/-- How detailed an event is; the least detailed come first. -/
inductive Level where
  | error
  | warn
  | info
  | debug
  | trace
deriving DecidableEq

namespace Level

def name : Level → String
  | error => "ERROR"
  | warn => "WARN"
  | info => "INFO"
  | debug => "DEBUG"
  | trace => "TRACE"

def all : List Level := [error, warn, info, debug, trace]

def rank : Level → Nat
  | error => 0
  | warn => 1
  | info => 2
  | debug => 3
  | trace => 4

end Level

inductive Event where
  | frameAllocated (frame : FrameNumber)
  | frameFreed (frame : FrameNumber)
  | swapAttached (slots : Nat)
  | framesTaken (frames slots : Nat)
  | slotWritten (slot : SwapSlot)
  | slotReadBack (slot : SwapSlot)
  | swapInFailed (cause : SwapError)
  | shortWriteBack (offset written wanted : Nat)
  | evicted (va : VirtualAddress) (frame : FrameNumber) (dirty : Bool)
  | orphanEvicted (frame : FrameNumber) (va : VirtualAddress)
  | claimed (frame : FrameNumber) (va : VirtualAddress)
  | spaceCreated (space : String)
  | segmentMapped (space : String) (va : VirtualAddress) (pages readBytes offset : Nat)
  | fileMapped (space : String) (pages : Nat) (va : VirtualAddress) (offset : Nat)
      (writable : Bool)
  | fileUnmapped (space : String) (pages : Nat) (va : VirtualAddress)
  | nothingUnmapped (space : String) (va : VirtualAddress)
  | faulted (space : String) (fault : PageFault)
  | faultRejected (space : String) (va : VirtualAddress) (cause : Rejection)
  | bringInFailed (space : String) (va : VirtualAddress) (cause : VmError)
  | stackGrown (space : String) (va : VirtualAddress)
  | stackGrowthFailed (space : String) (va : VirtualAddress) (cause : VmError)
  | forked (space child : String) (pages : Nat)
  | forkFailed (space : String) (cause : VmError)
  | exited (space : String) (status : Int)

namespace Event

def level : Event → Level
  | frameAllocated .. | frameFreed .. | slotWritten .. | slotReadBack .. | evicted ..
  | claimed .. | nothingUnmapped .. | faulted .. | stackGrown .. => .trace
  | swapAttached .. | framesTaken .. | spaceCreated .. | segmentMapped .. | fileMapped ..
  | fileUnmapped .. | forked .. => .debug
  | exited .. => .info
  | swapInFailed .. | shortWriteBack .. | orphanEvicted .. | faultRejected ..
  | bringInFailed .. | stackGrowthFailed .. | forkFailed .. => .warn

def message : Event → String
  | frameAllocated frame => "user pool: allocated frame " ++ frame.text
  | frameFreed frame => "user pool: freed frame " ++ frame.text
  | swapAttached slots => s!"swap: {slots} slots"
  | framesTaken frames slots => s!"frame table: {frames} frames, {slots} swap slots"
  | slotWritten slot => "swap: wrote slot " ++ slot.text
  | slotReadBack slot => "swap: read back slot " ++ slot.text
  | swapInFailed cause => "swap-in failed: " ++ cause.message
  | shortWriteBack offset written wanted =>
      s!"short write-back at offset {offset}: {written} of {wanted} bytes"
  | evicted va frame dirty =>
      s!"evicted {va.text} from frame {frame.text} (dirty: {dirty})"
  | orphanEvicted frame va => s!"frame {frame.text} owned by a dropped page at {va.text}"
  | claimed frame va => s!"claimed frame {frame.text} for {va.text}"
  | spaceCreated space => s!"{space}: address space created"
  | segmentMapped space va pages readBytes offset =>
      s!"{space}: segment at {va.text} ({pages} pages, {readBytes} bytes from offset {offset})"
  | fileMapped space pages va offset writable =>
      s!"{space}: mmap {pages} pages at {va.text} (offset {offset}, writable: {writable})"
  | fileUnmapped space pages va => s!"{space}: munmap {pages} pages at {va.text}"
  | nothingUnmapped space va => s!"{space}: munmap of {va.text} matches no mapping"
  | faulted space fault =>
      s!"{space}: page fault at {fault.address.text} (user: {fault.user}, " ++
        s!"write: {fault.write}, not present: {fault.notPresent})"
  | faultRejected space va cause =>
      s!"{space}: page fault at {va.text} rejected: {cause.message}"
  | bringInFailed space va cause => s!"{space}: cannot bring in {va.text}: {cause.message}"
  | stackGrown space va => s!"{space}: stack grown to {va.text}"
  | stackGrowthFailed space va cause =>
      s!"{space}: cannot grow stack to {va.text}: {cause.message}"
  | forked space child pages => s!"{space}: forked into {child} ({pages} pages)"
  | forkFailed space cause => s!"{space}: fork failed: {cause.message}"
  | exited space status => s!"{space}: exit({status})"

def isWithin (event : Event) (level : Level) : Bool := event.level.rank ≤ level.rank

def line (event : Event) : String := event.level.name ++ " " ++ event.message

end Event

end DemandPaging
