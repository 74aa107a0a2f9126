/-!
The ways in which an operation does not succeed.

There are two, and they are kept apart. An error is an answer: the caller asked for something that
cannot be had, and the state is still good. The types `VmError`, `Rejection`, `BlockError`,
`SwapError` and `AccessViolation` name the causes. A `Panic` is the end of the run: an internal
check has failed, or an arithmetic operation left the 64-bit range. Operations that only answer with
errors return `Except` of the error type; those with internal checks live in `Except Panic`.
-/

namespace DemandPaging

/-- Why a mapping, a fork or the loading of a page was refused. -/
inductive VmError where
  | invalidAddress
  | misaligned
  | zeroLength
  | emptyFile
  | overlap
  | alreadyMapped
  | badDescriptor
  | outOfFiles
  | outOfMemory
  | loadFailed
  | invalidSegment
  | invalidOffset
deriving DecidableEq

/-- Why a page fault was refused. The process that took it is terminated. -/
inductive Rejection where
  | nullAddress
  | kernelAddress
  | protectionViolation
  | unmapped
  | readOnly
  | loadFailed
deriving DecidableEq

inductive BlockError where
  | outOfRange
deriving DecidableEq

/-- Why a page could not be moved to or from swap. -/
inductive SwapError where
  | full
  | device (cause : BlockError)
deriving DecidableEq

inductive AccessViolation where
  | notPresent
  | protection
deriving DecidableEq

namespace VmError

def all : List VmError :=
  [invalidAddress, misaligned, zeroLength, emptyFile, overlap, alreadyMapped, badDescriptor,
    outOfFiles, outOfMemory, loadFailed, invalidSegment, invalidOffset]

@[simp] theorem mem_all (error : VmError) : error ∈ all := by
  cases error <;> decide

def name : VmError → String
  | invalidAddress => "InvalidAddress"
  | misaligned => "Misaligned"
  | zeroLength => "ZeroLength"
  | emptyFile => "EmptyFile"
  | overlap => "Overlap"
  | alreadyMapped => "AlreadyMapped"
  | badDescriptor => "BadDescriptor"
  | outOfFiles => "OutOfFiles"
  | outOfMemory => "OutOfMemory"
  | loadFailed => "LoadFailed"
  | invalidSegment => "InvalidSegment"
  | invalidOffset => "InvalidOffset"

def message : VmError → String
  | invalidAddress => "invalid user address"
  | misaligned => "address or offset not page aligned"
  | zeroLength => "zero-length mapping"
  | emptyFile => "file is empty"
  | overlap => "range overlaps an existing page"
  | alreadyMapped => "page already present"
  | badDescriptor => "bad file descriptor"
  | outOfFiles => "out of file handles"
  | outOfMemory => "out of memory"
  | loadFailed => "page contents could not be loaded"
  | invalidSegment => "segment is not a whole number of pages"
  | invalidOffset => "file offset out of range"

end VmError

namespace Rejection

def all : List Rejection :=
  [nullAddress, kernelAddress, protectionViolation, unmapped, readOnly, loadFailed]

@[simp] theorem mem_all (rejection : Rejection) : rejection ∈ all := by
  cases rejection <;> decide

def name : Rejection → String
  | nullAddress => "NullAddress"
  | kernelAddress => "KernelAddress"
  | protectionViolation => "ProtectionViolation"
  | unmapped => "Unmapped"
  | readOnly => "ReadOnly"
  | loadFailed => "LoadFailed"

def message : Rejection → String
  | nullAddress => "null pointer access"
  | kernelAddress => "kernel address access"
  | protectionViolation => "protection violation"
  | unmapped => "unmapped address"
  | readOnly => "write to read-only page"
  | loadFailed => "page could not be loaded"

end Rejection

namespace BlockError

def name : BlockError → String
  | outOfRange => "OutOfRange"

def message : BlockError → String
  | outOfRange => "sector out of range"

end BlockError

namespace SwapError

/-- The name of the swap error in diagnostics; a device error names its cause. -/
def name : SwapError → String
  | full => "Full"
  | device cause => "Device(" ++ cause.name ++ ")"

def message : SwapError → String
  | full => "swap space exhausted"
  | device cause => "swap device error: " ++ cause.message

end SwapError

namespace AccessViolation

def name : AccessViolation → String
  | notPresent => "NotPresent"
  | protection => "Protection"

end AccessViolation

/-- Why a run ended: one constructor for each internal check.

`overflow` is an addition, subtraction or multiplication that leaves the 64-bit range and
`outOfBounds` an index or a slice outside what it indexes. The checks of the ownership audit carry
the frame and the address they complain about. -/
inductive Panic where
  | overflow
  | outOfBounds
  | alignmentNotPowerOfTwo
  | tableLevelOutOfRange
  | physicalAddressTooWide
  | addressNotCanonical
  | physicalAddressMisaligned
  | virtualAddressMisaligned
  | pageAddressMisaligned
  | freeingUnallocatedFrame
  | partialSwapTransfer
  | readingFreeSlot
  | freeingFreeSlot
  | residentPageHoldsSlot
  | anonymousPageStuck (cause : SwapError)
  | fileSliceTooLarge
  | evictingUnloadedPage
  | frameListedTwice (frame : Nat)
  | frameListedButFree (frame : Nat)
  | frameWithoutOwner (frame : Nat)
  | frameOwnedByDroppedPage (frame : Nat)
  | pageNotPointingBack (va : String) (frame : Nat)
  | pageNotMappedToFrame (va : String) (frame : Nat)
  | pageNotOwner (va : String) (frame : Nat)
  | residencyDisagrees (va : String)
deriving DecidableEq

namespace Panic

def message : Panic → String
  | overflow => "arithmetic overflow"
  | outOfBounds => "index out of bounds"
  | alignmentNotPowerOfTwo => "alignment must be a power of two"
  | tableLevelOutOfRange => "page table level out of range"
  | physicalAddressTooWide => "physical address exceeds maximum width"
  | addressNotCanonical => "address is not canonical"
  | physicalAddressMisaligned => "physical address must be page-aligned"
  | virtualAddressMisaligned => "virtual address must be page-aligned"
  | pageAddressMisaligned => "page address must be page-aligned"
  | freeingUnallocatedFrame => "freeing a frame that is not allocated"
  | partialSwapTransfer => "swap transfers whole pages"
  | readingFreeSlot => "reading a free swap slot"
  | freeingFreeSlot => "freeing a free swap slot"
  | residentPageHoldsSlot => "resident page still holds a swap slot"
  | anonymousPageStuck cause => "cannot evict anonymous page: " ++ cause.message
  | fileSliceTooLarge => "file slice larger than a page"
  | evictingUnloadedPage => "evicting a page that was never loaded"
  | frameListedTwice frame => s!"frame {frame} listed twice"
  | frameListedButFree frame => s!"frame {frame} listed but free"
  | frameWithoutOwner frame => s!"frame {frame} has no owner"
  | frameOwnedByDroppedPage frame => s!"frame {frame} owned by a dropped page"
  | pageNotPointingBack va frame => s!"page {va} does not point back at frame {frame}"
  | pageNotMappedToFrame va frame => s!"page {va} not mapped to frame {frame}"
  | pageNotOwner va frame => s!"page {va} is not the owner of frame {frame}"
  | residencyDisagrees va => s!"page {va} residency and mapping disagree"

end Panic

end DemandPaging
