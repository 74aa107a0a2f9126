import DemandPaging.Space.Pages

/-!
Page faults and user accesses.

A fault is resolved by bringing in the page that contains the address, or by growing the stack; any
other fault is rejected. Nothing is shared between pages, so a fault on a page that is present is
always rejected.

An access to user memory is cut at the page boundaries. Each piece is tried, and where the hardware
refuses it the fault is handled and the piece tried again.
-/

namespace DemandPaging.Space

open Machine

/-- Creates the stack page that contains an address and brings it in. -/
def growStack (space : Id) (address : VirtualAddress) : ExceptT Rejection Action Unit := do
  let va := address.roundDown
  let name := (← getSpace space).name
  let page ← Page.create va true (.pending .zeros)
  match ← (insertPage space page).run with
  | .error _ => throw .unmapped
  | .ok key =>
      match ← (claim key (← getSpace space).directory).run with
      | .ok () => record (.stackGrown name va)
      | .error cause =>
          record (.stackGrowthFailed name va cause)
          let _ ← removePage space va.number
          throw .loadFailed

def resolveFault (space : Id) (fault : PageFault) : ExceptT Rejection Action Resolution := do
  if fault.address.isNull then throw .nullAddress
  if fault.address.isKernel then throw .kernelAddress
  unless fault.notPresent do throw .protectionViolation
  let current ← getSpace space
  let stackPointer := if fault.user then fault.stackPointer else current.savedStackPointer
  match current.pages.find? fault.address with
  | none =>
      unless isStackAccess fault.address stackPointer do throw .unmapped
      growStack space fault.address
      return .stackGrown
  | some key =>
      let page ← getPage key
      if fault.write && !page.writable then throw .readOnly
      match ← (claim key current.directory).run with
      | .ok () => return .resolved
      | .error cause =>
          record (.bringInFailed current.name page.va cause)
          throw .loadFailed

def handleFault (space : Id) (fault : PageFault) : ExceptT Rejection Action Resolution := do
  let name := (← getSpace space).name
  record (.faulted name fault)
  try
    resolveFault space fault
  catch cause =>
    record (.faultRejected name fault.address cause)
    throw cause

/-! ### User accesses -/

structure Piece where
  offset : Nat
  length : Nat
deriving DecidableEq

/-- Cuts a buffer at the page boundaries. `position` is the address, as a number, of the byte at
`offset`, and `length` the number of bytes from there to the end. -/
def pieces (position offset length : Nat) : List Piece :=
  if _h : length = 0 then []
  else
    let size := min (pageSize - position % pageSize) length
    ⟨offset, size⟩ :: pieces (position + size) (offset + size) (length - size)
termination_by length
decreasing_by
  have hlt : position % pageSize < pageSize := Nat.mod_lt _ (by decide)
  simp only [pageSize] at *
  omega

/-- How often an access is tried before it is given up. -/
abbrev accessAttempts : Nat := 4

/-- Tries an access, handling the fault after each refusal. -/
def retry {α : Type} (space : Id) (va : VirtualAddress) (write : Bool)
    (access : ExceptT AccessViolation Action α) : (attempts : Nat) → ExceptT Rejection Action α
  | 0 => throw .loadFailed
  | attempts + 1 => do
      match ← access.run with
      | .ok value => return value
      | .error violation =>
          let _ ← handleFault space
            { address := va
              user := true
              write
              notPresent := violation == .notPresent
              stackPointer := (← getSpace space).stackPointer }
          retry space va write access attempts

def readPiece (space : Id) (va : VirtualAddress) (piece : Piece) :
    ExceptT Rejection Action (Array UInt8) := do
  let some at_ := va.add? piece.offset | throw .kernelAddress
  let directory := (← getSpace space).directory
  retry space at_ false (loadBytes directory at_ piece.length) accessAttempts

def writePiece (space : Id) (va : VirtualAddress) (data : Array UInt8) (piece : Piece) :
    ExceptT Rejection Action Unit := do
  let some at_ := va.add? piece.offset | throw .kernelAddress
  let directory := (← getSpace space).directory
  let bytes := data.extract piece.offset (piece.offset + piece.length)
  retry space at_ true (storeBytes directory at_ bytes) accessAttempts

def readPieces (space : Id) (va : VirtualAddress) (got : Array UInt8) :
    List Piece → Action (Array UInt8 × Except Rejection Unit)
  | [] => return (got, .ok ())
  | piece :: rest => do
      match ← (readPiece space va piece).run with
      | .ok bytes => readPieces space va (got ++ bytes) rest
      | .error cause => return (got, .error cause)

def writePieces (space : Id) (va : VirtualAddress) (data : Array UInt8) :
    List Piece → ExceptT Rejection Action Unit
  | [] => return ()
  | piece :: rest => do
      writePiece space va data piece
      writePieces space va data rest

/-- Reads user memory as the process would. Gives the bytes that were read, which are all of them
unless the access was rejected. -/
def readUser (space : Id) (va : VirtualAddress) (length : Nat) :
    Action (Array UInt8 × Except Rejection Unit) :=
  readPieces space va #[] (pieces va.toNat 0 length)

def writeUser (space : Id) (va : VirtualAddress) (data : Array UInt8) :
    ExceptT Rejection Action Unit :=
  writePieces space va data (pieces va.toNat 0 data.size)

end DemandPaging.Space
