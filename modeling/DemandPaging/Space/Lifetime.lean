import DemandPaging.Space.Mapping

/-!
The life of an address space: creation, duplication by fork, and the end.

A fork copies every region and every page into a new address space. It may fail or panic half way,
and then the new address space ends like any other: its regions are unmapped, its remaining pages
released and its name forgotten.
-/

namespace DemandPaging.Space

open Machine

def create (name : String) : Action Id := do
  record (.spaceCreated name)
  let directory ← addDirectory
  addSpace
    { name
      directory
      pages := ∅
      regions := ∅
      stackPointer := 0
      savedStackPointer := 0 }

def setStackPointer (space : Id) (stackPointer : Nat) : Action Unit :=
  updateSpace space fun space => { space with stackPointer }

def saveStackPointer (space : Id) (savedStackPointer : Nat) : Action Unit :=
  updateSpace space fun space => { space with savedStackPointer }

/-! ### The end -/

def unmapFiles (space : Id) : List VirtualAddress → Action Unit
  | [] => return ()
  | start :: rest => do
      unmapFile space start
      unmapFiles space rest

/-- Unmaps every region, then releases every page that is left. -/
def tearDown (space : Id) : Action Unit := do
  unmapFiles space (← getSpace space).regions.keys
  removePages space (← getSpace space).pages.keys

def drop (space : Id) : Action Unit := do
  tearDown space
  eraseSpace space

def exit (space : Id) (status : Int) : Action Int := do
  record (.exited (← getSpace space).name status)
  drop space
  return status

/-! ### Fork -/

def copyRegions (child : Id) : List Region → ExceptT VmError Action Unit
  | [] => return ()
  | region :: rest => do
      let some handle ← reopen region.handle.file | throw .outOfFiles
      updateSpace child fun space =>
        { space with regions := space.regions.insert region.start { region with handle } }
      copyRegions child rest

def copyPages (child : Id) : List (Key Page) → ExceptT VmError Action Unit
  | [] => return ()
  | key :: rest => do
      let target ← getSpace child
      let copy ← duplicate key target.directory
      match target.pages.insertNew (← getPage copy).va copy with
      | .ok pages =>
          updateSpace child fun space => { space with pages }
          copyPages child rest
      | .error cause =>
          releaseHeld copy
          throw cause

/-- Copies the regions and the pages of an address space. After a panic on the way the copy is torn
down before the panic goes on. -/
def copyAll (child : Id) (parent : AddressSpace) : ExceptT VmError Action Unit :=
  tryCatchThe Panic
    (do
      copyRegions child parent.regions.values
      copyPages child parent.pages.values)
    fun panic => do
      drop child
      throwThe Panic panic

/-- Creates a copy of an address space. Nothing is shared between the two. -/
def fork (parent : Id) (name : String) : ExceptT VmError Action Id := do
  let current ← getSpace parent
  let child ← create name
  setStackPointer child current.stackPointer
  saveStackPointer child current.savedStackPointer
  try
    copyAll child current
  catch cause =>
    record (.forkFailed current.name cause)
    drop child
    throw cause
  record (.forked current.name name (← getSpace child).pages.size)
  return child

end DemandPaging.Space
