import DemandPaging.Machine.Residency

/-!
The pages of an address space.

The page directory knows the resident pages only. The page map knows every page that the process may
touch, also those that are swapped out, pending or backed by a file. A page in the map is held by
it, and a page that is removed from the map is released before it is given up.
-/

namespace DemandPaging

namespace PageMap

def find? (map : PageMap) (va : VirtualAddress) : Option (Key Page) := map[va.number]?

def insertNew (map : PageMap) (va : VirtualAddress) (key : Key Page) : Except VmError PageMap :=
  if map.contains va.number then .error .alreadyMapped else .ok (map.insert va.number key)

/-- Whether none of `count` pages from `start` on is in the map. -/
def isRangeFree (map : PageMap) (start : PageNumber) (count : Nat) : Except Panic Bool := do
  let stop ← start.add count
  match map.getKeyGE? start with
  | some first => return !decide (first.toNat < stop.toNat)
  | none => return true

def addresses (map : PageMap) : Except Panic (List VirtualAddress) := map.keys.mapM Number.start

end PageMap

namespace Machine

/-- Releases a page and takes the hold that a map has on it. -/
def releaseHeld (key : Key Page) : Action Unit := do
  release key
  dropPage key

/-- Adds a page that someone holds already to a map, which then holds it as well. -/
def shareWithMap (map : PageMap) (key : Key Page) : ExceptT VmError Action PageMap := do
  match map.insertNew (← getPage key).va key with
  | .error cause => throw cause
  | .ok map =>
      holdPage key
      return map

def abandonAll : List (Key Page) → Action Unit
  | [] => return ()
  | key :: rest => do
      dropPage key
      abandonAll rest

/-- Removes a page from a map and releases it. Gives nothing if there was none. -/
def removeFromMap (map : PageMap) (number : PageNumber) : Action (Option PageMap) := do
  let some key := map[number]? | return none
  releaseHeld key
  return some (map.erase number)

def removeAllFromMap (map : PageMap) : List PageNumber → Action PageMap
  | [] => return map
  | number :: rest => do
      removeAllFromMap ((← removeFromMap map number).getD map) rest

end Machine

namespace Space

open Machine

/-- The address spaces are named by their keys. -/
abbrev Id := Key AddressSpace

def insertPage (space : Id) (page : Page) : ExceptT VmError Action (Key Page) := do
  let map := (← getSpace space).pages
  let key := (← get).pages.nextKey
  match map.insertNew page.va key with
  | .error cause => throw cause
  | .ok map =>
      let key ← addPage page
      updateSpace space fun space => { space with pages := map }
      return key

def removePage (space : Id) (number : PageNumber) : Action Bool := do
  match ← removeFromMap (← getSpace space).pages number with
  | none => return false
  | some map =>
      updateSpace space fun space => { space with pages := map }
      return true

def removePages (space : Id) : List PageNumber → Action Unit
  | [] => return ()
  | number :: rest => do
      let _ ← removePage space number
      removePages space rest

/-- Adds new pages in order. If one has no place, the ones added before are removed again. They are
kept in `inserted`, the last one first. -/
def insertRun (space : Id) (inserted : List PageNumber) :
    List Page → ExceptT VmError Action Unit
  | [] => return ()
  | page :: rest => do
      try
        let _ ← insertPage space page
      catch cause =>
        removePages space inserted.reverse
        throw cause
      insertRun space (page.va.number :: inserted) rest

/-- Refuses a range of pages that is not in user memory or not free. -/
def requireFreeRange (space : Id) (start : VirtualAddress) (count : Nat) :
    ExceptT VmError Action Unit := do
  if start.isNull || start.isKernel then throw .invalidAddress
  let some stop := (Word.mul? count pageSize).bind start.add? | throw .invalidAddress
  if kernelBase < stop.toNat then throw .invalidAddress
  unless ← (← getSpace space).pages.isRangeFree start.number count do throw .overlap

/-- What is known of one page of an address space: its address, its descriptor and its mapping. -/
structure Known where
  va : VirtualAddress
  page : Page
  mapping : Option (PhysicalAddress × PageFlags)

def survey (space : Id) : Action (List Known) := do
  let current ← getSpace space
  let directory ← getDirectory current.directory
  current.pages.toList.mapM fun (number, key) => do
    let va ← number.start
    return ⟨va, ← getPage key, directory.locate va⟩

def pageOut (space : Id) (va : VirtualAddress) : Action Bool := do
  match (← getSpace space).pages.find? va with
  | some key => Machine.pageOut key
  | none => return false

end Space

end DemandPaging
