import DemandPaging.PageTable.Radix

/-!
Page directories: the root of a page table and what the hardware does with it.

The view of a directory is `find?`, the present entry of the page that contains an address. Every
query is read off that entry, and every change stores one entry, so what an operation does to the
directory is said by what it does to `find?`.
-/

namespace DemandPaging

structure Directory where
  root : Table (pageTableLevels - 1)

namespace Directory

def empty : Directory := ⟨Table.empty _⟩

/-- The entry of the page that contains an address, if it is present. -/
def find? (directory : Directory) (va : VirtualAddress) : Option PageEntry :=
  (Table.find? _ directory.root va.toNat).filter PageEntry.isPresent

def setEntry (directory : Directory) (va : VirtualAddress) (entry : PageEntry) : Directory :=
  ⟨Table.store _ directory.root va.toNat entry⟩

/-- Maps a page to a frame. The flags are stored as given, except that the page is present and
neither accessed nor dirty. -/
def map (directory : Directory) (va : VirtualAddress) (pa : PhysicalAddress) (flags : PageFlags) :
    Except Panic Directory := do
  unless va.isPageAligned do throw .virtualAddressMisaligned
  unless pa.isPageAligned do throw .physicalAddressMisaligned
  let entry ← PageEntry.encode pa
    (((flags.set .present true).set .accessed false).set .dirty false)
  return directory.setEntry va entry

/-- Clears the entry of a page and gives the address to which it was mapped, if it was. -/
def unmap (directory : Directory) (va : VirtualAddress) : Option PhysicalAddress × Directory :=
  match directory.find? va with
  | some entry => (entry.address?, directory.setEntry va PageEntry.empty)
  | none => (none, directory)

def locate (directory : Directory) (va : VirtualAddress) :
    Option (PhysicalAddress × PageFlags) :=
  (directory.find? va).map fun entry => (entry.locate va.pageOffset va.pageOffset_lt, entry.flags)

def isMapped (directory : Directory) (va : VirtualAddress) : Bool := (directory.find? va).isSome

/-- Whether a flag is set on the page that contains an address; no flag is set on a page that is
not mapped. -/
def test (directory : Directory) (va : VirtualAddress) (flag : Flag) : Bool :=
  (directory.find? va).any fun entry => entry.flags.test flag

/-- Sets or clears a flag on the page that contains an address, if that page is mapped. -/
def setFlag (directory : Directory) (va : VirtualAddress) (flag : Flag) (on : Bool) : Directory :=
  match directory.find? va with
  | some entry => directory.setEntry va (entry.updateFlags fun flags => flags.set flag on)
  | none => directory

/-- An access in user mode. It is refused if the page is not mapped, belongs to the supervisor, or
is written to without being writable. Otherwise the page becomes accessed, and dirty by a write. -/
def access (directory : Directory) (va : VirtualAddress) (write : Bool) :
    Except AccessViolation (PhysicalAddress × Directory) :=
  match directory.find? va with
  | none => .error .notPresent
  | some entry =>
      if !entry.flags.test .user || (write && !entry.flags.test .writable) then
        .error .protection
      else
        let touched := entry.updateFlags fun flags =>
          if write then (flags.set .accessed true).set .dirty true else flags.set .accessed true
        .ok (touched.locate va.pageOffset va.pageOffset_lt, directory.setEntry va touched)

def mappedPages (directory : Directory) : Nat := Table.presentCount _ directory.root

def describe (directory : Directory) : String :=
  "PageDirectory \x7b mapped_pages: " ++ toString directory.mappedPages ++ " \x7d"

/-- Two addresses lie in the same page as far as the page table can tell. -/
def SamePage (a b : VirtualAddress) : Prop :=
  Table.SamePath (pageTableLevels - 1) a.toNat b.toNat

instance (a b : VirtualAddress) : Decidable (SamePage a b) :=
  inferInstanceAs (Decidable (Table.SamePath _ _ _))

theorem filter_getD_empty (found : Option PageEntry) :
    found.filter PageEntry.isPresent =
      (some (found.getD PageEntry.empty)).filter PageEntry.isPresent := by
  cases found with
  | none => simp [Option.filter]
  | some entry => rfl

theorem find?_setEntry (directory : Directory) (a b : VirtualAddress) (entry : PageEntry) :
    (directory.setEntry a entry).find? b =
      if SamePage a b then (some entry).filter PageEntry.isPresent else directory.find? b := by
  by_cases h : SamePage a b
  · have hfind : Table.find? _ (directory.setEntry a entry).root b.toNat = some entry := by
      have hsame := Table.find?_congr _ (directory.setEntry a entry).root h
      rw [← hsame]
      exact Table.find?_store_self _ _ _ _
    rw [if_pos h, find?, hfind]
  · rw [if_neg h, find?, find?, filter_getD_empty, filter_getD_empty (Table.find? _ _ _)]
    rw [setEntry, Table.find?_store_of_not_samePath _ _ _ h]

end Directory

end DemandPaging
