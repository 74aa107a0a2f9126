import DemandPaging.Bytes
import DemandPaging.Word

/-!
The swap device: an array of sectors, each of which can be read and written as a whole.

A device may refuse any request, for any reason of its own; which ones it refuses is a function of
the number of requests made before, the direction and the sector. A request it does not refuse reads
what was last written to the sector. Sectors past the end of the medium are always refused, also
when the device reports a larger size than it has. The device keeps a list of what it was asked for.
-/

namespace DemandPaging

abbrev Sector := Bytes sectorSize

inductive Direction where
  | read
  | write
deriving DecidableEq

structure Disk where
  sectors : Array Sector
  /-- The number of sectors that the device reports. -/
  reported : Nat
  /-- The number of sector writes that reached the medium. -/
  writes : Nat
  /-- The requests made so far, the latest first. -/
  requests : List (Direction × Nat)
  /-- Whether the device refuses a request. -/
  refuses : (earlier : Nat) → Direction → (sector : Nat) → Bool

namespace Disk

/-- A zeroed device that refuses nothing. -/
def ofSize (size : Nat) : Disk :=
  { sectors := Array.replicate size (Bytes.zeros sectorSize)
    reported := size
    writes := 0
    requests := []
    refuses := fun _ _ _ => false }

/-- A zeroed device that refuses nothing and whose size in bytes is a word. -/
def create (size : Nat) : Except Panic Disk := do
  discard <| Word.mul size sectorSize
  return ofSize size

def absent : Disk := ofSize 0

/-- The same device, refusing every sector from `limit` on. -/
def limitedTo (disk : Disk) (limit : Nat) : Disk :=
  { disk with refuses := fun _ _ sector => limit ≤ sector }

def peek (disk : Disk) (sector : Nat) : Except BlockError Sector :=
  match disk.sectors[sector]? with
  | some bytes => .ok bytes
  | none => .error .outOfRange

def poke (disk : Disk) (sector : Nat) (bytes : Sector) : Except BlockError Disk :=
  if sector < disk.sectors.size then
    .ok { disk with
      sectors := disk.sectors.setIfInBounds sector bytes
      writes := disk.writes + 1 }
  else .error .outOfRange

/-- The device after it was asked for a sector. -/
def asked (disk : Disk) (direction : Direction) (sector : Nat) : Disk :=
  { disk with requests := (direction, sector) :: disk.requests }

def readSector (disk : Disk) (sector : Nat) : Except BlockError Sector × Disk :=
  if disk.refuses disk.requests.length .read sector then
    (.error .outOfRange, disk.asked .read sector)
  else (disk.peek sector, disk.asked .read sector)

def writeSector (disk : Disk) (sector : Nat) (bytes : Sector) : Except BlockError Unit × Disk :=
  if disk.refuses disk.requests.length .write sector then
    (.error .outOfRange, disk.asked .write sector)
  else match disk.poke sector bytes with
    | .ok written => (.ok (), written.asked .write sector)
    | .error cause => (.error cause, disk.asked .write sector)

end Disk

def Bytes.sector (page : PageBytes) (i : Fin sectorsPerPage) : Sector :=
  Vector.ofFn fun j => page.get ⟨i.val * sectorSize + j.val, by
    have hi := i.isLt
    have hj := j.isLt
    simp only [sectorsPerPage, sectorSize, pageSize] at *
    omega⟩

def Bytes.setSector (page : PageBytes) (i : Fin sectorsPerPage) (bytes : Sector) : PageBytes :=
  page.overlay (i.val * sectorSize) bytes.toArray

namespace Disk

/-- Writes sectors of a page to consecutive sectors of the device, up to the first refusal. -/
def writeSectors (disk : Disk) (first : Nat) (page : PageBytes) :
    List (Fin sectorsPerPage) → Except BlockError Unit × Disk
  | [] => (.ok (), disk)
  | i :: rest =>
      match disk.writeSector (first + i) (page.sector i) with
      | (.ok (), disk) => disk.writeSectors first page rest
      | (.error cause, disk) => (.error cause, disk)

def readSectors (disk : Disk) (first : Nat) (page : PageBytes) :
    List (Fin sectorsPerPage) → Except BlockError Unit × PageBytes × Disk
  | [] => (.ok (), page, disk)
  | i :: rest =>
      match disk.readSector (first + i) with
      | (.ok bytes, disk) => disk.readSectors first (page.setSector i bytes) rest
      | (.error cause, disk) => (.error cause, page, disk)

def peekRun (disk : Disk) (first count : Nat) : Except BlockError (Array UInt8) := do
  let sectors ← (List.range count).mapM fun i => disk.peek (first + i)
  return sectors.foldl (fun all sector => all ++ sector.toArray) #[]

def writePage (disk : Disk) (first : Nat) (page : PageBytes) : Except BlockError Unit × Disk :=
  disk.writeSectors first page (List.finRange sectorsPerPage)

/-- Reads a page from the device over `page`; what a refusal leaves unread stays as it was. -/
def readPage (disk : Disk) (first : Nat) (page : PageBytes) :
    Except BlockError Unit × PageBytes × Disk :=
  disk.readSectors first page (List.finRange sectorsPerPage)

end Disk

end DemandPaging
