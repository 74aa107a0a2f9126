import DemandPaging.Backing.File

/-!
File slices: the part of a file that backs one page.

The first `readBytes` bytes of the page are those of the file from `offset` on; the rest of the page
is zero and never written back. A slice is never larger than a page.
-/

namespace DemandPaging

structure FileSlice where
  handle : Handle
  offset : Nat
  readBytes : Nat
  readBytes_le : readBytes ≤ pageSize
deriving DecidableEq

namespace FileSlice

def create (handle : Handle) (offset readBytes : Nat) : Except Panic FileSlice :=
  if h : readBytes ≤ pageSize then .ok ⟨handle, offset, readBytes, h⟩
  else .error .fileSliceTooLarge

/-- Fills a buffer from the file and its rest with zeros. The result also says whether the file had
all the bytes of the slice. -/
def readInto {n : Nat} (slice : FileSlice) (file : File) (buffer : Bytes n) :
    Except Panic (Bool × Bytes n) := do
  if n < slice.readBytes then throw .outOfBounds
  let available := file.read slice.offset slice.readBytes
  return (available.size == slice.readBytes,
    (buffer.overlay 0 available).clearFrom available.size)

/-- Writes the file's part of a buffer back and gives the number of bytes written. An empty slice
does not reach the file. -/
def writeBack {n : Nat} (slice : FileSlice) (file : File) (buffer : Bytes n) :
    Except Panic (Nat × File) := do
  if slice.readBytes = 0 then return (0, file)
  if n < slice.readBytes then throw .outOfBounds
  return file.write slice.offset (buffer.slice 0 slice.readBytes)

def describe (slice : FileSlice) : String :=
  s!"FileSlice \x7b offset: {slice.offset}, read_bytes: {slice.readBytes}, .. \x7d"

end FileSlice

end DemandPaging
